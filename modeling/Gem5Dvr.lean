import Gem5Dvr.Lib.Trace
import Gem5Dvr.Lib.Recency
import Gem5Dvr.Lib.WordSet
import Gem5Dvr.Riscv
import Gem5Dvr.Uop
import Gem5Dvr.Decode
import Gem5Dvr.DecodeBase
import Gem5Dvr.DecodeCompressed
import Gem5Dvr.Discovery
import Gem5Dvr.StrideDetector
import Gem5Dvr.StrideAdmission
import Gem5Dvr.TaintTracker
import Gem5Dvr.Lib.Fold
import Gem5Dvr.FreeList
import Gem5Dvr.HelperRegs
import Gem5Dvr.HelperAlloc
import Gem5Dvr.HelperLoops
import Gem5Dvr.HelperInv
import Gem5Dvr.HelperInit
import Gem5Dvr.HelperNames
import Gem5Dvr.HelperLeak
import Gem5Dvr.HelperRead
import Gem5Dvr.Rename
import Gem5Dvr.RenameInv
import Gem5Dvr.RenamePartition
import Gem5Dvr.Continuation
import Gem5Dvr.ContinuationPath
import Gem5Dvr.ReplayLanes
import Gem5Dvr.Lib.Pointwise
import Gem5Dvr.ReplayChain
import Gem5Dvr.ReplayChainInv
import Gem5Dvr.ReplayChainPick
import Gem5Dvr.ReplayChainBranch
import Gem5Dvr.ReplayChainRun
import Gem5Dvr.HelperThread
import Gem5Dvr.Lib.Table
import Gem5Dvr.QualityTracker
import Gem5Dvr.QualityShadow
import Gem5Dvr.QualityLate
import Gem5Dvr.NestedMode
import Gem5Dvr.NestedController
import Gem5Dvr.Compression.Huffman
import Gem5Dvr.Compression.SuperBlk
import Gem5Dvr.Compression.Overwrite
import Gem5Dvr.Compression.Dictionary
import Gem5Dvr.Compression.Compressors
import Gem5Dvr.Compression.FpcPatterns
import Gem5Dvr.Lib.Tally
import Gem5Dvr.PrefetchQueue
import Gem5Dvr.Pmp
import Gem5Dvr.PmpRule
import Gem5Dvr.PrefetchMirror
import Gem5Dvr.L1Cache
import Gem5Dvr.L1Outstanding
import Gem5Dvr.L1Residence
import Gem5Dvr.AddrRange
import Gem5Dvr.AddrRangeTiling
import Gem5Dvr.AddrRangeMap
import Gem5Dvr.Lib.BitPrefix
import Gem5Dvr.Trie
import Gem5Dvr.TrieInsert
import Gem5Dvr.TrieMap
import Gem5Dvr.Lib.ShiftRegister
import Gem5Dvr.SkewedAssociative
import Gem5Dvr.Mshr
import Gem5Dvr.MshrTargets
import Gem5Dvr.MshrRun
import Gem5Dvr.MshrQueue
import Gem5Dvr.MshrSummaries
import Gem5Dvr.Rob
import Gem5Dvr.RobSquash
import Gem5Dvr.MemDepUnit
import Gem5Dvr.MemDepRun
import Gem5Dvr.MemDepReady
import Gem5Dvr.StallingSlice
import Gem5Dvr.MispTable
import Gem5Dvr.LanePredicate
import Gem5Dvr.Discriminator
import Gem5Dvr.StoreSet
import Gem5Dvr.XBarLayer
import Gem5Dvr.MemCtrl
import Gem5Dvr.MemCtrlBursts
import Gem5Dvr.MemCtrlLedger
import Gem5Dvr.MemCtrlAccept
import Gem5Dvr.MemCtrlRun
import Gem5Dvr.SnoopFilter
import Gem5Dvr.SnoopFilterRun
import Gem5Dvr.SnoopFilterHolders
import Gem5Dvr.Coherence
import Gem5Dvr.CoherenceSnoop
import Gem5Dvr.CoherenceRun
import Gem5Dvr.Tlb
import Gem5Dvr.TlbWalk
import Gem5Dvr.VectorRename
import Gem5Dvr.AddressRelation
import Gem5Dvr.Lib.LinkedList
import Gem5Dvr.EventQueue
import Gem5Dvr.EventQueueRun
import Gem5Dvr.PacketQueue
import Gem5Dvr.ReturnAddrStack
import Gem5Dvr.BPredUnit
import Gem5Dvr.Tage
import Gem5Dvr.TageHistories
import Gem5Dvr.LoopBound
import Gem5Dvr.LoopBoundInfer
import Gem5Dvr.NestedLaunch
import Gem5Dvr.ContinuationStack
import Gem5Dvr.ContinuationDrain
import Gem5Dvr.LanePC
import Gem5Dvr.Recorder
import Gem5Dvr.ScalarReplay
import Gem5Dvr.AlternatePath
import Gem5Dvr.TlbSlots
import Gem5Dvr.TlbRun
import Gem5Dvr.ParkedLanes
import Gem5Dvr.ParkedIssue
import Gem5Dvr.ParkedRun
import Gem5Dvr.Lib.Ordered
import Gem5Dvr.QueuedPrefetcher
import Gem5Dvr.CommandBus
import Gem5Dvr.Lib.Digits
import Gem5Dvr.DramDecode
import Gem5Dvr.StoreConditional
import Gem5Dvr.PageWalker
import Gem5Dvr.PageWalkerRun
import Gem5Dvr.BestOffset
import Gem5Dvr.Lib.Spacing
import Gem5Dvr.DramTiming
import Gem5Dvr.LoopPredictor
import Gem5Dvr.LsqRead
import Gem5Dvr.StoreSetSquash
import Gem5Dvr.IntMath
import Gem5Dvr.AddrRangeExclude
import Gem5Dvr.AddrRangeSubset
