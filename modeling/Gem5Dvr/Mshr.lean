/-
  The miss status holding register (`mem/cache/mshr.cc`), and the calls a cache makes on one.

    1. Commands and packets (`mem/packet.cc`), as far as a register reads them.
    2. `TargetList` and `MSHR`, with every flag.  An assertion that fails, a panic and `front()` of
       an empty list leave no result.
    3. The cache around it: a request is sent, snoops come, a response is handled by the calls of
       `recvTimingResp` one after the other (`Turn`).
    4. What is recorded of a run: the packets in the order they were added, and the lists that were
       returned.
-/
import Mathlib.Algebra.Group.Nat.Defs
import Mathlib.Data.List.Basic

namespace Gem5Dvr.Mshr

/-! ## Packets -/

/-- The commands of `MemCmd` that an MSHR meets. -/
inductive MemCmd
  | InvalidCmd | ReadReq | ReadResp | ReadRespWithInvalidate | WriteReq | WriteResp
  | WriteCompleteResp | WritebackDirty | WritebackClean | WriteClean | CleanEvict | SoftPFReq
  | SoftPFExReq | HardPFReq | SoftPFResp | HardPFResp | WriteLineReq | UpgradeReq | SCUpgradeReq
  | UpgradeResp | SCUpgradeFailReq | UpgradeFailResp | ReadExReq | ReadExResp | ReadCleanReq
  | ReadSharedReq | LoadLockedReq | StoreCondReq | StoreCondFailReq | StoreCondResp
  | LockedRMWReadReq | LockedRMWReadResp | LockedRMWWriteReq | LockedRMWWriteResp | SwapReq
  | SwapResp | MemFenceReq | MemSyncReq | MemSyncResp | MemFenceResp | CleanSharedReq
  | CleanSharedResp | CleanInvalidReq | CleanInvalidResp | InvalidDestError | BadAddressError
  | FunctionalReadError | FunctionalWriteError | PrintReq | FlushReq | InvalidateReq
  | InvalidateResp | HTMReq | HTMReqResp | HTMAbort | TlbiExtSync
  deriving DecidableEq, Repr

namespace MemCmd

/-- The columns of `commandInfo`, each as the commands that have the attribute. -/
def isWrite : MemCmd → Bool
  | WriteReq | WriteResp | WriteCompleteResp | WritebackDirty | WritebackClean | WriteClean
  | WriteLineReq | StoreCondReq | StoreCondFailReq | StoreCondResp | LockedRMWWriteReq
  | LockedRMWWriteResp | SwapReq | SwapResp | FunctionalWriteError => true
  | _ => false

/-- Is about ownership alone. -/
def isUpgrade : MemCmd → Bool
  | UpgradeReq | SCUpgradeReq | UpgradeResp => true
  | _ => false

/-- Takes the copies away. -/
def isInvalidate : MemCmd → Bool
  | ReadRespWithInvalidate | SoftPFExReq | UpgradeReq | SCUpgradeReq | SCUpgradeFailReq | ReadExReq
  | CleanInvalidReq | CleanInvalidResp | InvalidateReq | InvalidateResp => true
  | _ => false

/-- A cache clean. -/
def isClean : MemCmd → Bool
  | CleanSharedReq | CleanSharedResp | CleanInvalidReq | CleanInvalidResp => true
  | _ => false

/-- Needs a writable copy. -/
def needsWritable : MemCmd → Bool
  | WriteReq | SoftPFExReq | WriteLineReq | UpgradeReq | SCUpgradeReq | SCUpgradeFailReq | ReadExReq
  | StoreCondReq | StoreCondFailReq | LockedRMWReadReq | LockedRMWReadResp | LockedRMWWriteReq
  | LockedRMWWriteResp | SwapReq | FlushReq | InvalidateReq => true
  | _ => false

/-- Is answered. -/
def needsResponse : MemCmd → Bool
  | ReadReq | WriteReq | SoftPFReq | SoftPFExReq | HardPFReq | WriteLineReq | UpgradeReq
  | SCUpgradeReq | SCUpgradeFailReq | ReadExReq | ReadCleanReq | ReadSharedReq | LoadLockedReq
  | StoreCondReq | StoreCondFailReq | LockedRMWReadReq | LockedRMWWriteReq | SwapReq | MemFenceReq
  | MemSyncReq | CleanSharedReq | CleanInvalidReq | InvalidateReq | HTMReq => true
  | _ => false

/-- Comes from a cache. -/
def fromCache : MemCmd → Bool
  | WritebackDirty | WritebackClean | WriteClean | CleanEvict | HardPFReq | UpgradeReq
  | SCUpgradeReq | SCUpgradeFailReq | ReadExReq | ReadCleanReq | ReadSharedReq | CleanSharedReq
  | CleanInvalidReq | InvalidateReq => true
  | _ => false

end MemCmd

/-- The flags of a `Request`. -/
structure Request where
  uncacheable : Bool := false
  strictOrder : Bool := false
  privileged : Bool := false
  llsc : Bool := false
  memSwap : Bool := false
  memSwapCond : Bool := false
  secure : Bool := false
  lockedRMW : Bool := false
  clean : Bool := false
  invalidate : Bool := false
  deriving DecidableEq, Repr

namespace Request

/-- `Request::isUncacheable`. -/
def isUncacheable (r : Request) : Bool := r.uncacheable
/-- `Request::isCacheInvalidate`. -/
def isCacheInvalidate (r : Request) : Bool := r.invalidate
/-- A clean or an invalidation. -/
def isCacheMaintenance (r : Request) : Bool := r.clean || r.invalidate

/-- `isSet(no_merge_flags)`. -/
def noMerge (r : Request) : Bool :=
  r.uncacheable || r.strictOrder || r.privileged || r.llsc || r.memSwap || r.memSwapCond ||
    r.secure || r.lockedRMW

end Request

/-- A packet; `id` is its address, and `sender` tells that an MSHR is among its sender states. -/
structure Packet where
  id : Nat
  cmd : MemCmd
  req : Request := {}
  addr : Nat := 0
  size : Nat := 0
  expressSnoop : Bool := false
  sender : Bool := false
  deriving DecidableEq, Repr

/-- An upgrade becomes a miss of its kind. -/
def replaceUpgrade (pkt : Packet) : Packet :=
  match pkt.cmd with
  | .UpgradeReq => { pkt with cmd := .ReadExReq }
  | .SCUpgradeReq => { pkt with cmd := .SCUpgradeFailReq }
  | .StoreCondReq => { pkt with cmd := .StoreCondFailReq }
  | _ => pkt

/-! ## Target lists -/

/-- Where a target comes from. -/
inductive Source
  | FromCPU | FromSnoop | FromPrefetcher
  deriving DecidableEq, Repr

/-- A request that waits for the line. -/
structure Target where
  pkt : Packet
  readyTime : Nat
  order : Nat
  source : Source
  markedPending : Bool
  allocOnFill : Bool
  deriving DecidableEq, Repr

/-- The targets, and what they have been summed up to. -/
structure TargetList where
  list : List Target := []
  needsWritable : Bool := false
  hasUpgrade : Bool := false
  allocOnFill : Bool := false
  hasFromCache : Bool := false
  blkSize : Nat := 0
  canMergeWrites : Bool := true
  writesBitmap : List Bool := []
  deriving DecidableEq, Repr

namespace TargetList

variable (l : TargetList)

/-- Back to an empty list's flags. -/
def resetFlags : TargetList := { l with
    canMergeWrites := true
    writesBitmap := l.writesBitmap.map fun _ => false
    needsWritable := false
    hasUpgrade := false
    allocOnFill := false
    hasFromCache := false }

/-- `init`; the block address is that of the MSHR. -/
def init (blk_size : Nat) : TargetList :=
  { l with blkSize := blk_size, writesBitmap := List.replicate blk_size false }.resetFlags

/-- The flags are those of an empty list. -/
def isReset : Bool :=
  !l.needsWritable && !l.hasUpgrade && !l.allocOnFill && !l.hasFromCache && l.canMergeWrites

/-- Every byte of the line is written. -/
def isWholeLineWrite : Bool := l.writesBitmap.all id

/-- A write adds its bytes, if it may be merged. -/
def updateWriteFlags (pkt : Packet) : TargetList :=
  if l.isWholeLineWrite then l
  else if !l.canMergeWrites then l
  else if !pkt.cmd.isWrite then { l with canMergeWrites := false }
  else
    let compat_write := !pkt.req.noMerge
    let first_write := l.list.isEmpty
    let offset := pkt.addr % l.blkSize
    { l with
      writesBitmap := if first_write || compat_write then
          l.writesBitmap.mapIdx fun i b => b || decide (offset ≤ i ∧ i < offset + pkt.size)
        else l.writesBitmap
      canMergeWrites := l.canMergeWrites && compat_write }

/-- A target adds what it needs. -/
def updateFlags (pkt : Packet) (source : Source) (alloc_on_fill : Bool) : TargetList :=
  if source ≠ .FromSnoop then
    let l := { l with
        needsWritable := l.needsWritable || pkt.cmd.needsWritable
        hasUpgrade := l.hasUpgrade || (pkt.cmd.isUpgrade || pkt.cmd == .StoreCondReq)
        allocOnFill := l.allocOnFill || alloc_on_fill }
    if source ≠ .FromPrefetcher then
      { l with hasFromCache := l.hasFromCache || pkt.cmd.fromCache }.updateWriteFlags pkt
    else l
  else l

/-- The flags anew, target by target. -/
def populateFlags : TargetList :=
  l.list.foldl (fun l t => l.updateFlags t.pkt t.source t.allocOnFill) l.resetFlags

/-- A target at the end, with its flags. -/
def add (pkt : Packet) (readyTime order : Nat) (source : Source)
    (markPending alloc_on_fill : Bool) : TargetList :=
  let l := l.updateFlags pkt source alloc_on_fill
  { l with
    list := l.list ++ [⟨pkt, readyTime, order, source, markPending && pkt.sender, alloc_on_fill⟩] }

/-- `replaceUpgrade` of each target. -/
def replaceUpgrades : TargetList :=
  if l.hasUpgrade then
    { l with
      list := l.list.map fun t => { t with pkt := replaceUpgrade t.pkt }
      hasUpgrade := false }
  else l

/-- `clearDownstreamPending(begin, end)`, on what lies between. -/
def clearMarks (ts : List Target) : List Target := ts.map fun t => { t with markedPending := false }

/-- No target is pending downstream any more. -/
def clearDownstreamPending : TargetList := { l with list := clearMarks l.list }

end TargetList

/-! ## The register -/

/-- A miss status and handling register. -/
structure MSHR where
  downstreamPending : Bool := false
  pendingModified : Bool := false
  postInvalidate : Bool := false
  postDowngrade : Bool := false
  wasWholeLineWrite : Bool := false
  isForward : Bool := false
  targets : TargetList := {}
  deferredTargets : TargetList := {}
  readyTime : Nat := 0
  isUncacheable : Bool := false
  inService : Bool := false
  order : Nat := 0
  blkAddr : Nat := 0
  blkSize : Nat := 0
  isSecure : Bool := false
  deriving DecidableEq, Repr

namespace MSHR

variable (m : MSHR)

/-- `hasPostInvalidate` and `hasPostDowngrade` assert `inService`. -/
def hasPostInvalidate : Option Bool := if m.inService then some m.postInvalidate else none
/-- A snoop will take the right to write. -/
def hasPostDowngrade : Option Bool := if m.inService then some m.postDowngrade else none

/-- A register for a first target. -/
def allocate (blk_addr blk_size : Nat) (target : Packet) (when_ready _order : Nat)
    (alloc_on_fill : Bool) : MSHR :=
  let source : Source := if target.cmd = .HardPFReq then .FromPrefetcher else .FromCPU
  { m with
    blkAddr := blk_addr
    blkSize := blk_size
    isSecure := target.req.secure
    readyTime := when_ready
    order := _order
    isForward := false
    wasWholeLineWrite := false
    isUncacheable := target.req.isUncacheable
    inService := false
    downstreamPending := false
    targets := (m.targets.init blk_size).add target when_ready _order source true alloc_on_fill
    deferredTargets := m.deferredTargets.init blk_size }

/-- The request is not held back by a cache below any more. -/
def clearDownstreamPending : Option MSHR :=
  if m.downstreamPending then
    some { m with downstreamPending := false, targets := m.targets.clearDownstreamPending }
  else none

/-- The request has been sent. -/
def markInService (pending_modified_resp : Bool) : Option MSHR :=
  if m.inService then none
  else some { m with
      inService := true
      pendingModified := m.targets.needsWritable || pending_modified_resp
      postInvalidate := false
      postDowngrade := false
      targets := if m.downstreamPending then m.targets else m.targets.clearDownstreamPending
      wasWholeLineWrite := m.targets.isWholeLineWrite }

/-- The register is free again. -/
def deallocate : Option MSHR :=
  if m.targets.list.isEmpty && m.deferredTargets.isReset then
    some { m with targets := m.targets.resetFlags, inService := false }
  else none

/-- Whether `allocateTarget` defers the new target. -/
def defers (pkt tgt_pkt : Packet) : Bool :=
  pkt.req.isCacheMaintenance || tgt_pkt.req.isCacheMaintenance || !m.deferredTargets.list.isEmpty ||
    m.inService && (m.postInvalidate ||
      pkt.cmd.needsWritable && (!m.pendingModified || m.postDowngrade || m.isForward))

/-- A further target, deferred where it has to be. -/
def allocateTarget (pkt : Packet) (whenReady _order : Nat) (alloc_on_fill : Bool) : Option MSHR :=
  if pkt.cmd = .HardPFReq then none
  else m.targets.list.head?.map fun front =>
    if m.defers pkt front.pkt then
      let pkt := if m.inService && m.postInvalidate then replaceUpgrade pkt else pkt
      { m with
        deferredTargets := m.deferredTargets.add pkt whenReady _order .FromCPU true alloc_on_fill }
    else
      { m with
        targets := m.targets.add pkt whenReady _order .FromCPU (!m.inService) alloc_on_fill }

/-- The copy that a snooping target keeps, at a new address. -/
def copySnoop (pkt : Packet) (copy : Nat) (will_respond : Bool) : Packet :=
  if will_respond then { pkt with id := copy, expressSnoop := false }
  else { id := copy, cmd := pkt.cmd, req := pkt.req, addr := m.blkAddr, size := m.blkSize }

/-- The end of `handleSnoop`: the copy is added, and the two flags are set. -/
def saveSnoop (pkt : Packet) (copy : Nat) (_order curTick : Nat) (will_respond : Bool) : MSHR :=
  let m := if m.pendingModified || pkt.cmd.isInvalidate then
      { m with
        targets := m.targets.add (m.copySnoop pkt copy will_respond) curTick _order .FromSnoop
          (m.downstreamPending && m.targets.needsWritable) false
        postInvalidate := m.postInvalidate || (pkt.cmd.needsWritable || pkt.cmd.isInvalidate) }
    else m
  if !pkt.cmd.needsWritable && !pkt.req.isUncacheable then { m with postDowngrade := true } else m

/-- `handleSnoop`, without the flags it sets on the snooping packet. -/
def handleSnoop (pkt : Packet) (copy : Nat) (_order curTick : Nat) : Option (MSHR × Bool) :=
  if pkt.cmd.needsWritable != pkt.cmd.isInvalidate && !pkt.req.isCacheMaintenance then none
  else if !m.inService || (pkt.expressSnoop && m.downstreamPending) then
    -- the snoop logically precedes the request
    if pkt.cmd.needsWritable || pkt.req.isCacheInvalidate then
      some ({ m with targets := m.targets.replaceUpgrades
                     deferredTargets := m.deferredTargets.replaceUpgrades }, false)
    else some (m, false)
  else
    let m := if pkt.cmd.needsWritable || pkt.req.isCacheInvalidate then
        { m with deferredTargets := m.deferredTargets.replaceUpgrades }
      else m
    m.targets.list.head?.map fun front =>
      if m.postInvalidate || front.pkt.req.isCacheInvalidate then (m, true)
      else
        let will_respond := m.pendingModified && pkt.cmd.needsResponse && !pkt.cmd.isClean
        (m.saveSnoop pkt copy _order curTick will_respond, will_respond)

/-- The loop of `extractServiceableTargets` over the targets after the first: those left and those
    returned. -/
def extractSnoops : List Target → Option (List Target × List Target)
  | [] => some ([], [])
  | t :: ts => do
    let (left, ready) ← extractSnoops ts
    match t.source with
    | .FromCPU => return (t :: left, ready)
    | .FromSnoop => return (left, t :: ready)
    | .FromPrefetcher => none

/-- The other loop: up to the first locked read, which is returned and also left. -/
def extractUnlocked : List Target → List Target × List Target
  | [] => ([], [])
  | t :: ts =>
    if t.pkt.cmd = .LockedRMWReadReq then (t :: ts, [t])
    else
      let (left, ready) := extractUnlocked ts
      (left, t :: ready)

/-- What an invalidating response services: the first target and the snoops. -/
def extractFirst : List Target → Option (List Target × List Target)
  | [] => none
  | first :: rest =>
    if first.source = .FromSnoop then none
    else if first.pkt.cmd = .LockedRMWReadReq then some (first :: rest, [first])
    else (extractSnoops rest).map fun (left, ready) => (left, first :: ready)

/-- `extractServiceableTargets`; the list returned and the register. -/
def extractServiceableTargets (cmd : MemCmd) : Option (TargetList × MSHR) :=
  (if cmd = .ReadRespWithInvalidate then extractFirst m.targets.list
    else some (extractUnlocked m.targets.list)).map fun (left, ready) =>
    ({ ({} : TargetList).init m.blkSize with list := ready }.populateFlags,
      { m with targets := { m.targets with list := left }.populateFlags })

/-- `promoteDeferredTargets`; `false` when there is nothing to promote. -/
def promoteDeferredTargets (curTick : Nat) : Option (MSHR × Bool) :=
  if m.targets.list.isEmpty && m.deferredTargets.list.isEmpty then some (m, false)
  else
    let isCMO : Target → Bool := fun t => t.pkt.req.isCacheMaintenance
    let before := m.deferredTargets.list.takeWhile fun t => !isCMO t
    let moved := if before.isEmpty then
        -- a cache maintenance packet is promoted on its own
        if m.targets.list.isEmpty then m.deferredTargets.list.take 1 else []
      else before
    let m := { m with
        targets := { m.targets with list := m.targets.list ++ moved }.populateFlags
        deferredTargets := { m.deferredTargets with
            list := m.deferredTargets.list.drop moved.length }.populateFlags }
    m.targets.list.head?.map fun front =>
      ({ m with order := front.order, readyTime := max curTick front.readyTime }, true)

/-- `find_if_not` with a predicate that asserts `source == FromCPU`: what precedes the target found,
    and the rest. -/
def findIfNot (pred : Target → Bool) : List Target → Option (List Target × List Target)
  | [] => some ([], [])
  | t :: ts =>
    if t.source ≠ .FromCPU then none
    else if pred t then (findIfNot pred ts).map fun (pre, post) => (t :: pre, post)
    else some ([], t :: ts)

/-- Promotes the deferred targets up to the first that fails the test. -/
def promoteIf (pred : Target → Bool) : Option MSHR :=
  if m.downstreamPending then none
  else (findIfNot pred m.deferredTargets.list).map fun (pre, post) =>
    { m with
      targets := { m.targets with list := m.targets.list ++ TargetList.clearMarks pre }
      deferredTargets := { m.deferredTargets with list := post }.populateFlags }

/-- Promotes what a shared copy serves. -/
def promoteReadable : Option MSHR :=
  if m.deferredTargets.list.isEmpty then some m
  else m.hasPostInvalidate.bind fun post =>
    if post then some m
    else m.promoteIf fun t => !t.pkt.req.isCacheInvalidate && !t.pkt.cmd.needsWritable

/-- Promotes what a writable copy serves. -/
def promoteWritable : Option MSHR :=
  match m.deferredTargets.list with
  | [] => some m
  | def_tgt :: _ =>
    if !m.deferredTargets.needsWritable then some m
    else do
      let postInvalidate ← m.hasPostInvalidate
      let postDowngrade ← m.hasPostDowngrade
      if postInvalidate || postDowngrade || def_tgt.pkt.req.isCacheInvalidate then some m
      else if m.targets.needsWritable then none
      else
        promoteIf { m with targets := { m.targets with needsWritable := true } } fun t =>
          !t.pkt.req.isCacheInvalidate

/-- The first target is a locked read. -/
def hasLockedRMWReadTarget : Bool := m.targets.list.head?.any (·.pkt.cmd = .LockedRMWReadReq)

end MSHR

/-! ## The cache around it -/

/-- A response: its command, the request that was sent, and whether the block it leaves is valid and
    writable. -/
structure Response where
  cmd : MemCmd
  req : Request
  valid : Bool
  writable : Bool
  deriving DecidableEq, Repr

/-- What the cache does next on the register.  From `PromoteReadable` on it is in `recvTimingResp`,
    which nothing interrupts. -/
inductive Turn
  | Free
  | Allocated
  | PromoteReadable (resp : Response)
  | PromoteWritable (resp : Response)
  | Extract (resp : Response)
  | PromoteDeferredTargets
  | MarkPending
  | Deallocate
  deriving DecidableEq, Repr

/-- A register in its cache.  Only `mshr` and `turn` are the cache's; the other fields record the
    run: every packet added with its source, the lists returned, and of the request in service its
    `Request`, whether a snoop that follows it takes writability away, and which packets were
    deferred when it was sent or since. -/
structure Cache where
  mshr : MSHR := {}
  turn : Turn := .Free
  added : List (Nat × Source) := []
  returned : List (List Target) := []
  sent : Request := {}
  taken : Bool := false
  deferredSeen : List Nat := []
  deriving DecidableEq, Repr

/-- `resp` calls, of the calls of `recvTimingResp`, the next one. -/
inductive Event
  | allocate (blk_addr blk_size : Nat) (pkt : Packet) (when_ready order : Nat)
      (alloc_on_fill : Bool)
  | allocateTarget (pkt : Packet) (whenReady order : Nat) (alloc_on_fill : Bool)
  | handleSnoop (pkt : Packet) (copy order curTick : Nat)
  | setDownstreamPending
  | clearDownstreamPending
  | setForward (isForward : Bool)
  | markInService (pending_modified_resp : Bool)
  | recvTimingResp (cmd : MemCmd) (valid writable : Bool)
  | resp (curTick : Nat)
  deriving DecidableEq, Repr

/-- The snoop takes writability away from the request it follows. -/
def takes (pkt : Packet) : Bool :=
  pkt.cmd.isInvalidate || !pkt.cmd.needsWritable && !pkt.req.isUncacheable

namespace Cache

variable (s : Cache)

/-- The packet is a new one. -/
def fresh (id : Nat) : Bool := !(s.added.map Prod.fst).contains id

/-- No locked read-modify-write. -/
def unlocked (pkt : Packet) : Bool := pkt.cmd != .LockedRMWReadReq

/-- `MSHR::allocate`, in its turn. -/
def allocate (blk_addr blk_size : Nat) (pkt : Packet) (when_ready order : Nat)
    (alloc_on_fill : Bool) : Option Cache :=
  if s.turn = .Free ∧ s.fresh pkt.id ∧ unlocked pkt then
    some { s with
      mshr := s.mshr.allocate blk_addr blk_size pkt when_ready order alloc_on_fill
      turn := .Allocated
      added := s.added ++ [(pkt.id, if pkt.cmd = .HardPFReq then .FromPrefetcher else .FromCPU)] }
  else none

/-- `MSHR::allocateTarget`, in its turn. -/
def allocateTarget (pkt : Packet) (whenReady order : Nat) (alloc_on_fill : Bool) : Option Cache :=
  if s.turn = .Allocated ∧ s.fresh pkt.id ∧ unlocked pkt then
    (s.mshr.allocateTarget pkt whenReady order alloc_on_fill).map fun m =>
      { s with
        mshr := m
        added := s.added ++ [(pkt.id, .FromCPU)]
        deferredSeen := if m.deferredTargets.list.length = s.mshr.deferredTargets.list.length
          then s.deferredSeen else pkt.id :: s.deferredSeen }
  else none

/-- The snoop comes after the request in service. -/
def snoopFollows (pkt : Packet) : Bool :=
  s.mshr.inService && !(pkt.expressSnoop && s.mshr.downstreamPending)

/-- `MSHR::handleSnoop`, in its turn. -/
def handleSnoop (pkt : Packet) (copy order curTick : Nat) : Option Cache :=
  if s.turn = .Allocated ∧ s.fresh copy ∧ unlocked pkt then
    (s.mshr.handleSnoop pkt copy order curTick).map fun (m, _) =>
      { s with
        mshr := m
        added := if m.targets.list.length = s.mshr.targets.list.length then s.added
          else s.added ++ [(copy, .FromSnoop)]
        taken := s.taken || s.snoopFollows pkt && takes pkt }
  else none

/-- `MSHR::markInService`, in its turn. -/
def markInService (pending_modified_resp : Bool) : Option Cache := do
  if s.turn ≠ .Allocated then none
  let front ← s.mshr.targets.list.head?
  let m ← s.mshr.markInService pending_modified_resp
  return { s with
    mshr := m
    sent := front.pkt.req
    taken := false
    deferredSeen := m.deferredTargets.list.map fun t => t.pkt.id }

/-- A response comes for a request that is in service. -/
def recvTimingResp (cmd : MemCmd) (valid writable : Bool) : Option Cache :=
  if s.turn = .Allocated ∧ s.mshr.inService then
    some { s with turn := .PromoteReadable ⟨cmd, s.sent, valid, writable⟩ }
  else none

/-- The call that `recvTimingResp` makes next. -/
def resp (curTick : Nat) : Option Cache :=
  match s.turn with
  | .PromoteReadable r =>
    if !s.mshr.hasLockedRMWReadTarget && (r.valid && r.cmd.isClean && !r.cmd.isInvalidate) then
      s.mshr.promoteReadable.map fun m => { s with mshr := m, turn := .PromoteWritable r }
    else some { s with turn := .PromoteWritable r }
  | .PromoteWritable r =>
    if !s.mshr.hasLockedRMWReadTarget && (r.writable && !r.req.isCacheInvalidate) then
      s.mshr.promoteWritable.map fun m => { s with mshr := m, turn := .Extract r }
    else some { s with turn := .Extract r }
  | .Extract r =>
    (s.mshr.extractServiceableTargets r.cmd).map fun (ready, m) =>
      { s with
        mshr := m
        returned := s.returned ++ [ready.list]
        turn := .PromoteDeferredTargets }
  | .PromoteDeferredTargets =>
    if s.mshr.hasLockedRMWReadTarget then some { s with turn := .Allocated }
    else (s.mshr.promoteDeferredTargets curTick).map fun (m, promoted) =>
      { s with mshr := m, turn := if promoted then .MarkPending else .Deallocate }
  | .MarkPending =>
    if s.mshr.inService then
      some { s with mshr := { s.mshr with inService := false }, turn := .Allocated }
    else none
  | .Deallocate => s.mshr.deallocate.map fun m => { s with mshr := m, turn := .Free }
  | _ => none

/-- What the event does; nothing, where an assertion fails or the cache does not make this call. -/
def step : Event → Option Cache
  | .allocate blk_addr blk_size pkt when_ready order alloc_on_fill =>
    s.allocate blk_addr blk_size pkt when_ready order alloc_on_fill
  | .allocateTarget pkt whenReady order alloc_on_fill =>
    s.allocateTarget pkt whenReady order alloc_on_fill
  | .handleSnoop pkt copy order curTick => s.handleSnoop pkt copy order curTick
  | .setDownstreamPending =>
    if s.turn = .Allocated ∧ !s.mshr.downstreamPending then
      some { s with mshr := { s.mshr with downstreamPending := true } }
    else none
  | .clearDownstreamPending =>
    if s.turn = .Allocated then
      s.mshr.clearDownstreamPending.map fun m => { s with mshr := m }
    else none
  | .setForward isForward =>
    if s.turn = .Allocated ∧ !s.mshr.inService then
      some { s with mshr := { s.mshr with isForward := isForward } }
    else none
  | .markInService pending_modified_resp => s.markInService pending_modified_resp
  | .recvTimingResp cmd valid writable => s.recvTimingResp cmd valid writable
  | .resp curTick => s.resp curTick

end Cache

end Gem5Dvr.Mshr
