/-
  Sibling caches above one crossbar, in atomic mode (`mem/cache/cache.cc` 479-675, 890-925,
  1032-1250, `mem/cache/base.cc` 762-850, 1088-1125, 1215-1303, 1560-1840, `mem/coherent_xbar.cc`
  736-998, 1063-1100, `mem/abstract_mem.cc` 384-475).

    1. Packets: a command with its attributes, and the flags that ownership travels by.
    2. A line: what each cache holds of it, and what the memory holds.  Snoops and the crossbar work
       on one line at a time.
    3. A request of a CPU: hit, miss, fill, the evictions and the writebacks.

  The crossbar is the point of coherency and has no snoop filter; above the caches there are CPUs,
  which hold no lines.  An assertion or a panic that fails leaves no result.  Which lines make room
  for a fill, and what bytes their frame held, are choices of the request.
-/
import Mathlib.Data.List.FinRange
import Mathlib.Logic.Function.Basic

namespace Gem5Dvr.Coherence

open Function

/-! ## Packets -/

/-- A byte. -/
abbrev Byte := BitVec 8

/-- The bytes of a line. -/
abbrev LineData (b : Nat) := Fin b → Byte

/-- The address of a line. -/
abbrev Line := Nat

/-- The commands of `MemCmd` that such a system uses. -/
inductive MemCmd
  | ReadReq | ReadResp | WriteReq | WriteResp | WriteLineReq | WritebackDirty | WritebackClean
  | CleanEvict | UpgradeReq | UpgradeResp | ReadExReq | ReadExResp | ReadCleanReq | ReadSharedReq
  | InvalidateReq | InvalidateResp
  deriving DecidableEq

namespace MemCmd

/-- Brings data. -/
def isRead : MemCmd → Bool
  | ReadReq | ReadResp | ReadExReq | ReadExResp | ReadCleanReq | ReadSharedReq => true
  | _ => false

/-- Carries data down. -/
def isWrite : MemCmd → Bool
  | WriteReq | WriteResp | WriteLineReq | WritebackDirty | WritebackClean => true
  | _ => false

/-- An answer. -/
def isResponse : MemCmd → Bool
  | ReadResp | WriteResp | UpgradeResp | ReadExResp | InvalidateResp => true
  | _ => false

/-- Not an answer. -/
def isRequest (cmd : MemCmd) : Bool := !cmd.isResponse

/-- Asks for a writable copy. -/
def needsWritable : MemCmd → Bool
  | WriteReq | WriteLineReq | UpgradeReq | ReadExReq | InvalidateReq => true
  | _ => false

/-- Takes the other copies away. -/
def isInvalidate : MemCmd → Bool
  | UpgradeReq | ReadExReq | InvalidateReq | InvalidateResp => true
  | _ => false

/-- Is answered. -/
def needsResponse : MemCmd → Bool
  | ReadReq | WriteReq | WriteLineReq | UpgradeReq | ReadExReq | ReadCleanReq | ReadSharedReq
  | InvalidateReq => true
  | _ => false

/-- A block leaves its cache. -/
def isEviction : MemCmd → Bool
  | WritebackDirty | WritebackClean | CleanEvict => true
  | _ => false

/-- A clean block leaves its cache. -/
def isCleanEviction : MemCmd → Bool
  | WritebackClean | CleanEvict => true
  | _ => false

/-- The packet carries the line. -/
def hasData : MemCmd → Bool
  | ReadResp | WriteReq | WriteLineReq | WritebackDirty | WritebackClean | ReadExResp => true
  | _ => false

/-- The command of the answer. -/
def responseCommand : MemCmd → MemCmd
  | ReadReq | ReadCleanReq | ReadSharedReq => ReadResp
  | WriteReq | WriteLineReq => WriteResp
  | UpgradeReq => UpgradeResp
  | ReadExReq => ReadExResp
  | InvalidateReq => InvalidateResp
  | cmd => cmd

end MemCmd

/-- A packet between a cache and the crossbar, of the size of a line. -/
structure Packet (b : Nat) where
  cmd : MemCmd
  hasSharers : Bool := false
  cacheResponding : Bool := false
  responderHadWritable : Bool := false
  blockCached : Bool := false
  data : LineData b

namespace Packet

variable {b : Nat} (pkt : Packet b)

/-- A cache will answer; only one may. -/
def setCacheResponding : Option (Packet b) :=
  if pkt.cmd.isRequest && !pkt.cacheResponding then some { pkt with cacheResponding := true }
  else none

/-- The cache that answers could write. -/
def setResponderHadWritable : Option (Packet b) :=
  if pkt.cacheResponding && !pkt.responderHadWritable then
    some { pkt with responderHadWritable := true }
  else none

/-- The packet becomes its answer. -/
def makeResponse : Option (Packet b) :=
  if pkt.cmd.needsResponse && pkt.cmd.isRequest then
    some { pkt with cmd := pkt.cmd.responseCommand }
  else none

end Packet

/-! ## One line -/

/-- A valid block. -/
structure Block (b : Nat) where
  readable : Bool := false
  writable : Bool := false
  dirty : Bool := false
  data : LineData b

/-- A line in the caches and in the memory. -/
structure LineState (n b : Nat) where
  blocks : Fin n → Option (Block b)
  mem : LineData b

section line

variable {n b : Nat}

/-- `handleSnoop`, the part past the snoop of the caches above, of which there are none. -/
def handleSnoop (pkt : Packet b) (blk : Option (Block b)) : Option (Packet b × Option (Block b)) :=
  if pkt.cmd.isResponse then none
  else
    match blk with
    | none => some (pkt, none)
    | some blk =>
      let invalidate := pkt.cmd.isInvalidate
      let respond := blk.dirty && pkt.cmd.needsResponse
      if pkt.cmd.isEviction then some ({ pkt with blockCached := true }, some blk)
      else
        let reads := pkt.cmd.isRead && !invalidate
        if reads && pkt.cmd.needsWritable then none
        else
          let pkt := if reads then { pkt with hasSharers := true } else pkt
          let blk := if reads then { blk with writable := false } else blk
          let kept := if invalidate then none else some blk
          if respond then
            ((pkt.setCacheResponding.bind fun pkt =>
              if blk.writable then pkt.setResponderHadWritable else some pkt).bind fun pkt =>
                if !invalidate && !pkt.hasSharers then none
                else pkt.makeResponse.map fun pkt =>
                  if pkt.cmd.hasData then { pkt with data := blk.data } else pkt).map
              fun pkt => (pkt, kept)
          else some (pkt, kept)

/-- What `forwardAtomic` goes through: the blocks, the packet and `snoop_response_cmd`. -/
structure Snooping (n b : Nat) where
  blocks : Fin n → Option (Block b)
  pkt : Packet b
  snoop_response_cmd : Option MemCmd := none

/-- One snooper. -/
def Snooping.visit (s : Snooping n b) (k : Fin n) : Option (Snooping n b) :=
  let orig_cmd := s.pkt.cmd
  (handleSnoop s.pkt (s.blocks k)).bind fun (pkt, blk) =>
    let blocks := update s.blocks k blk
    if !pkt.cmd.isResponse then some { s with blocks := blocks, pkt := pkt }
    else if pkt.cmd = orig_cmd ∨ pkt.cacheResponding = false ∨ s.snoop_response_cmd ≠ none then none
    else
      some
        { blocks := blocks
          pkt := { pkt with cmd := orig_cmd }
          snoop_response_cmd := some pkt.cmd }

/-- The loop of `forwardAtomic`. -/
def Snooping.visitAll : List (Fin n) → Snooping n b → Option (Snooping n b)
  | [], s => some s
  | k :: ks, s => (s.visit k).bind (visitAll ks)

/-- The snoopers, all but the source. -/
def snoopers (src : Fin n) : List (Fin n) := (List.finRange n).filter (· ≠ src)

/-- The crossbar keeps the packet from the memory. -/
def sinkPacket (pkt : Packet b) : Bool := pkt.cacheResponding ||
    (!(pkt.cmd.isRead || pkt.cmd.isWrite) && !pkt.cmd.needsResponse) ||
    (pkt.cmd.isCleanEviction && pkt.blockCached) ||
    (pkt.cacheResponding && (!pkt.cmd.needsWritable || pkt.responderHadWritable))

/-- The memory is asked. -/
def forwardPacket (pkt : Packet b) : Bool := pkt.cmd.isRead || pkt.cmd.isWrite

/-- `SimpleMemory::recvAtomic` and `AbstractMemory::access`. -/
def memAccess (mem : LineData b) (pkt : Packet b) : Option (LineData b × Packet b) :=
  if pkt.cacheResponding then none
  else if pkt.cmd.isCleanEviction then some (mem, pkt)
  else
    let respond (pkt : Packet b) : Option (Packet b) :=
      if pkt.cmd.needsResponse then pkt.makeResponse else some pkt
    if pkt.cmd.isRead then
      if pkt.cmd.isWrite then none
      else (respond { pkt with data := mem }).map fun pkt => (mem, pkt)
    else if pkt.cmd.isInvalidate then
      if pkt.cmd.isWrite then none else (respond pkt).map fun pkt => (mem, pkt)
    else if pkt.cmd.isWrite then (respond pkt).map fun pkt' => (pkt.data, pkt')
    else none

/-- `recvAtomicBackdoor`: the snoops, the destination, and the response of a snooper restored. -/
def recvAtomicBackdoor (st : LineState n b) (src : Fin n) (pkt : Packet b) :
    Option (LineState n b × Packet b) :=
  (Snooping.visitAll (snoopers src) { blocks := st.blocks, pkt := pkt }).bind fun s =>
    (if sinkPacket s.pkt then some (st.mem, s.pkt)
    else if forwardPacket s.pkt then memAccess st.mem s.pkt
    else s.pkt.makeResponse.map fun pkt => (st.mem, pkt)).bind fun (mem, pkt) =>
      match s.snoop_response_cmd with
      | none => some (⟨s.blocks, mem⟩, pkt)
      | some cmd =>
        if pkt.cmd.isResponse then none else some (⟨s.blocks, mem⟩, { pkt with cmd := cmd })

end line

/-! ## Requests -/

/-- A packet of a CPU; `byteEnable` and `data` are by the place in the line. -/
structure CpuPacket (b : Nat) where
  cmd : MemCmd
  offset : Nat
  size : Nat
  byteEnable : Fin b → Bool
  data : LineData b

namespace CpuPacket

variable {b : Nat} (pkt : CpuPacket b)

/-- The byte is one of the packet's. -/
def covers (p : Fin b) : Bool :=
  decide (pkt.offset ≤ p.val) && decide (p.val < pkt.offset + pkt.size)

/-- A write with a byte that is not enabled. -/
def isMaskedWrite : Bool :=
  pkt.cmd == .WriteReq && (List.finRange b).any fun p => pkt.covers p && !pkt.byteEnable p

/-- The enables are NOT asked. -/
def isWholeLineWrite : Bool :=
  (pkt.cmd == .WriteReq || pkt.cmd == .WriteLineReq) && pkt.offset == 0 && pkt.size == b

/-- A write of a whole line, all bytes enabled. -/
def promoteWholeLineWrites : CpuPacket b :=
  if pkt.cmd == .WriteReq && pkt.size == b && pkt.offset == 0 && !pkt.isMaskedWrite then
    { pkt with cmd := .WriteLineReq }
  else pkt

/-- `writeData`: the bytes of the packet that are enabled. -/
def writeData (old : LineData b) : LineData b := fun p =>
  if pkt.covers p && (!pkt.isMaskedWrite || pkt.byteEnable p) then pkt.data p else old p

end CpuPacket

/-- A request of the CPU of one cache, with what the replacement chooses for it: the lines that make
    room, and the bytes in the frame that the line is put into. -/
structure Request (n b : Nat) where
  cache : Fin n
  line : Line
  write : Bool
  offset : Nat
  size : Nat
  byteEnable : Fin b → Bool := fun _ => true
  data : LineData b
  victims : List Line := []
  frame : LineData b
  fits : offset + size ≤ b

/-- The packet of a request. -/
def Request.packet {n b : Nat} (r : Request n b) : CpuPacket b where
  cmd := if r.write then .WriteReq else .ReadReq
  offset := r.offset
  size := r.size
  byteEnable := r.byteEnable
  data := r.data

/-- The parameters of the caches. -/
structure Config (n : Nat) where
  writebackClean : Fin n → Bool
  mostly_excl : Fin n → Bool

/-- Every line. -/
abbrev System (n b : Nat) := Line → LineState n b

section request

variable {n b : Nat}

/-- The block of a line in cache `i`. -/
def LineState.setBlock (st : LineState n b) (i : Fin n) (blk : Option (Block b)) : LineState n b :=
  { st with blocks := update st.blocks i blk }

@[simp] theorem setBlock_self (st : LineState n b) (i : Fin n) (blk : Option (Block b)) :
    (st.setBlock i blk).blocks i = blk := by
  show update st.blocks i blk i = blk
  rw [update_self]

theorem setBlock_ne (st : LineState n b) {i k : Fin n} (blk : Option (Block b)) (h : k ≠ i) :
    (st.setBlock i blk).blocks k = st.blocks k := by
  show update st.blocks i blk k = st.blocks k
  rw [update_of_ne h]

/-- `satisfyRequest` for a CPU: the block after it, and the bytes of the response to a read. -/
def satisfyRequest (pkt : CpuPacket b) (blk : Block b) : Option (Block b × Option (LineData b)) :=
  if b < pkt.offset + pkt.size then none
  else if pkt.cmd.isWrite then
    if blk.writable then some ({ blk with data := pkt.writeData blk.data, dirty := true }, none)
    else none
  else if pkt.cmd.isRead then some (blk, some blk.data)
  else none

/-- `createMissPacket`; `none` is an assertion that fails. -/
def createMissPacket (mostly_excl : Bool) (cpu_pkt : CpuPacket b) (blk : Option (Block b)) :
    Option (Packet b) :=
  let needsWritable := cpu_pkt.cmd.needsWritable
  let is_whole_line_write := cpu_pkt.isWholeLineWrite
  let writable := blk.any fun blk => blk.writable
  if cpu_pkt.cmd.isEviction || !cpu_pkt.cmd.needsResponse ||
      (cpu_pkt.cmd == .WriteLineReq && !is_whole_line_write) then none
  else if is_whole_line_write then
    if writable then none else some { cmd := .InvalidateReq, data := fun _ => 0 }
  else if blk.isSome then
    if !needsWritable || writable then none else some { cmd := .UpgradeReq, data := fun _ => 0 }
  else if needsWritable then some { cmd := .ReadExReq, data := fun _ => 0 }
  else if mostly_excl then some { cmd := .ReadCleanReq, data := fun _ => 0 }
  else some { cmd := .ReadSharedReq, data := fun _ => 0 }

/-- `handleFill`: the block past the fill; an absent one takes the frame as it is. -/
def handleFill (frame : LineData b) (pkt : Packet b) (blk : Option (Block b)) : Option (Block b) :=
  if !pkt.cmd.isResponse || (blk.isNone && !(pkt.cmd.hasData || pkt.cmd == .InvalidateResp)) ||
      (pkt.cmd == .InvalidateResp && pkt.hasSharers) || (pkt.cmd.isRead && !pkt.cmd.hasData) then
    none
  else
    let blk := { blk.getD { data := frame } with readable := true }
    let blk := if pkt.hasSharers then blk
      else { blk with writable := true, dirty := blk.dirty || pkt.cacheResponding }
    some (if pkt.cmd.isRead then { blk with data := pkt.data } else blk)

/-- The packet of a block that goes back. -/
def writebackBlk (blk : Block b) : Packet b where
  cmd := if blk.dirty then .WritebackDirty else .WritebackClean
  hasSharers := !blk.writable
  data := blk.data

/-- The packet that says a clean block has gone. -/
def cleanEvictBlk : Packet b := { cmd := .CleanEvict, data := fun _ => 0 }

/-- A victim leaves, with its packet. -/
def evictBlock (writebackClean : Bool) (blk : Block b) : Packet b :=
  if blk.dirty || writebackClean then writebackBlk blk else cleanEvictBlk

/-- `handleEvictions`: the victims that are valid leave the cache; their packets wait. -/
def handleEvictions (cfg : Config n) (i : Fin n) :
    List Line → System n b → System n b × List (Line × Packet b)
  | [], s => (s, [])
  | line :: victims, s =>
    match (s line).blocks i with
    | none => handleEvictions cfg i victims s
    | some blk =>
      let r := handleEvictions cfg i victims (update s line ((s line).setBlock i none))
      (r.1, (line, evictBlock (cfg.writebackClean i) blk) :: r.2)

/-- `doWritebacksAtomic`: nothing is cached above. -/
def doWritebacksAtomic (i : Fin n) : List (Line × Packet b) → System n b → Option (System n b)
  | [], s => some s
  | (line, wbPkt) :: writebacks, s =>
    (recvAtomicBackdoor (s line) i wbPkt).bind fun (st, _) =>
      doWritebacksAtomic i writebacks (update s line st)

/-- The response to `bus_pkt` is filled in and the request satisfied. -/
def fillAndSatisfy (cfg : Config n) (s : System n b) (r : Request n b) (pkt : CpuPacket b)
    (bus_pkt : Packet b) : Option (System n b × List (Line × Packet b) × Option (LineData b)) :=
  let blk := (s r.line).blocks r.cache
  let evicted := if blk.isNone then handleEvictions cfg r.cache r.victims s else (s, [])
  (handleFill r.frame bus_pkt blk).bind fun blk =>
    (satisfyRequest pkt blk).map fun (blk, response) =>
      (update evicted.1 r.line ((evicted.1 r.line).setBlock r.cache (some blk)), evicted.2,
        response)

/-- `handleAtomicReqMiss`: the system, the writebacks and the response. -/
def handleAtomicReqMiss (cfg : Config n) (s : System n b) (r : Request n b) (pkt : CpuPacket b) :
    Option (System n b × List (Line × Packet b) × Option (LineData b)) :=
  (createMissPacket (cfg.mostly_excl r.cache) pkt ((s r.line).blocks r.cache)).bind fun bus_pkt =>
    (recvAtomicBackdoor (s r.line) r.cache bus_pkt).bind fun (st, bus_pkt) =>
      let s := update s r.line st
      if !bus_pkt.cmd.isResponse then none
      else if pkt.isWholeLineWrite then fillAndSatisfy cfg s r pkt bus_pkt
      else
        (if bus_pkt.cmd.isRead || bus_pkt.cmd == .UpgradeResp then
          fillAndSatisfy cfg s r pkt bus_pkt
        else some (s, [], none)).map fun (s, writebacks, response) =>
          if bus_pkt.cmd.isInvalidate then
            (update s r.line ((s r.line).setBlock r.cache none), writebacks, response)
          else (s, writebacks, response)

/-- `Cache::recvAtomic` for a CPU, with `access`. -/
def recvAtomic (cfg : Config n) (s : System n b) (r : Request n b) :
    Option (System n b × Option (LineData b)) :=
  let pkt := r.packet.promoteWholeLineWrites
  match (s r.line).blocks r.cache with
  | some blk =>
    if (if pkt.cmd.needsWritable then blk.writable else blk.readable) then
      (satisfyRequest pkt blk).map fun (blk, response) =>
        (update s r.line ((s r.line).setBlock r.cache (some blk)), response)
    else
      (handleAtomicReqMiss cfg s r pkt).bind fun (s, writebacks, response) =>
        (doWritebacksAtomic r.cache writebacks s).map fun s => (s, response)
  | none =>
    (handleAtomicReqMiss cfg s r pkt).bind fun (s, writebacks, response) =>
      (doWritebacksAtomic r.cache writebacks s).map fun s => (s, response)

end request

end Gem5Dvr.Coherence
