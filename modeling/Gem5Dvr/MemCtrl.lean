/-
  The memory controller (`mem/mem_ctrl.cc` 163-373, 400-548, 871-1130), in timing mode.

    1. A request and its bursts, one for each `bytesPerBurst` that it touches.  Addresses wrap at
       2^64, sizes and counts at 2^32.
    2. The functions of the source, in its order.  An event is scheduled or not (the respond event
       keeps its tick); an assertion that fails leaves no result.  What the memory interface and the
       scheduling policy decide is given with the event (`Env`).
    3. `Run`: the calls, with what was accepted, how many bursts lay in what the write queue was to
       write at that time (`subsumed`), and the bursts popped from the response queue.
    4. `Allowed`: an event is due, and read ready times do not decrease (`Due`); the interface is
       never busy and every packet is ready, so a choice is made in a queue that is not empty; no
       write has more than `writeBufferSize - writeLowThreshold` bursts and no read more than
       `readBufferSize` (`Promised`).  `Fits`: the request ends before the last burst of the address
       space, whose end is no address.
-/
import Mathlib.Algebra.Group.Nat.Defs
import Mathlib.Data.Finset.Basic
import Mathlib.Data.Finset.Card
import Gem5Dvr.Lib.Buckets
import Gem5Dvr.Lib.Trace

namespace Gem5Dvr.Memory

open Function

/-- `MaxTick`. -/
def MaxTick : Nat := 2 ^ 64 - 1

/-- The parameters of the controller. -/
structure Config where
  /-- `bytesPerBurst()` is two to this. -/
  burstBits : Nat
  numPriorities : Nat
  readBufferSize : Nat
  writeBufferSize : Nat
  writeHighThreshold : Nat
  writeLowThreshold : Nat
  minWritesPerSwitch : Nat
  minReadsPerSwitch : Nat

/-- A system packet; `id` is its number among the accepted ones. -/
structure Packet where
  id : Nat
  isWrite : Bool
  addr : Nat
  size : Nat
  qosValue : Nat := 0
  deriving DecidableEq

/-- A memory packet; `burstHelper` names the helper of its system packet. -/
structure MemPacket where
  pkt : Packet
  addr : Nat
  size : Nat
  readyTime : Nat := MaxTick
  burstHelper : Option Nat := none
  deriving DecidableEq

/-- How many bursts of a packet are left. -/
structure BurstHelper where
  burstCount : Nat
  burstsServiced : Nat := 0
  deriving DecidableEq

/-- The direction of the bus. -/
inductive BusState
  | READ | WRITE
  deriving DecidableEq, Repr

/-! ## Bursts -/

namespace Config

variable (c : Config)

/-- `bytesPerBurst()`. -/
def burst_size : Nat := 2 ^ c.burstBits

/-- `burstAlign`: `addr & ~(burst_size - 1)`. -/
def burstAlign (addr : Nat) : Nat := addr - (addr &&& (c.burst_size - 1))

/-- `(addr | (burst_size - 1)) + 1`: 0 in the last burst of the address space. -/
def nextBurst (addr : Nat) : Nat := ((addr ||| (c.burst_size - 1)) + 1) % 2 ^ 64

/-- `divCeil(offset + size, burst_size)`, in 32 bits. -/
def pkt_count (addr : Nat) (size : Nat) : Nat :=
  ((addr &&& (c.burst_size - 1)) + size + c.burst_size - 1) % 2 ^ 32 / c.burst_size

/-- The request ends before the last burst of the address space, and its bursts are counted without
    a carry. -/
def Fits (addr size : Nat) : Prop :=
  addr + size + c.burst_size ≤ 2 ^ 64 ∧ addr % c.burst_size + size + c.burst_size ≤ 2 ^ 32

instance (addr size : Nat) : Decidable (c.Fits addr size) := inferInstanceAs (Decidable (_ ∧ _))

end Config

/-- The address and the size of one burst. -/
structure Burst where
  addr : Nat
  size : Nat
  deriving DecidableEq

/-- The bursts that the loops of `addToReadQueue` and `addToWriteQueue` go through. -/
def burstsFrom (c : Config) (limit : Nat) : Nat → Nat → List Burst
  | 0, _ => []
  | cnt + 1, addr =>
    { addr := addr, size := (min (c.nextBurst addr) limit + 2 ^ 64 - addr) % 2 ^ 32 } ::
      burstsFrom c limit cnt (c.nextBurst addr)

/-- The bursts of a request. -/
def bursts (c : Config) (pkt : Packet) : List Burst :=
  burstsFrom c ((pkt.addr + pkt.size) % 2 ^ 64) (c.pkt_count pkt.addr pkt.size) pkt.addr

/-- What `addToReadQueue` asks of a read burst and a packet of the write queue. -/
def covers (b : Burst) (p : MemPacket) : Bool :=
  decide (p.addr ≤ b.addr) &&
    decide ((b.addr + b.size) % 2 ^ 64 ≤ (p.addr + p.size) % 2 ^ 64)

/-! ## The controller -/

/-- The queues, and what is scheduled. -/
structure MemCtrl where
  readQueue : List (List MemPacket)
  writeQueue : List (List MemPacket)
  isInWriteQueue : Finset Nat := ∅
  respQueue : List MemPacket := []
  totalReadQueueSize : Nat := 0
  totalWriteQueueSize : Nat := 0
  busState : BusState := .READ
  busStateNext : BusState := .READ
  readsThisTime : Nat := 0
  writesThisTime : Nat := 0
  retryRdReq : Bool := false
  retryWrReq : Bool := false
  nextReqEvent : Bool := false
  respondEvent : Option Nat := none
  burstHelpers : Nat → Option BurstHelper := fun _ => none
  /-- The packets that were handed to the port, the last one first. -/
  responses : List Nat := []

/-- What decides one call of `processNextReqEvent`; `readyTime` is that of the read it issues. -/
structure Env where
  memBusy : Bool := false
  draining : Bool := false
  nvmWriteBlock : Bool := false
  chooseNext : List MemPacket → Option Nat := fun q => if q = [] then none else some 0
  readyTime : Nat := 0

namespace MemCtrl

variable (c : Config) (s : MemCtrl)

/-- Nothing is queued. -/
def init : MemCtrl where
  readQueue := List.replicate c.numPriorities []
  writeQueue := List.replicate c.numPriorities []

/-- So many more packets do not fit. -/
def readQueueFull (neededEntries : Nat) : Prop :=
  s.totalReadQueueSize + s.respQueue.length + neededEntries > c.readBufferSize

/-- So many more packets do not fit. -/
def writeQueueFull (neededEntries : Nat) : Prop :=
  s.totalWriteQueueSize + neededEntries > c.writeBufferSize

instance (n : Nat) : Decidable (s.readQueueFull c n) := inferInstanceAs (Decidable (_ > _))

instance (n : Nat) : Decidable (s.writeQueueFull c n) := inferInstanceAs (Decidable (_ > _))

/-- The access is done, and answered. -/
def accessAndRespond (pkt : Packet) : MemCtrl := { s with responses := pkt.id :: s.responses }

/-- `pktsServicedByWrQ` for one burst: each queue is left at the first packet that covers it. -/
def foundInWrQ (b : Burst) : Nat :=
  if c.burstAlign b.addr ∈ s.isInWriteQueue then
    s.writeQueue.countP fun q => q.any (covers b)
  else 0

/-- The body of the loop of `addToReadQueue`; the helper is made with the first burst that is not in
    the write queue. -/
def addReadBurst (pkt : Packet) (pkt_count : Nat) (b : Burst) (pktsServicedByWrQ : Nat)
    (burst_helper : Option Nat) : Option (MemCtrl × Nat × Option Nat) :=
  if 0 < s.foundInWrQ c b then
    some (s, pktsServicedByWrQ + s.foundInWrQ c b, burst_helper)
  else
    let make := 1 < pkt_count ∧ burst_helper = none
    let burst_helper := if make then some pkt.id else burst_helper
    if s.readQueueFull c 1 then none
    else
      some ({ s with
        burstHelpers := if make then
            update s.burstHelpers pkt.id (some { burstCount := pkt_count })
          else s.burstHelpers
        readQueue := Buckets.push s.readQueue pkt.qosValue
          { pkt := pkt, addr := b.addr, size := b.size, burstHelper := burst_helper }
        totalReadQueueSize := s.totalReadQueueSize + 1 }, pktsServicedByWrQ, burst_helper)

/-- The loop. -/
def addReadBursts (pkt : Packet) (pkt_count : Nat) :
    List Burst → MemCtrl → Nat → Option Nat → Option (MemCtrl × Nat × Option Nat)
  | [], s, serviced, helper => some (s, serviced, helper)
  | b :: bs, s, serviced, helper =>
    (s.addReadBurst c pkt pkt_count b serviced helper).bind fun x =>
      addReadBursts pkt pkt_count bs x.1 x.2.1 x.2.2

/-- The bursts of a read: found among the writes, or queued. -/
def addToReadQueue (pkt : Packet) (pkt_count : Nat) : Option (MemCtrl × Bool) :=
  if pkt_count = 0 then none
  else (addReadBursts c pkt pkt_count (bursts c pkt) s 0 none).map fun x =>
    if x.2.1 = pkt_count then (x.1.accessAndRespond pkt, true)
    else
      match x.2.2 with
      | some id => ({ x.1 with
          burstHelpers := update x.1.burstHelpers id
            ((x.1.burstHelpers id).map fun h => { h with burstsServiced := x.2.1 }) }, false)
      | none => (x.1, false)

/-- The body of the loop of `addToWriteQueue`. -/
def addWriteBurst (pkt : Packet) (b : Burst) : Option MemCtrl :=
  if c.burstAlign b.addr ∈ s.isInWriteQueue then some s
  else if s.totalWriteQueueSize < c.writeBufferSize then
    let s := { s with
      writeQueue := Buckets.push s.writeQueue pkt.qosValue
        { pkt := pkt, addr := b.addr, size := b.size }
      isInWriteQueue := insert (c.burstAlign b.addr) s.isInWriteQueue
      totalWriteQueueSize := s.totalWriteQueueSize + 1 }
    if s.totalWriteQueueSize = s.isInWriteQueue.card then some s else none
  else none

/-- The loop. -/
def addWriteBursts (pkt : Packet) : List Burst → MemCtrl → Option MemCtrl
  | [], s => some s
  | b :: bs, s => (s.addWriteBurst c pkt b).bind (addWriteBursts pkt bs)

/-- The bursts of a write: merged, or queued. -/
def addToWriteQueue (pkt : Packet) : Option MemCtrl :=
  (addWriteBursts c pkt (bursts c pkt) s).map fun s => s.accessAndRespond pkt

/-- `recvTimingReq`: whether the packet is accepted. -/
def recvTimingReq (pkt : Packet) : Option (MemCtrl × Bool) :=
  let pkt_count := c.pkt_count pkt.addr pkt.size
  if pkt.isWrite = true then
    if s.writeQueueFull c pkt_count then some ({ s with retryWrReq := true }, false)
    else (s.addToWriteQueue c pkt).map fun s => ({ s with nextReqEvent := true }, true)
  else if s.readQueueFull c pkt_count then some ({ s with retryRdReq := true }, false)
  else (s.addToReadQueue c pkt pkt_count).map fun x =>
    if x.2 = true then (x.1, true) else ({ x.1 with nextReqEvent := true }, true)

/-- The response to a memory packet: that of a split packet waits for its other bursts. -/
def respondTo (mem_pkt : MemPacket) : Option MemCtrl :=
  match mem_pkt.burstHelper with
  | none => some (s.accessAndRespond mem_pkt.pkt)
  | some id =>
    match s.burstHelpers id with
    | none => none
    | some h =>
      if h.burstsServiced + 1 = h.burstCount then
        some { s.accessAndRespond mem_pkt.pkt with
          burstHelpers := update s.burstHelpers id none }
      else
        some { s with
          burstHelpers := update s.burstHelpers id
            (some { h with burstsServiced := h.burstsServiced + 1 }) }

/-- The first answer that is due. -/
def processRespondEvent : Option MemCtrl :=
  match s.respondEvent, s.respQueue with
  | some curTick, mem_pkt :: rest =>
    (s.respondTo mem_pkt).bind fun s =>
      let s := { s with respQueue := rest, respondEvent := none, retryRdReq := false }
      match rest with
      | [] => some s
      | front :: _ =>
        if curTick ≤ front.readyTime then some { s with respondEvent := some front.readyTime }
        else none
  | _, _ => none

/-- The end of `processNextReqEvent`: the next call, and a retry for a write. -/
def again : MemCtrl := { s with
    nextReqEvent := true
    retryWrReq := s.retryWrReq && decide (c.writeBufferSize ≤ s.totalWriteQueueSize) }

/-- A read leaves its queue for the response queue. -/
def issueRead (env : Env) (prio index : Nat) (mem_pkt : MemPacket) : Option MemCtrl :=
  let mem_pkt := { mem_pkt with readyTime := env.readyTime }
  let s := { s with
    readsThisTime := s.readsThisTime + 1
    totalReadQueueSize := s.totalReadQueueSize - 1 }
  if mem_pkt.size ≤ c.burst_size ∧ (if s.respQueue = [] then s.respondEvent = none
      else s.respondEvent ≠ none ∧ ∀ p ∈ s.respQueue.getLast?, p.readyTime ≤ mem_pkt.readyTime) then
    some { s with
      respondEvent := if s.respQueue = [] then some mem_pkt.readyTime else s.respondEvent
      respQueue := s.respQueue ++ [mem_pkt]
      readQueue := Buckets.remove s.readQueue prio index
      busStateNext := if s.totalWriteQueueSize > c.writeHighThreshold ∧
          (s.readsThisTime ≥ c.minReadsPerSwitch ∨ s.totalReadQueueSize = 0) ∧
            env.nvmWriteBlock = false
        then .WRITE else s.busStateNext }
  else none

/-- `processNextReqEvent` in the read state. -/
def nextRead (env : Env) : Option MemCtrl :=
  if s.totalReadQueueSize = 0 then
    if s.totalWriteQueueSize ≠ 0 ∧
        (env.draining = true ∨ s.totalWriteQueueSize > c.writeLowThreshold) then
      some ({ s with busStateNext := .WRITE }.again c)
    else some s
  else
    match Buckets.search env.chooseNext s.readQueue 0 with
    | none => some s
    | some (prio, index, mem_pkt) =>
      (s.issueRead c env prio index mem_pkt).map fun s => s.again c

/-- `processNextReqEvent` in the write state. -/
def nextWrite (env : Env) : Option MemCtrl :=
  match Buckets.search env.chooseNext s.writeQueue 0 with
  | none => some s
  | some (prio, index, mem_pkt) =>
    if mem_pkt.size ≤ c.burst_size then
      let s := { s with
        writesThisTime := s.writesThisTime + 1
        isInWriteQueue := s.isInWriteQueue.erase (c.burstAlign mem_pkt.addr)
        totalWriteQueueSize := s.totalWriteQueueSize - 1
        writeQueue := Buckets.remove s.writeQueue prio index }
      let below_threshold := s.totalWriteQueueSize + c.minWritesPerSwitch < c.writeLowThreshold
      let s := { s with
        busStateNext := if s.totalWriteQueueSize = 0 ∨ (below_threshold ∧ env.draining = false) ∨
            (s.totalReadQueueSize ≠ 0 ∧ s.writesThisTime ≥ c.minWritesPerSwitch) ∨
            (s.totalReadQueueSize ≠ 0 ∧ env.nvmWriteBlock = true)
          then .READ else s.busStateNext }
      some (s.again c)
    else none

/-- The bus takes up its next state; the counts of a direction start anew when it turns. -/
def turn : MemCtrl := { s with
    readsThisTime :=
      if s.busState ≠ s.busStateNext ∧ s.busState = .READ then 0 else s.readsThisTime
    writesThisTime :=
      if s.busState ≠ s.busStateNext ∧ s.busState = .WRITE then 0 else s.writesThisTime
    busState := s.busStateNext }

/-- The next burst, and the turn of the bus. -/
def processNextReqEvent (env : Env) : Option MemCtrl :=
  let s := { s with nextReqEvent := false }.turn
  if env.memBusy = true then some s
  else if s.busState = .READ then s.nextRead c env
  else s.nextWrite c env

end MemCtrl

/-! ## Runs -/

/-- Where the part of a request in the burst of an address ends. -/
def Packet.partEnd (c : Config) (pkt : Packet) (addr : Nat) : Nat :=
  min ((addr / c.burst_size + 1) * c.burst_size) (pkt.addr + pkt.size)

/-- The part of a read from `addr` on lies in what a packet of the write queue writes. -/
def subsumed (c : Config) (pkt : Packet) (addr : Nat) (p : MemPacket) : Bool :=
  decide (p.addr ≤ addr) && decide (pkt.partEnd c addr ≤ p.pkt.partEnd c p.addr)

/-- The controller, and what has become of the requests; `covered` counts the bursts of a request
    that the write queue covered when it was accepted. -/
structure Run where
  ctrl : MemCtrl
  accepted : List Packet := []
  covered : Nat → Nat := fun _ => 0
  popped : List Nat := []

/-- The calls. -/
inductive Event
  | recvTimingReq (isWrite : Bool) (addr : Nat) (size qosValue : Nat)
  | processNextReqEvent (env : Env)
  | processRespondEvent

namespace Run

variable (c : Config) (r : Run)

/-- Before the first call. -/
def init : Run where
  ctrl := MemCtrl.init c

/-- The bursts of a packet that a packet of the write queue covers. -/
def countCovered (pkt : Packet) : Nat :=
  (bursts c pkt).countP fun b => r.ctrl.writeQueue.flatten.any (subsumed c pkt b.addr)

/-- A call. -/
def step : Event → Option Run
  | .recvTimingReq isWrite addr size qosValue =>
    let pkt : Packet := { id := r.accepted.length, isWrite := isWrite, addr := addr, size := size,
                          qosValue := qosValue }
    (r.ctrl.recvTimingReq c pkt).map fun x =>
      if x.2 = true then
        { r with
          ctrl := x.1
          accepted := pkt :: r.accepted
          covered := update r.covered pkt.id (r.countCovered c pkt) }
      else { r with ctrl := x.1 }
  | .processNextReqEvent env => (r.ctrl.processNextReqEvent c env).map fun s => { r with ctrl := s }
  | .processRespondEvent =>
    r.ctrl.processRespondEvent.map fun s =>
      { r with
        ctrl := s
        popped := (r.ctrl.respQueue.head?.toList.map fun p => p.pkt.id) ++ r.popped }

/-- An event that is due; ready times do not decrease. -/
def Due : Event → Prop
  | .recvTimingReq .. => True
  | .processNextReqEvent env =>
    r.ctrl.nextReqEvent = true ∧ ∀ p ∈ r.ctrl.respQueue, p.readyTime ≤ env.readyTime
  | .processRespondEvent => r.ctrl.respondEvent ≠ none

instance : ∀ e : Event, Decidable (r.Due e)
  | .recvTimingReq .. => isTrue trivial
  | .processNextReqEvent _ => inferInstanceAs (Decidable (_ ∧ _))
  | .processRespondEvent => inferInstanceAs (Decidable (_ ≠ _))

/-- What the requestors and the interface promise. -/
def Promised (c : Config) : Event → Prop
  | .recvTimingReq isWrite addr size qosValue =>
    size ≠ 0 ∧ qosValue < c.numPriorities ∧
      (isWrite = true → c.pkt_count addr size ≤ c.writeBufferSize - c.writeLowThreshold) ∧
      (isWrite = false → c.pkt_count addr size ≤ c.readBufferSize)
  | .processNextReqEvent env =>
    env.memBusy = false ∧ ∀ q : List MemPacket, q ≠ [] → ∃ i < q.length, env.chooseNext q = some i
  | .processRespondEvent => True

/-- The event is due, and keeps what its callers promise. -/
def Allowed (e : Event) : Prop := r.Due e ∧ Promised c e

/-- A request fits the address space. -/
def Fits (c : Config) : Event → Prop
  | .recvTimingReq _ addr size _ => c.Fits addr size
  | _ => True

end Run

end Gem5Dvr.Memory
