/-
  The helper's prefetch queue and its packets in flight (`cpu/o3/cpu.cc` 3278-3339, 3619-3735,
  4848-4900, 5106-5627, 5777-5860).

  A request is generated by a launch, by a replay lane or by the completion of another request; it
  waits in `dvrPrefetchQueue` until `serviceDVRPrefetchRequest` takes it.  That routine has ten
  exits:

    empty, not ready, no issue slot, no capacity, no LQ entry     — the request stays in front
    source of a faulted stream, line crossing                     — dropped
    page fault                                                    — faulted
    port busy, send rejected                                      — pushed back to the front
    sent                                                          — a packet in flight

  and every exit has to undo its own part of the bookkeeping.  A packet comes back exactly once, in
  any order, and its completion may generate the dependent requests of a source value.

  Four histories that the source does not keep say what became of a request: `generated`,
  `completed`, `dropped` and `faulted`; so does `serial`, which tells two equal requests apart.

    * `Conserved`           — the counters, the maps, the capacities and the whereabouts;
    * `lifecycle_conserved` — they hold after every run;
    * `fault_leaves_queue`  — a page fault takes the request out of the queue, though nothing is
                              sent and nothing dropped.

  What the rest of the simulator decides is an input: ticks, widths, the translation, the port,
  which lanes the replay helper takes and what a template computes.
-/
import Mathlib.Data.Finset.Basic
import Mathlib.Data.List.AList
import Mathlib.Data.List.Nodup
import Gem5Dvr.Lib.Tally
import Gem5Dvr.Lib.Trace
import Gem5Dvr.ReplayLanes

namespace Gem5Dvr.PrefetchQueue

open List

open ReplayLanes (Template)

def DvrMaxQueuedPrefetches : Nat := 256

def DvrHelperLoadQueueCapacity : Nat := 16

/-- `DVRLanePredicateTracker::MaxLanes`. -/
def MaxLanes : Nat := 128

/-- The outer invocations of one nested batch. -/
def MaxInvocations : Nat := 16

/-- One slot of `scales`, `offsets`, `masks` and `patterns`. -/
structure Affine where
  scale : RegVal
  offset : RegVal
  mask : RegVal
  pattern : RegVal
  deriving DecidableEq

/-- `DVRPrefetchAddress`.  `replay` names the template and the helper registers of a launch,
    `predicate` its predicate generation; `relations` has `relationCount` slots. -/
structure Prefetch where
  serial : Nat
  address : Addr
  pc : Addr := 0
  tid : Nat := 0
  readyTick : Nat := 0
  source : Bool := false
  nested : Bool := false
  oracle : Bool := false
  relations : List Affine := []
  replay : Option Nat := none
  predicate : Option Nat := none
  lane : Nat := 0
  deriving DecidableEq

/-- A packet with its `DVRPrefetchSenderState`. -/
structure Packet where
  helperLoadId : Nat
  request : Prefetch
  deriving DecidableEq

/-- The states in which a `DVRHelperLoadEntry` is kept; the others are set just before it is
    erased. -/
inductive DVRHelperLoadState
  | Allocated | WaitingResponse | Writeback
  deriving DecidableEq, Repr

/-- What a run does not change. -/
structure Config where
  cacheLineSize : Nat
  dvrMaxLanes : Nat
  dvrEnableDependentPrefetch : Bool
  template : Nat → Template

namespace Config

variable (c : Config)

def dvrPrefetchLine (address : Addr) : Addr :=
  address &&& ~~~ (BitVec.ofNat 64 c.cacheLineSize - 1)

/-- `address & (cacheLineSize() - 1)`. -/
def lineOffset (address : Addr) : Nat := (address &&& (BitVec.ofNat 64 c.cacheLineSize - 1)).toNat

/-- The uop whose width a request has. -/
def load_uop (prefetch : Prefetch) (p : Template) : Option Uop :=
  if prefetch.source then some (p.uop 0)
  else p.uops.find? fun uop => uop.pc == prefetch.pc && uop.load

def dvrPrefetchBytes (prefetch : Prefetch) : Nat :=
  match prefetch.replay with
  | none => 1
  | some g =>
    if (c.template g).count = 0 then 1
    else match load_uop prefetch (c.template g) with
      | none => 1
      | some uop => if uop.loadBytes = 0 then 1 else min uop.loadBytes 8

end Config

/-- The range filter of every dependent address. -/
def InRange (address : Addr) : Prop := 4096#64 ≤ address ∧ address < 0x800000000000#64

instance (address : Addr) : Decidable (InRange address) := inferInstanceAs (Decidable (_ ∧ _))

/-- The queue, the helper load entries and the line maps.  The last five fields are not in the
    source: the packets out, and what became of every request. -/
structure System where
  dvrPrefetchQueue : List Prefetch := []
  dvrQueuedPrefetchAddresses : Finset Addr := ∅
  dvrOutstandingPrefetchAddresses : Finset Addr := ∅
  dvrQueuedDependentLines : Finset Addr := ∅
  dvrDependentCompletedLines : Finset Addr := ∅
  dvrHelperLoadQueueOccupancy : Nat := 0
  dvrHelperLoadEntries : AList (fun _ : Nat => DVRHelperLoadState) := ∅
  dvrNextHelperLoadId : Nat := 1
  dvrOutstandingPrefetchLines : Addr → Option Nat := fun _ => none
  dvrDependentOutstandingLines : Addr → Option Nat := fun _ => none
  sourceTranslationFaulted : Nat → Bool := fun _ => false
  dvrPrefetchesIssued : Nat := 0
  dvrPrefetchesCompleted : Nat := 0
  inFlight : List Packet := []
  generated : List Prefetch := []
  completed : List Prefetch := []
  dropped : List Prefetch := []
  faulted : List Prefetch := []

namespace System

variable (c : Config) (s : System)

/-- `push_back` of a source or oracle request. -/
def pushBack (p : Prefetch) : System :=
  { s with dvrPrefetchQueue := s.dvrPrefetchQueue ++ [p]
           dvrQueuedPrefetchAddresses := insert p.address s.dvrQueuedPrefetchAddresses
           generated := p :: s.generated }

/-- `push_front` of a dependent request. -/
def pushFront (p : Prefetch) : System :=
  { s with dvrPrefetchQueue := p :: s.dvrPrefetchQueue
           dvrQueuedPrefetchAddresses := insert p.address s.dvrQueuedPrefetchAddresses
           dvrQueuedDependentLines := insert (c.dvrPrefetchLine p.address) s.dvrQueuedDependentLines
           generated := p :: s.generated }

/-- A request is generated and finds the queue full. -/
def refuse (p : Prefetch) : System :=
  { s with generated := p :: s.generated, dropped := p :: s.dropped }

/-- The line has been asked for already. -/
def Covered (line : Addr) : Prop :=
  line ∈ s.dvrQueuedDependentLines ∨ s.dvrDependentOutstandingLines line ≠ none ∨
    line ∈ s.dvrDependentCompletedLines

instance (line : Addr) : Decidable (s.Covered line) := inferInstanceAs (Decidable (_ ∨ _ ∨ _))

/-- The byte address has been asked for already. -/
def Known (address : Addr) : Prop :=
  address ∈ s.dvrQueuedPrefetchAddresses ∨ address ∈ s.dvrOutstandingPrefetchAddresses

instance (address : Addr) : Decidable (s.Known address) := inferInstanceAs (Decidable (_ ∨ _))

end System

/-! ## Launches -/

/-- What the lanes of one launch share. -/
structure Launch where
  tid : Nat := 0
  pc : Addr
  relations : List Affine := []
  replay : Option Nat := none
  predicate : Option Nat := none

/-- One lane of a stride or nested launch; `lane` is its number. -/
def launchLane (l : Launch) (nested : Bool) (s : System) (lane : Addr × Nat) : System :=
  if s.Known lane.1 then s
  else s.pushBack
    { serial := s.generated.length, address := lane.1, pc := l.pc, tid := l.tid, source := true,
      nested := nested, relations := l.relations, replay := l.replay, predicate := l.predicate,
      lane := lane.2 }

/-- The addresses `base + stride * lane` of the lanes `1 .. lanes`. -/
def laneAddresses (base stride : Addr) (lanes : Nat) : List Addr :=
  (range lanes).map fun lane => base + stride * BitVec.ofNat 64 (lane + 1)

/-- `launchDVRStridePrefetches`; `vectorized` is the helper registers' `vectorize`. -/
def launchDVRStridePrefetches (l : Launch) (current_address stride : Addr) (lanes : Nat)
    (vectorized : Bool) (s : System) : System :=
  let lanes := min lanes MaxLanes
  let available := DvrMaxQueuedPrefetches - min s.dvrPrefetchQueue.length DvrMaxQueuedPrefetches
  if lanes = 0 ∨ available = 0 ∨ ¬ vectorized then s
  else (laneAddresses current_address stride (min lanes available)).zipIdx.foldl
    (launchLane l false) s

/-- One lane of classic vector runahead: the queue has just been cleared, nothing is compared. -/
def vectorLane (tid : Nat) (pc : Addr) (s : System) (lane : Addr × Nat) : System := s.pushBack
    { serial := s.generated.length, address := lane.1, pc := pc, tid := tid, source := true,
      lane := lane.2 }

def launchDVRVectorRunahead (c : Config) (tid : Nat) (current_address pc stride : Addr)
    (s : System) : System :=
  (laneAddresses current_address stride (min c.dvrMaxLanes MaxLanes)).zipIdx.foldl
    (vectorLane tid pc)
    { s with dvrPrefetchQueue := [], dvrQueuedPrefetchAddresses := ∅, dvrQueuedDependentLines := ∅ }

/-- Both callers of `launchDVRVectorRunahead` ask for an empty queue and no entry first. -/
def vectorRunahead (c : Config) (tid : Nat) (current_address pc stride : Addr)
    (s : System) : System :=
  if s.dvrPrefetchQueue = [] ∧ s.dvrHelperLoadEntries.entries = [] then
    launchDVRVectorRunahead c tid current_address pc stride s
  else s

/-- One outer invocation of a nested batch. -/
structure Invocation where
  base : Addr
  stride : Addr
  lanes : Nat

/-- The lanes of a batch: `flattened += min(min(lanes, MaxLanes), MaxLanes - flattened)`. -/
def flattened : List Invocation → Nat → Nat
  | [], n => n
  | i :: is, n => flattened is (n + min (min i.lanes MaxLanes) (MaxLanes - n))

/-- The source addresses of a batch, in order, up to `MaxLanes`. -/
def flatAddresses (invocations : List Invocation) : List Addr :=
  (invocations.flatMap fun i => laneAddresses i.base i.stride i.lanes).take MaxLanes

/-- `flattenDVRNestedLanes`: the whole batch is admitted or none of it. -/
def launchNested (l : Launch) (invocations : List Invocation) (vectorized : Bool) (s : System) :
    System :=
  let batch := invocations.take MaxInvocations
  let available := DvrMaxQueuedPrefetches - min s.dvrPrefetchQueue.length DvrMaxQueuedPrefetches
  if flattened batch 0 = 0 ∨ available < flattened batch 0 ∨ ¬ vectorized then s
  else (flatAddresses batch).zipIdx.foldl (launchLane l true) s

/-- The loop of `oracleOnCommittedLoad` over the coming addresses of the trace. -/
def oracle (tid : Nat) : List Addr → System → System
  | [], s => s
  | future :: rest, s =>
    if future = 0 ∨ s.Known future then oracle tid rest s
    else if DvrMaxQueuedPrefetches ≤ s.dvrPrefetchQueue.length then s
    else oracle tid rest
      (s.pushBack { serial := s.generated.length, address := future, tid := tid, oracle := true })

/-! ## Replay lanes -/

/-- A tainted load that a replay lane has reached: the request it asks for, without a number. -/
structure Target where
  address : Addr
  pc : Addr
  tid : Nat := 0
  readyTick : Nat := 0
  nested : Bool := false
  relations : List Affine := []
  replay : Nat
  predicate : Option Nat := none
  lane : Nat

/-- The request of a target. -/
def Target.prefetch (t : Target) (serial : Nat) : Prefetch :=
  { serial := serial, address := t.address, pc := t.pc, tid := t.tid, readyTick := t.readyTick,
    nested := t.nested, relations := t.relations, replay := some t.replay,
    predicate := t.predicate, lane := t.lane }

/-- The insertion in `issueDVRReplayLanes`.  A lane that needs the value is not deduplicated. -/
def replayInsert (c : Config) (t : Target) (s : System) : System :=
  let value_response := (c.template t.replay).continuePastFLR
  if c.dvrEnableDependentPrefetch ∧ InRange t.address ∧
      (value_response ∨ ¬ s.Covered (c.dvrPrefetchLine t.address)) ∧
      s.dvrPrefetchQueue.length < DvrMaxQueuedPrefetches then
    s.pushFront c (t.prefetch s.generated.length)
  else s

/-! ## Service -/

/-- What decides one call of `serviceDVRPrefetchRequest`: `canIssue` is the helper thread's,
    `budget` the issue, ALU and LSU widths, `freeEntry` the main thread's load queue. -/
structure Env where
  now : Nat := 0
  canIssue : Bool := true
  budget : Bool := true
  freeEntry : Nat → Bool := fun _ => true
  fault : Bool := false
  tryTiming : Bool := true
  sendTimingReq : Bool := true

namespace System

variable (c : Config) (s : System)

def finish_helper_entry (helper_load_id : Nat) : System :=
  { s with dvrHelperLoadEntries := s.dvrHelperLoadEntries.erase helper_load_id }

/-- The front request is taken out. -/
def popFront (prefetch : Prefetch) : System :=
  { s with dvrPrefetchQueue := s.dvrPrefetchQueue.tail
           dvrQueuedPrefetchAddresses := s.dvrQueuedPrefetchAddresses.erase prefetch.address
           dvrQueuedDependentLines :=
             if prefetch.source then s.dvrQueuedDependentLines
             else s.dvrQueuedDependentLines.erase (c.dvrPrefetchLine prefetch.address) }

/-- The entry of a request that is about to be tried. -/
def allocateEntry : System :=
  { s with dvrNextHelperLoadId := s.dvrNextHelperLoadId + 1
           dvrHelperLoadEntries := s.dvrHelperLoadEntries.insert s.dvrNextHelperLoadId .Allocated }

/-- A retry puts the request back where it was. -/
def requeue (prefetch : Prefetch) : System :=
  { s with dvrPrefetchQueue := prefetch :: s.dvrPrefetchQueue
           dvrQueuedPrefetchAddresses := insert prefetch.address s.dvrQueuedPrefetchAddresses
           dvrQueuedDependentLines :=
             if !prefetch.source && !prefetch.oracle then
               insert (c.dvrPrefetchLine prefetch.address) s.dvrQueuedDependentLines
             else s.dvrQueuedDependentLines }

def drop (prefetch : Prefetch) : System := { s with dropped := prefetch :: s.dropped }

/-- A page fault; the rest of a contiguous source stream is masked with it. -/
def pageFault (prefetch : Prefetch) : System :=
  { s with
    sourceTranslationFaulted := fun predicate =>
      (prefetch.source && prefetch.predicate == some predicate) ||
        s.sourceTranslationFaulted predicate
    faulted := prefetch :: s.faulted }

/-- The packet is out. -/
def sent (helper_load_id : Nat) (prefetch : Prefetch) : System :=
  let line := c.dvrPrefetchLine prefetch.address
  { s with
    dvrHelperLoadEntries := s.dvrHelperLoadEntries.insert helper_load_id .WaitingResponse
    dvrPrefetchesIssued := s.dvrPrefetchesIssued + 1
    dvrHelperLoadQueueOccupancy := s.dvrHelperLoadQueueOccupancy + 1
    dvrOutstandingPrefetchLines := Tally.incr s.dvrOutstandingPrefetchLines line
    dvrOutstandingPrefetchAddresses := insert prefetch.address s.dvrOutstandingPrefetchAddresses
    dvrDependentOutstandingLines :=
      if !prefetch.source && !prefetch.oracle then
        Tally.incr s.dvrDependentOutstandingLines line
      else s.dvrDependentOutstandingLines
    inFlight := { helperLoadId := helper_load_id, request := prefetch } :: s.inFlight }

/-- The prefetch is a source of a stream that has already left its mapped pages. -/
def masked (prefetch : Prefetch) : Bool :=
  prefetch.source && prefetch.predicate.any s.sourceTranslationFaulted

/-- From the line-crossing test to the end: the front request has been taken out. -/
def attempt (env : Env) (prefetch : Prefetch) : System :=
  let helper_load_id := s.dvrNextHelperLoadId
  let s := s.allocateEntry
  if c.cacheLineSize < c.lineOffset prefetch.address + c.dvrPrefetchBytes prefetch then
    (s.finish_helper_entry helper_load_id).drop prefetch
  else if env.fault then (s.finish_helper_entry helper_load_id).pageFault prefetch
  else if !env.tryTiming then (s.finish_helper_entry helper_load_id).requeue c prefetch
  else if !env.sendTimingReq then (s.finish_helper_entry helper_load_id).requeue c prefetch
  else s.sent c helper_load_id prefetch

end System

def serviceDVRPrefetchRequest (c : Config) (env : Env) (s : System) : System :=
  match s.dvrPrefetchQueue with
  | [] => s
  | prefetch :: _ =>
    if env.now < prefetch.readyTick then s
    else if !env.canIssue then s
    else if !env.budget then s
    else if DvrHelperLoadQueueCapacity ≤ s.dvrHelperLoadQueueOccupancy then s
    else if !env.freeEntry prefetch.tid then s
    else
      let popped := s.popFront c prefetch
      if popped.masked prefetch then popped.drop prefetch else popped.attempt c env prefetch

/-! ## Completion -/

/-- What comes with a response: the bytes as a register value, whether the replay helper takes the
    lane, and otherwise the load (PC and address) that `replayDVRSource` reaches. -/
structure Answer where
  hasData : Bool := true
  raw : RegVal := 0
  helperReplays : Bool := false
  target : Option (Addr × Addr) := none

namespace System

variable (c : Config) (s : System)

/-- The counters and the maps, before any new request. -/
def account (pkt : Packet) : System :=
  let line := c.dvrPrefetchLine pkt.request.address
  let dependent := !pkt.request.source && !pkt.request.oracle
  { s with
    dvrHelperLoadEntries :=
      if pkt.helperLoadId ∈ s.dvrHelperLoadEntries then
        s.dvrHelperLoadEntries.insert pkt.helperLoadId .Writeback
      else s.dvrHelperLoadEntries
    dvrHelperLoadQueueOccupancy := s.dvrHelperLoadQueueOccupancy - 1
    dvrPrefetchesCompleted := s.dvrPrefetchesCompleted + 1
    dvrOutstandingPrefetchAddresses := s.dvrOutstandingPrefetchAddresses.erase pkt.request.address
    dvrOutstandingPrefetchLines := Tally.decr s.dvrOutstandingPrefetchLines line
    dvrDependentOutstandingLines :=
      if dependent then Tally.decr s.dvrDependentOutstandingLines line
      else s.dvrDependentOutstandingLines
    dvrDependentCompletedLines :=
      if dependent && s.dvrDependentOutstandingLines line == some 1 then
        insert line s.dvrDependentCompletedLines
      else s.dvrDependentCompletedLines
    inFlight := s.inFlight.erase pkt
    completed := pkt.request :: s.completed }

/-- A dependent request: deduplicated, refused or put in front. -/
def dependent (p : Prefetch) : System :=
  if s.Covered (c.dvrPrefetchLine p.address) then s
  else if DvrMaxQueuedPrefetches ≤ s.dvrPrefetchQueue.length then s.refuse p
  else s.pushFront c p

/-- `replayDVRSource`, from the load it reaches on. -/
def replayDVRSource (source : Prefetch) (target : Option (Addr × Addr)) : System :=
  match target with
  | none => s
  | some (pc, address) =>
    if InRange address then
      s.dependent c
        { serial := s.generated.length, address := address, pc := pc, tid := source.tid,
          nested := source.nested, replay := source.replay, predicate := source.predicate,
          lane := source.lane }
    else s

end System

/-- The affine fallback; `many` is `relationCount > 1`.  The first relation whose target is queued
    or known ends the search. -/
def affine (c : Config) (source : Prefetch) (value : RegVal) (many : Bool) :
    List Affine → System → System
  | [], s => s
  | r :: rest, s =>
    let address := r.scale * value + r.offset
    if many ∧ value &&& r.mask ≠ r.pattern then affine c source value many rest s
    else if ¬ InRange address then affine c source value many rest s
    else if s.Covered (c.dvrPrefetchLine address) then s
    else
      let p : Prefetch :=
        { serial := s.generated.length, address := address, pc := source.pc, tid := source.tid,
          nested := source.nested }
      if DvrMaxQueuedPrefetches ≤ s.dvrPrefetchQueue.length then
        affine c source value many rest (s.refuse p)
      else s.pushFront c p

/-- The requests that follow from a source value. -/
def followUp (c : Config) (source : Prefetch) (a : Answer) (s : System) : System :=
  if a.helperReplays ∧ source.replay.isSome then s
  else if !c.dvrEnableDependentPrefetch then s
  else match source.replay with
    | some _ => s.replayDVRSource c source a.target
    | none => affine c source a.raw (1 < source.relations.length) source.relations s

def completeDVRPrefetch (c : Config) (pkt : Packet) (a : Answer) (s : System) : System :=
  let s := s.account c pkt
  let s := if pkt.request.source && a.hasData then followUp c pkt.request a s else s
  s.finish_helper_entry pkt.helperLoadId

/-! ## Runs -/

/-- A call into the queue.  A response names its packet by the helper load id. -/
inductive Event
  | stride (l : Launch) (current_address stride : Addr) (lanes : Nat) (vectorized : Bool)
  | vector (tid : Nat) (current_address pc stride : Addr)
  | nested (l : Launch) (invocations : List Invocation) (vectorized : Bool)
  | oracle (tid : Nat) (futures : List Addr)
  | replay (t : Target)
  | demand (address : Addr)
  | service (env : Env)
  | complete (helperLoadId : Nat) (a : Answer)

/-- One call.  Only a packet in flight is answered. -/
def step (c : Config) (s : System) : Event → System
  | .stride l a d n v => launchDVRStridePrefetches l a d n v s
  | .vector tid a pc d => vectorRunahead c tid a pc d s
  | .nested l is v => launchNested l is v s
  | .oracle tid fs => oracle tid fs s
  | .replay t => replayInsert c t s
  | .demand a =>
    { s with dvrDependentCompletedLines :=
               s.dvrDependentCompletedLines.erase (c.dvrPrefetchLine a) }
  | .service env => serviceDVRPrefetchRequest c env s
  | .complete id a =>
    match s.inFlight.find? fun pkt => pkt.helperLoadId == id with
    | some pkt => completeDVRPrefetch c pkt a s
    | none => s

/-! ## The ledger of requests -/

namespace System

variable (s : System)

/-- How often a request is found in the queue, in flight, completed, dropped or faulted. -/
def found (p : Prefetch) : Nat :=
  s.dvrPrefetchQueue.count p + (s.inFlight.map Packet.request).count p + s.completed.count p +
    s.dropped.count p + s.faulted.count p

end System

/-- The requests `hand` have been taken out and are not yet anywhere else; there is still a place in
    the queue for each of them. -/
structure Ledger (hand : List Prefetch) (s : System) : Prop where
  room : s.dvrPrefetchQueue.length + hand.length ≤ DvrMaxQueuedPrefetches
  found : ∀ p, hand.count p + s.found p = s.generated.count p
  serials : s.generated.map Prefetch.serial = (range s.generated.length).reverse

namespace Ledger

variable {c : Config} {s : System} {hand : List Prefetch} {p : Prefetch}

theorem init : Ledger [] {} := ⟨by decide, fun _ => rfl, rfl⟩

theorem serials_cons (h : Ledger hand s) (hp : p.serial = s.generated.length) :
    (p :: s.generated).map Prefetch.serial = (range (p :: s.generated).length).reverse := by
  simp [h.serials, hp, range_succ]

theorem pushBack (h : Ledger [] s) (hp : p.serial = s.generated.length)
    (hroom : s.dvrPrefetchQueue.length < DvrMaxQueuedPrefetches) : Ledger [] (s.pushBack p) := by
  refine ⟨?_, fun q => ?_, h.serials_cons hp⟩
  · simp only [System.pushBack, length_append, length_cons, length_nil]
    omega
  · have hq := h.found q
    simp only [System.found, System.pushBack, count_append, count_cons, count_nil] at hq ⊢
    omega

theorem pushFront (h : Ledger [] s) (hp : p.serial = s.generated.length)
    (hroom : s.dvrPrefetchQueue.length < DvrMaxQueuedPrefetches) : Ledger [] (s.pushFront c p) := by
  refine ⟨?_, fun q => ?_, h.serials_cons hp⟩
  · simp only [System.pushFront, length_cons, length_nil]
    omega
  · have hq := h.found q
    simp only [System.found, System.pushFront, count_cons, count_nil] at hq ⊢
    omega

theorem refuse (h : Ledger [] s) (hp : p.serial = s.generated.length) : Ledger [] (s.refuse p) := by
  refine ⟨h.room, fun q => ?_, h.serials_cons hp⟩
  have hq := h.found q
  simp only [System.found, System.refuse, count_cons] at hq ⊢
  omega

theorem popFront {rest : List Prefetch} (h : Ledger [] s) (hs : s.dvrPrefetchQueue = p :: rest) :
    Ledger [p] (s.popFront c p) := by
  refine ⟨?_, fun q => ?_, h.serials⟩
  · have hroom := h.room
    simp only [System.popFront, hs, tail_cons, length_cons, length_nil] at hroom ⊢
    omega
  · have hq := h.found q
    simp only [System.found, System.popFront, hs, tail_cons, count_cons, count_nil] at hq ⊢
    omega

theorem drop (h : Ledger [p] s) : Ledger [] (s.drop p) := by
  refine ⟨Nat.le_of_succ_le h.room, fun q => ?_, h.serials⟩
  have hq := h.found q
  simp only [System.found, System.drop, count_cons, count_nil] at hq ⊢
  omega

theorem pageFault (h : Ledger [p] s) : Ledger [] (s.pageFault p) := by
  refine ⟨Nat.le_of_succ_le h.room, fun q => ?_, h.serials⟩
  have hq := h.found q
  simp only [System.found, System.pageFault, count_cons, count_nil] at hq ⊢
  omega

theorem requeue (h : Ledger [p] s) : Ledger [] (s.requeue c p) := by
  refine ⟨h.room, fun q => ?_, h.serials⟩
  have hq := h.found q
  simp only [System.found, System.requeue, count_cons, count_nil] at hq ⊢
  omega

theorem sent (h : Ledger [p] s) (id : Nat) : Ledger [] (s.sent c id p) := by
  refine ⟨Nat.le_of_succ_le h.room, fun q => ?_, h.serials⟩
  have hq := h.found q
  simp only [System.found, System.sent, map_cons, count_cons, count_nil] at hq ⊢
  omega

theorem account {pkt : Packet} (h : Ledger [] s) (hpkt : pkt ∈ s.inFlight) :
    Ledger [] (s.account c pkt) := by
  refine ⟨h.room, fun q => ?_, h.serials⟩
  have hq := h.found q
  have hout := ((perm_cons_erase hpkt).map Packet.request).count_eq q
  simp only [System.found, System.account, map_cons, count_cons] at hq hout ⊢
  omega

/-- Bookkeeping that leaves the requests alone. -/
theorem allocateEntry (h : Ledger hand s) : Ledger hand s.allocateEntry :=
  ⟨h.room, h.found, h.serials⟩

theorem finish (h : Ledger hand s) (id : Nat) : Ledger hand (s.finish_helper_entry id) :=
  ⟨h.room, h.found, h.serials⟩

end Ledger

/-! ## The books of the packets -/

/-- The fields that speak about packets. -/
structure Bookkeeping where
  inFlight : List Packet
  dvrHelperLoadQueueOccupancy : Nat
  dvrHelperLoadEntries : AList (fun _ : Nat => DVRHelperLoadState)
  dvrNextHelperLoadId : Nat
  dvrPrefetchesIssued : Nat
  dvrPrefetchesCompleted : Nat
  dvrOutstandingPrefetchLines : Addr → Option Nat
  dvrDependentOutstandingLines : Addr → Option Nat

def System.books (s : System) : Bookkeeping where
  inFlight := s.inFlight
  dvrHelperLoadQueueOccupancy := s.dvrHelperLoadQueueOccupancy
  dvrHelperLoadEntries := s.dvrHelperLoadEntries
  dvrNextHelperLoadId := s.dvrNextHelperLoadId
  dvrPrefetchesIssued := s.dvrPrefetchesIssued
  dvrPrefetchesCompleted := s.dvrPrefetchesCompleted
  dvrOutstandingPrefetchLines := s.dvrOutstandingPrefetchLines
  dvrDependentOutstandingLines := s.dvrDependentOutstandingLines

/-- The line of a packet. -/
def Packet.line (c : Config) (pkt : Packet) : Addr := c.dvrPrefetchLine pkt.request.address

/-- A dependent request that is not the oracle's. -/
def Packet.dependent (pkt : Packet) : Bool := !pkt.request.source && !pkt.request.oracle

/-- The books agree with the packets in flight; the entries `held` belong to the request that a call
    is working on. -/
structure Books (c : Config) (held : List Nat) (b : Bookkeeping) : Prop where
  occupancy : b.dvrHelperLoadQueueOccupancy = b.inFlight.length
  issued : b.dvrPrefetchesIssued = b.dvrPrefetchesCompleted + b.inFlight.length
  capacity : b.inFlight.length ≤ DvrHelperLoadQueueCapacity
  keys : b.dvrHelperLoadEntries.keys.Perm (held ++ b.inFlight.map Packet.helperLoadId)
  fresh : ∀ id ∈ b.dvrHelperLoadEntries.keys, id < b.dvrNextHelperLoadId
  lines : b.dvrOutstandingPrefetchLines = Tally.of (b.inFlight.map (Packet.line c))
  dependentLines : b.dvrDependentOutstandingLines =
    Tally.of ((b.inFlight.filter Packet.dependent).map (Packet.line c))

namespace Books

variable {c : Config} {s : System} {id : Nat}

theorem init : Books c [] ({} : System).books where
  occupancy := rfl
  issued := rfl
  capacity := Nat.zero_le _
  keys := .nil
  fresh := fun _ h => absurd h not_mem_nil
  lines := Tally.of_nil.symm
  dependentLines := Tally.of_nil.symm

/-- The new entry has a key of its own. -/
theorem allocateEntry (h : Books c [] s.books) :
    Books c [s.dvrNextHelperLoadId] s.allocateEntry.books := by
  have hnew : s.dvrNextHelperLoadId ∉ s.dvrHelperLoadEntries.keys :=
    fun hmem => Nat.lt_irrefl _ (h.fresh _ hmem)
  have hkeys : s.allocateEntry.books.dvrHelperLoadEntries.keys =
      s.dvrNextHelperLoadId :: s.dvrHelperLoadEntries.keys := by
    show (s.dvrHelperLoadEntries.insert _ _).keys = _
    rw [AList.keys_insert, erase_of_not_mem hnew]
  refine ⟨h.occupancy, h.issued, h.capacity, ?_, ?_, h.lines, h.dependentLines⟩
  · rw [hkeys]
    exact h.keys.cons _
  · intro id hid
    rw [hkeys] at hid
    rcases mem_cons.mp hid with rfl | hold
    · exact Nat.lt_succ_self _
    · exact Nat.lt_succ_of_lt (h.fresh id hold)

theorem finish (h : Books c [id] s.books) : Books c [] (s.finish_helper_entry id).books := by
  refine ⟨h.occupancy, h.issued, h.capacity, ?_, ?_, h.lines, h.dependentLines⟩
  · show (s.dvrHelperLoadEntries.erase id).keys.Perm _
    rw [AList.keys_erase]
    have herase := h.keys.erase id
    rwa [singleton_append, erase_cons_head] at herase
  · intro id' hid
    change id' ∈ (s.dvrHelperLoadEntries.erase id).keys at hid
    rw [AList.keys_erase] at hid
    exact h.fresh id' (mem_of_mem_erase hid)

/-- Writing a new state into an entry that is there permutes the keys. -/
theorem keys_overwrite {m : AList fun _ : Nat => DVRHelperLoadState} (hid : id ∈ m.keys)
    (state : DVRHelperLoadState) : (m.insert id state).keys.Perm m.keys := by
  rw [AList.keys_insert]
  exact (perm_cons_erase hid).symm

theorem sent (h : Books c [id] s.books)
    (hroom : s.dvrHelperLoadQueueOccupancy < DvrHelperLoadQueueCapacity) (p : Prefetch) :
    Books c [] (s.sent c id p).books := by
  have hid : id ∈ s.dvrHelperLoadEntries.keys := h.keys.mem_iff.mpr mem_cons_self
  have hkeys := keys_overwrite hid .WaitingResponse
  have hlen := h.occupancy
  have hissued := h.issued
  have hlines := h.lines
  have hdependent := h.dependentLines
  simp only [System.books] at hlen hissued hlines hdependent
  constructor
  · simp only [System.books, System.sent, length_cons]
    omega
  · simp only [System.books, System.sent, length_cons]
    omega
  · simp only [System.books, System.sent, length_cons]
    omega
  · exact hkeys.trans h.keys
  · intro id' hid'
    exact h.fresh id' (hkeys.mem_iff.mp hid')
  · simp only [System.books, System.sent, hlines, Tally.incr_of, map_cons, Packet.line]
  · simp only [System.books, System.sent, hdependent]
    by_cases hd : (!p.source && !p.oracle) = true
    · have hnew : Packet.dependent { helperLoadId := id, request := p } = true := hd
      rw [filter_cons_of_pos hnew, if_pos hd]
      exact Tally.incr_of _ _
    · have hnew : ¬ Packet.dependent { helperLoadId := id, request := p } = true := hd
      rw [filter_cons_of_neg hnew, if_neg hd]

/-- A response: its packet leaves, its entry is held until the end of the call. -/
theorem account {pkt : Packet} (h : Books c [] s.books) (hpkt : pkt ∈ s.inFlight) :
    Books c [pkt.helperLoadId] (s.account c pkt).books := by
  have hout : s.inFlight.Perm (pkt :: s.inFlight.erase pkt) := perm_cons_erase hpkt
  have hlength := hout.length_eq
  have hid : pkt.helperLoadId ∈ s.dvrHelperLoadEntries.keys :=
    h.keys.mem_iff.mpr (mem_map_of_mem hpkt)
  have hkeys := keys_overwrite hid .Writeback
  have hmem : pkt.helperLoadId ∈ s.dvrHelperLoadEntries := hid
  have hlen := h.occupancy
  have hissued := h.issued
  have hcapacity := h.capacity
  have hlines := h.lines
  have hdependent := h.dependentLines
  simp only [System.books, length_cons] at hlen hissued hcapacity hlines hdependent hlength
  constructor
  · simp only [System.books, System.account]
    omega
  · simp only [System.books, System.account]
    omega
  · simp only [System.books, System.account]
    omega
  · simp only [System.books, System.account, if_pos hmem]
    exact hkeys.trans (h.keys.trans (hout.map Packet.helperLoadId))
  · intro id' hid'
    simp only [System.books, System.account, if_pos hmem] at hid'
    exact h.fresh id' (hkeys.mem_iff.mp hid')
  · simp only [System.books, System.account, hlines]
    exact Tally.decr_of (hout.map (Packet.line c))
  · have hfilter := hout.filter Packet.dependent
    simp only [System.books, System.account, hdependent]
    by_cases hd : (!pkt.request.source && !pkt.request.oracle) = true
    · have hout : pkt.dependent = true := hd
      rw [filter_cons_of_pos hout] at hfilter
      rw [if_pos hd]
      exact Tally.decr_of (hfilter.map (Packet.line c))
    · have hout : ¬ pkt.dependent = true := hd
      rw [filter_cons_of_neg hout] at hfilter
      rw [if_neg hd]
      exact Tally.of_perm (hfilter.map (Packet.line c))

end Books

/-! ## Every call keeps both -/

/-- The ledger and the books, between two requests of a call. -/
structure Sound (c : Config) (held : List Nat) (s : System) : Prop where
  ledger : Ledger [] s
  books : Books c held s.books

namespace Sound

variable {c : Config} {s : System} {held : List Nat} {p : Prefetch}

theorem pushBack (h : Sound c held s) (hp : p.serial = s.generated.length)
    (hroom : s.dvrPrefetchQueue.length < DvrMaxQueuedPrefetches) : Sound c held (s.pushBack p) :=
  ⟨h.ledger.pushBack hp hroom, h.books⟩

theorem pushFront (h : Sound c held s) (hp : p.serial = s.generated.length)
    (hroom : s.dvrPrefetchQueue.length < DvrMaxQueuedPrefetches) :
    Sound c held (s.pushFront c p) :=
  ⟨h.ledger.pushFront hp hroom, h.books⟩

theorem refuse (h : Sound c held s) (hp : p.serial = s.generated.length) :
    Sound c held (s.refuse p) :=
  ⟨h.ledger.refuse hp, h.books⟩

/-- A loop that pushes at most one request for each lane. -/
theorem lanes {f : System → Addr × Nat → System}
    (hf : ∀ s a, f s a = s ∨ ∃ p : Prefetch, p.serial = s.generated.length ∧ f s a = s.pushBack p)
    (as : List (Addr × Nat)) (h : Sound c held s)
    (hroom : s.dvrPrefetchQueue.length + as.length ≤ DvrMaxQueuedPrefetches) :
    Sound c held (as.foldl f s) := by
  induction as generalizing s with
  | nil => exact h
  | cons a as ih =>
    rw [length_cons] at hroom
    rw [foldl_cons]
    rcases hf s a with hsame | ⟨p, hp, hpush⟩
    · rw [hsame]
      exact ih h (by omega)
    · rw [hpush]
      refine ih (h.pushBack hp (by omega)) ?_
      simp only [System.pushBack, length_append, length_cons, length_nil]
      omega

end Sound

theorem launchLane_cases (l : Launch) (nested : Bool) (s : System) (a : Addr × Nat) :
    launchLane l nested s a = s ∨
      ∃ p : Prefetch, p.serial = s.generated.length ∧ launchLane l nested s a = s.pushBack p := by
  unfold launchLane
  split
  · exact .inl rfl
  · exact .inr ⟨_, rfl, rfl⟩

@[simp] theorem length_laneAddresses (base stride : Addr) (n : Nat) :
    (laneAddresses base stride n).length = n := by
  simp [laneAddresses]

theorem flattened_eq (is : List Invocation) (n : Nat) (hn : n ≤ MaxLanes) :
    flattened is n = min MaxLanes (n + (is.map Invocation.lanes).sum) := by
  induction is generalizing n with
  | nil =>
    simp only [flattened, map_nil, sum_nil]
    omega
  | cons i is ih =>
    rw [flattened, ih _ (by omega), map_cons, sum_cons]
    omega

/-- The admission test counts the lanes that the loop makes. -/
theorem length_flatAddresses (is : List Invocation) :
    (flatAddresses is).length = flattened is 0 := by
  rw [flattened_eq is 0 (Nat.zero_le _), flatAddresses, length_take, length_flatMap]
  simp

namespace Sound

variable {c : Config} {s : System}

theorem stride (h : Sound c [] s) (l : Launch) (a d : Addr) (n : Nat) (v : Bool) :
    Sound c [] (launchDVRStridePrefetches l a d n v s) := by
  unfold launchDVRStridePrefetches
  dsimp only
  split
  · exact h
  · refine h.lanes (launchLane_cases l false) _ ?_
    rw [length_zipIdx, length_laneAddresses]
    omega

theorem vector (h : Sound c [] s) (tid : Nat) (a pc d : Addr) :
    Sound c [] (vectorRunahead c tid a pc d s) := by
  unfold vectorRunahead
  split
  case isFalse => exact h
  case isTrue hidle =>
    -- The queue that is cleared is empty.
    have hclear : Sound c []
        { s with dvrPrefetchQueue := []
                 dvrQueuedPrefetchAddresses := ∅
                 dvrQueuedDependentLines := ∅ } := by
      refine ⟨⟨?_, fun p => ?_, h.ledger.serials⟩, h.books⟩
      · exact Nat.zero_le _
      · have hp := h.ledger.found p
        simpa only [System.found, hidle.1] using hp
    refine hclear.lanes (fun s' _ => .inr ⟨_, rfl, rfl⟩) _ ?_
    rw [length_zipIdx, length_laneAddresses]
    simp only [length_nil, MaxLanes, DvrMaxQueuedPrefetches]
    omega

theorem nested (h : Sound c [] s) (l : Launch) (is : List Invocation) (v : Bool) :
    Sound c [] (launchNested l is v s) := by
  unfold launchNested
  dsimp only
  split
  · exact h
  · refine h.lanes (launchLane_cases l true) _ ?_
    rw [length_zipIdx, length_flatAddresses]
    omega

theorem oracle (h : Sound c [] s) (tid : Nat) (fs : List Addr) : Sound c [] (oracle tid fs s) := by
  fun_induction PrefetchQueue.oracle tid fs s with
  | case1 => exact h
  | case2 s future rest _ ih => exact ih h
  | case3 => exact h
  | case4 s future rest _ hroom ih => exact ih (h.pushBack rfl (by omega))

theorem replay (h : Sound c [] s) (t : Target) : Sound c [] (replayInsert c t s) := by
  unfold replayInsert
  dsimp only
  split
  case isFalse => exact h
  case isTrue hok => exact h.pushFront rfl hok.2.2.2

/-- The ten exits of the service routine. -/
theorem service (h : Sound c [] s) (env : Env) :
    Sound c [] (serviceDVRPrefetchRequest c env s) := by
  unfold serviceDVRPrefetchRequest
  split
  case h_1 => exact h
  case h_2 prefetch rest hs =>
    split
    · exact h
    split
    · exact h
    split
    · exact h
    split
    · exact h
    split
    · exact h
    case _ hcapacity _ =>
    have hpop : Ledger [prefetch] (s.popFront c prefetch) := h.ledger.popFront hs
    have hbooks : Books c [] (s.popFront c prefetch).books := h.books
    dsimp only
    split
    · exact ⟨hpop.drop, hbooks⟩
    unfold System.attempt
    have hentry := hbooks.allocateEntry
    split
    · exact ⟨((hpop.allocateEntry).finish _).drop, hentry.finish⟩
    split
    · exact ⟨((hpop.allocateEntry).finish _).pageFault, hentry.finish⟩
    split
    · exact ⟨((hpop.allocateEntry).finish _).requeue, hentry.finish⟩
    split
    · exact ⟨((hpop.allocateEntry).finish _).requeue, hentry.finish⟩
    · exact ⟨hpop.allocateEntry.sent _, hentry.sent (Nat.lt_of_not_le hcapacity) _⟩

variable {held : List Nat}

theorem dependent (h : Sound c held s) {p : Prefetch} (hp : p.serial = s.generated.length) :
    Sound c held (s.dependent c p) := by
  unfold System.dependent
  split
  · exact h
  split
  · exact h.refuse hp
  · exact h.pushFront hp (by omega)

theorem affine (h : Sound c held s) (source : Prefetch) (value : RegVal) (many : Bool)
    (rs : List Affine) : Sound c held (affine c source value many rs s) := by
  fun_induction PrefetchQueue.affine c source value many rs s with
  | case1 => exact h
  | case2 s r rest _ ih => exact ih h
  | case3 s r rest _ _ _ ih => exact ih h
  | case4 => exact h
  | case5 s r rest _ _ _ _ _ _ ih => exact ih (h.refuse rfl)
  | case6 s r rest _ _ _ _ _ hroom => exact h.pushFront rfl (by omega)

theorem followUp (h : Sound c held s) (source : Prefetch) (a : Answer) :
    Sound c held (followUp c source a s) := by
  unfold PrefetchQueue.followUp
  split
  · exact h
  split
  · exact h
  split
  · unfold System.replayDVRSource
    split
    · exact h
    split
    · exact h.dependent rfl
    · exact h
  · exact h.affine _ _ _ _

/-- The entry of an answered packet is held until the end of the call. -/
theorem complete (h : Sound c [] s) {pkt : Packet} (hpkt : pkt ∈ s.inFlight) (a : Answer) :
    Sound c [] (completeDVRPrefetch c pkt a s) := by
  have haccount : Sound c [pkt.helperLoadId] (s.account c pkt) :=
    ⟨h.ledger.account hpkt, h.books.account hpkt⟩
  unfold completeDVRPrefetch
  split
  · have hfollow := haccount.followUp pkt.request a
    exact ⟨hfollow.ledger.finish _, hfollow.books.finish⟩
  · exact ⟨haccount.ledger.finish _, haccount.books.finish⟩

theorem step (h : Sound c [] s) (e : Event) : Sound c [] (step c s e) := by
  cases e with
  | stride l a d n v => exact h.stride l a d n v
  | vector tid a pc d => exact h.vector tid a pc d
  | nested l is v => exact h.nested l is v
  | oracle tid fs => exact h.oracle tid fs
  | replay t => exact h.replay t
  | demand a => exact ⟨⟨h.ledger.room, h.ledger.found, h.ledger.serials⟩, h.books⟩
  | service env => exact h.service env
  | complete id a =>
    unfold PrefetchQueue.step
    dsimp only
    split
    case h_1 pkt hfind => exact h.complete (mem_of_find?_eq_some hfind) a
    case h_2 => exact h

theorem run (c : Config) (es : List Event) : Sound c [] (es.foldl (PrefetchQueue.step c) {}) :=
  have hfree : ∀ e ∈ es, (fun _ : Event => True) e := fun _ _ => trivial
  Trace.Admits.invariant (Sound c []) (fun _ e h _ => h.step e) ⟨Ledger.init, Books.init⟩
    (Trace.admits_of_forall hfree)

end Sound

/-! ## Conservation -/

/-- Where the requests are. -/
def System.whereabouts (s : System) : List Prefetch :=
  s.dvrPrefetchQueue ++ s.inFlight.map Packet.request ++ s.completed ++ s.dropped ++ s.faulted

/-- The three counts of packets agree and are bounded, the maps count the packets of every line, the
    queue is bounded, and every request is in EXACTLY one place. -/
structure Conserved (c : Config) (s : System) : Prop where
  occupancy : s.dvrHelperLoadQueueOccupancy = s.inFlight.length
  entries : s.dvrHelperLoadEntries.entries.length = s.inFlight.length
  issued : s.dvrPrefetchesIssued = s.dvrPrefetchesCompleted + s.inFlight.length
  capacity : s.inFlight.length ≤ DvrHelperLoadQueueCapacity
  lines : s.dvrOutstandingPrefetchLines = Tally.of (s.inFlight.map (Packet.line c))
  dependentLines : s.dvrDependentOutstandingLines =
    Tally.of ((s.inFlight.filter Packet.dependent).map (Packet.line c))
  room : s.dvrPrefetchQueue.length ≤ DvrMaxQueuedPrefetches
  requests : s.whereabouts.Perm s.generated
  distinct : s.generated.Nodup

/-- A call that sends nothing and gives up nothing leaves the queue as it was. -/
def KeepsQueue (c : Config) (s : System) : Prop :=
  ∀ env, (serviceDVRPrefetchRequest c env s).inFlight = s.inFlight →
    (serviceDVRPrefetchRequest c env s).dropped = s.dropped →
    (serviceDVRPrefetchRequest c env s).faulted = s.faulted →
    (serviceDVRPrefetchRequest c env s).dvrPrefetchQueue = s.dvrPrefetchQueue

theorem Ledger.requests {s : System} (h : Ledger [] s) : s.whereabouts.Perm s.generated := by
  rw [perm_iff_count]
  intro p
  have hp := h.found p
  simp only [System.found, count_nil] at hp
  simp only [System.whereabouts, count_append]
  omega

theorem Ledger.distinct {s : System} {hand : List Prefetch} (h : Ledger hand s) :
    s.generated.Nodup := by
  apply Nodup.of_map Prefetch.serial
  rw [h.serials, nodup_reverse]
  exact nodup_range

theorem Sound.conserved {c : Config} {s : System} (h : Sound c [] s) : Conserved c s where
  occupancy := h.books.occupancy
  entries := by
    have hkeys := h.books.keys.length_eq
    simpa [System.books, AList.keys, List.keys] using hkeys
  issued := h.books.issued
  capacity := h.books.capacity
  lines := h.books.lines
  dependentLines := h.books.dependentLines
  room := h.ledger.room
  requests := h.ledger.requests
  distinct := h.ledger.distinct

theorem keepsQueue (c : Config) (s : System) : KeepsQueue c s := by
  intro env
  unfold serviceDVRPrefetchRequest
  split
  case h_1 => exact fun _ _ _ => rfl
  case h_2 prefetch rest hs =>
    have hne : ∀ l : List Prefetch, prefetch :: l ≠ l := fun l h => by simp at h
    split
    · exact fun _ _ _ => rfl
    split
    · exact fun _ _ _ => rfl
    split
    · exact fun _ _ _ => rfl
    split
    · exact fun _ _ _ => rfl
    split
    · exact fun _ _ _ => rfl
    dsimp only
    split
    · exact fun _ hdropped _ => absurd hdropped (hne _)
    unfold System.attempt
    have hback : prefetch :: s.dvrPrefetchQueue.tail = s.dvrPrefetchQueue := by rw [hs]; rfl
    split
    · exact fun _ hdropped _ => absurd hdropped (hne _)
    split
    · exact fun _ _ hfaulted => absurd hfaulted (hne _)
    split
    · exact fun _ _ _ => hback
    split
    · exact fun _ _ _ => hback
    · intro hsent _ _
      have hlength := congrArg length hsent
      simp [System.sent, System.allocateEntry, System.popFront] at hlength

/-- Conservation over every run: launches, insertions, calls of the service routine with every
    outcome and completions in every order. -/
theorem lifecycle_conserved (c : Config) (es : List Event) :
    Conserved c (es.foldl (step c) {}) ∧ KeepsQueue c (es.foldl (step c) {}) :=
  ⟨(Sound.run c es).conserved, keepsQueue c _⟩

/-- Lines of 64 bytes. -/
def line64 : Config where
  cacheLineSize := 64
  dvrMaxLanes := 128
  dvrEnableDependentPrefetch := true
  template := fun _ => {}

/-- A launch of one lane. -/
def oneSource : System := [Event.stride { pc := 0x10 } 0x5000 8 1 true].foldl (step line64) {}

/-- A call that meets a page fault sends nothing and drops nothing; the request leaves the queue. -/
theorem fault_leaves_queue :
    (serviceDVRPrefetchRequest line64 { fault := true } oneSource).inFlight = oneSource.inFlight ∧
    (serviceDVRPrefetchRequest line64 { fault := true } oneSource).dropped = oneSource.dropped ∧
    (serviceDVRPrefetchRequest line64 { fault := true } oneSource).dvrPrefetchQueue ≠
      oneSource.dvrPrefetchQueue := by
  decide

end Gem5Dvr.PrefetchQueue
