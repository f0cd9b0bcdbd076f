/-
  The launch of a nested batch (`CPU::launchDVRNestedPrefetches`, `cpu/o3/cpu.cc` 3476-3701).

    1. **Program** — where the plan comes from, the loop that counts, the loop that enumerates, the
       admission test, the helper registers and the helper.
    2. **Specification** — the pairs (invocation, lane) in order.
    3. The enumeration is the counted prefix of the pairs, whatever is done with each; so the batch
       is that of `PrefetchQueue.launchNested`, all of it or none.

  The crux: the count clamps every invocation at `MaxLanes` and the enumeration does not, but it stops
  at `MaxLanes` in all; and the registers of a new helper file can always be vectorised, so nothing
  else stands between the admission test and the queue.

  The counters are natural numbers: the sums stay below `16 * MaxLanes`, and `lane` stops with
  `flat_lane`.
-/
import Gem5Dvr.HelperLeak
import Gem5Dvr.HelperThread
import Gem5Dvr.NestedMode
import Gem5Dvr.PrefetchQueue

namespace Gem5Dvr.NestedLaunch

open List

open PrefetchQueue (MaxLanes DvrMaxQueuedPrefetches Affine Launch Invocation Prefetch System
  launchLane)

scoped instance lawfulBEqAddr : LawfulBEq Addr := inferInstance

/-! ## The plan -/

/-- `DVRNestedInvocationBatch`, without the trigger. -/
structure DVRNestedInvocationBatch where
  bases : Nat → Addr := fun _ => 0
  innerLanes : Nat → Nat := fun _ => 0
  innerStrides : Nat → BitVec 64 := fun _ => 0
  count : Nat := 0

/-- The invocations that are flattened. -/
structure Plan where
  invocations : Nat
  base : Nat → Addr
  lanes : Nat → Nat
  stride : Nat → BitVec 64

/-- The NDM's plan, once it is ready; otherwise the CPU's own batch. -/
def plan (ndm : Nested.Mode) (batch : DVRNestedInvocationBatch) : Plan :=
  if ndm.readyToVectorize = true then
    { invocations := min ndm.invocationCount 16
      base := fun invocation => (ndm.invocations invocation).innerStart
      lanes := fun invocation => (ndm.invocations invocation).innerLanes
      stride := fun invocation => (ndm.invocations invocation).innerStride }
  else
    { invocations := min batch.count 16
      base := batch.bases
      lanes := batch.innerLanes
      stride := batch.innerStrides }

namespace Plan

variable (p : Plan) {σ : Type}

/-! ## The loops -/

/-- The loop that counts. -/
def flattened : Nat := (range p.invocations).foldl (fun flattened invocation =>
      flattened + min (min (p.lanes invocation) MaxLanes) (MaxLanes - flattened)) 0

/-- `for (lane = 1; lane <= invocation_lanes && flat_lane < MaxLanes; ++lane, ++flat_lane)`, with
    `left` lanes to come. -/
def laneLoop (body : σ → Nat → Nat → σ) : (left lane flat_lane : Nat) → σ → Nat × σ
  | 0, _, flat_lane, s => (flat_lane, s)
  | left + 1, lane, flat_lane, s =>
    if flat_lane < MaxLanes then
      laneLoop body left (lane + 1) (flat_lane + 1) (body s lane flat_lane)
    else (flat_lane, s)

/-- The loop that enumerates: `body` gets the invocation, the lane and `flat_lane`. -/
def enumerate (body : σ → Nat → Nat → Nat → σ) (s : σ) : σ := ((range p.invocations).foldl
    (fun x invocation =>
      laneLoop (fun s lane flat_lane => body s invocation lane flat_lane) (p.lanes invocation) 1
        x.1 x.2) (0, s)).2

/-- `base + inner_stride * lane`. -/
def source_address (invocation lane : Nat) : Addr :=
  p.base invocation + p.stride invocation * BitVec.ofNat 64 lane

end Plan

/-! ## The launch -/

/-- What a launch reads of the nested context, the replay template and the CPU. -/
structure Context where
  cpu : HelperThread.Cpu
  dvrSharedPhysicalBank : Bool
  ndm : Nested.Mode
  triggerPC : Addr
  tid : Nat := 0
  relations : List Affine := []
  replay : Nat
  program_uops : Nat
  resources : HelperThread.ResourceCounts
  triggerDestination : Int
  initialRegs : HelperRegs.Arch → RegVal

/-- What a launch changes. -/
structure State where
  queues : System
  thread : HelperThread.Thread
  bank : HelperRegs.Bank
  dvrNestedInvocationBatch : DVRNestedInvocationBatch := {}

/-- A new helper register file, the trigger's destination vectorised; false if that fails. -/
def Context.helper_regs (c : Context) (bank : HelperRegs.Bank) : Bool × HelperRegs.State :=
  let file : HelperRegs.State := { file := { shared := c.dvrSharedPhysicalBank }, bank := bank }
  let regs := file.initializeRegs c.initialRegs
  if h : 0 ≤ c.triggerDestination ∧ c.triggerDestination < 32 then
    regs.vectorize ⟨c.triggerDestination.toNat, by omega⟩
  else (true, regs)

/-- What the lanes of the batch share; no lane has a predicate. -/
def Context.launch (c : Context) : Launch :=
  { tid := c.tid, pc := c.triggerPC, relations := c.relations, replay := some c.replay }

def launchDVRNestedPrefetches (c : Context) (s : State) : State :=
  let p := plan c.ndm s.dvrNestedInvocationBatch
  let available := DvrMaxQueuedPrefetches - min s.queues.dvrPrefetchQueue.length DvrMaxQueuedPrefetches
  if p.flattened = 0 ∨ available < p.flattened then s
  else
    let regs := c.helper_regs s.bank
    if regs.1 = false then { s with bank := regs.2.releaseAll.bank }
    else
      { queues := p.enumerate (fun queues invocation lane flat_lane =>
          launchLane c.launch true queues (p.source_address invocation lane, flat_lane)) s.queues
        thread := HelperThread.startDVRHelper c.cpu c.program_uops p.flattened c.resources true
          s.thread
        bank := regs.2.bank }

/-! ## What is enumerated -/

namespace Plan

variable (p : Plan) {σ : Type}

/-- The pairs of an invocation and one of its lanes, in lexicographic order. -/
def pairs : List (Nat × Nat) := (range p.invocations).flatMap fun invocation =>
    (range (p.lanes invocation)).map fun lane => (invocation, lane + 1)

/-- The addresses of the first `flattened` pairs. -/
def addresses : List Addr := (p.pairs.take p.flattened).map fun x => p.source_address x.1 x.2

/-- As `PrefetchQueue.launchNested` has them. -/
def toInvocations : List Invocation := (range p.invocations).map fun invocation =>
    ⟨p.base invocation, p.stride invocation, p.lanes invocation⟩

/-- The lane loop takes lanes up to the limit, numbered on from `flat_lane`. -/
theorem laneLoop_eq (body : σ → Nat → Nat → σ) (left lane flat_lane : Nat) (s : σ)
    (hflat : flat_lane ≤ MaxLanes) :
    laneLoop body left lane flat_lane s = (flat_lane + min left (MaxLanes - flat_lane),
        ((((range left).map (· + lane)).take (MaxLanes - flat_lane)).zipIdx flat_lane).foldl
          (fun s x => body s x.1 x.2) s) := by
  induction left generalizing lane flat_lane s with
  | zero => simp [laneLoop]
  | succ left ih =>
    unfold laneLoop
    by_cases hlt : flat_lane < MaxLanes
    · obtain ⟨room, hroom⟩ : ∃ room, MaxLanes - flat_lane = room + 1 :=
        ⟨MaxLanes - flat_lane - 1, by omega⟩
      have hnext : MaxLanes - (flat_lane + 1) = room := by omega
      have hshift : (range left).map ((· + lane) ∘ Nat.succ) =
          (range left).map (· + (lane + 1)) := by
        apply map_congr_left
        intro n _
        show n + 1 + lane = n + (lane + 1)
        omega
      rw [if_pos hlt, ih _ _ _ hlt, hnext, hroom, range_succ_eq_map, map_cons, map_map,
        hshift, take_succ_cons, zipIdx_cons, foldl_cons, Nat.zero_add]
      congr 1
      omega
    · have hfull : MaxLanes - flat_lane = 0 := by omega
      rw [if_neg hlt, hfull, take_zero]
      simp

/-- All invocations, from some lane number on. -/
theorem foldl_laneLoop (body : σ → Nat → Nat → Nat → σ) (is : List Nat) (flat_lane : Nat) (s : σ)
    (hflat : flat_lane ≤ MaxLanes) :
    (is.foldl (fun x invocation => laneLoop (fun s lane flat_lane => body s invocation lane flat_lane)
        (p.lanes invocation) 1 x.1 x.2) (flat_lane, s)).2 =
      (((is.flatMap fun invocation => (range (p.lanes invocation)).map fun lane =>
          (invocation, lane + 1)).take (MaxLanes - flat_lane)).zipIdx flat_lane).foldl
        (fun s x => body s x.1.1 x.1.2 x.2) s := by
  induction is generalizing flat_lane s with
  | nil => simp
  | cons i is ih =>
    have hpairs : ∀ n : Nat, ((((range (p.lanes i)).map fun lane => (i, lane + 1)).take n).zipIdx
        flat_lane).foldl (fun s x => body s x.1.1 x.1.2 x.2) s =
          ((((range (p.lanes i)).map (· + 1)).take n).zipIdx flat_lane).foldl
            (fun s x => body s i x.1 x.2) s := by
      intro n
      have hmap : ((range (p.lanes i)).map fun lane => (i, lane + 1)) =
          ((range (p.lanes i)).map (· + 1)).map (Prod.mk i) := by
        rw [map_map]
        rfl
      rw [hmap, ← map_take, zipIdx_map, foldl_map]
      rfl
    rw [foldl_cons, laneLoop_eq _ _ _ _ _ hflat, ih _ _ (by omega), flatMap_cons,
      take_append, zipIdx_append, foldl_append, hpairs]
    have hlen : (((range (p.lanes i)).map fun lane => (i, lane + 1)).take
        (MaxLanes - flat_lane)).length = min (p.lanes i) (MaxLanes - flat_lane) := by
      rw [length_take, length_map, length_range, Nat.min_comm]
    have hrest : MaxLanes - (flat_lane + min (p.lanes i) (MaxLanes - flat_lane)) =
        MaxLanes - flat_lane - p.lanes i := by omega
    rw [hlen, hrest, length_map, length_range]

theorem flattened_eq_toInvocations : p.flattened = PrefetchQueue.flattened p.toInvocations 0 := by
  unfold flattened toInvocations
  generalize range p.invocations = is
  generalize (0 : Nat) = n
  induction is generalizing n with
  | nil => rfl
  | cons i is ih => exact ih _

theorem length_pairs : p.pairs.length = ((range p.invocations).map p.lanes).sum := by
  unfold pairs
  simp

theorem flattened_eq_length : p.flattened = min MaxLanes p.pairs.length := by
  rw [flattened_eq_toInvocations, PrefetchQueue.flattened_eq _ _ (Nat.zero_le _), length_pairs,
    toInvocations, map_map, Nat.zero_add]
  rfl

/-- Clamping every invocation first makes no difference. -/
theorem flattened_eq : p.flattened = min MaxLanes
      ((range p.invocations).map fun i => min (p.lanes i) MaxLanes).sum := by
  rw [flattened_eq_length, length_pairs]
  have hclamp : ∀ is : List Nat, min MaxLanes (is.map p.lanes).sum =
      min MaxLanes (is.map fun i => min (p.lanes i) MaxLanes).sum := by
    intro is
    induction is with
    | nil => rfl
    | cons i is ih =>
      rw [map_cons, map_cons, sum_cons, sum_cons]
      omega
  exact hclamp _

theorem take_flattened : p.pairs.take p.flattened = p.pairs.take MaxLanes := by
  rw [flattened_eq_length]
  by_cases hlen : p.pairs.length ≤ MaxLanes
  · rw [take_of_length_le (by omega), take_of_length_le hlen]
  · rw [Nat.min_eq_left (by omega)]

/-- Whatever the body does, it is done with the first `flattened` pairs, in order, numbered from 0. -/
theorem enumerate_eq (body : σ → Nat → Nat → Nat → σ) (s : σ) : p.enumerate body s =
      ((p.pairs.take p.flattened).zipIdx).foldl (fun s x => body s x.1.1 x.1.2 x.2) s := by
  rw [take_flattened]
  exact foldl_laneLoop p body _ 0 s (Nat.zero_le _)

theorem length_addresses : p.addresses.length = p.flattened := by
  unfold addresses
  rw [length_map, length_take, flattened_eq_length]
  omega

/-- The loop over the queue goes through the addresses. -/
theorem enumerate_launchLane (l : Launch) (queues : System) :
    p.enumerate (fun queues invocation lane flat_lane =>
        launchLane l true queues (p.source_address invocation lane, flat_lane)) queues =
      p.addresses.zipIdx.foldl (launchLane l true) queues := by
  rw [enumerate_eq, addresses, zipIdx_map, foldl_map]
  rfl

end Plan

/-! ## The helper registers -/

/-- In a new file there are enough vector entries, whatever the bank has left. -/
theorem helper_regs_vectorized (c : Context) (bank : HelperRegs.Bank) :
    (c.helper_regs bank).1 = true := by
  unfold Context.helper_regs
  split
  case isFalse => rfl
  case isTrue hdest =>
    generalize hfile : ({ file := { shared := c.dvrSharedPhysicalBank }, bank := bank } :
      HelperRegs.State) = file
    have hblank : file.Blank := by
      intro p _
      rw [← hfile]
      rfl
    obtain ⟨hinit, _⟩ := HelperRegs.initialized hblank c.initialRegs
    rcases HelperRegs.vectorize_cases hinit.inv ⟨c.triggerDestination.toNat, by omega⟩ with
      ⟨_, h⟩ | ⟨t, _, hfew, _⟩ | ⟨bundle, t, _, h, _⟩
    · rw [h]
    · rw [hinit.freeVectors_eq, HelperRegs.length_vectorEntries] at hfew
      omega
    · rw [h]

/-! ## What is queued -/

variable {l : Launch} {queues : System} {nested : Bool}

/-- The addresses not known at their turn: neither queued, nor in flight, nor seen before. -/
def newLanes (queues : System) (addresses : List Addr) : List (Addr × Nat) :=
  addresses.zipIdx.filter fun x => decide (¬ queues.Known x.1 ∧ x.1 ∉ addresses.take x.2)

/-- The queue after the loop over some addresses. -/
structure Queued (l : Launch) (nested : Bool) (queues after : System) (addresses : List Addr) :
    Prop where
  known : ∀ a, after.Known a ↔ queues.Known a ∨ a ∈ addresses
  queue : ∃ news, after.dvrPrefetchQueue = queues.dvrPrefetchQueue ++ news ∧
    news.map (fun p => (p.address, p.lane)) = newLanes queues addresses ∧
      ∀ p ∈ news, p.pc = l.pc ∧ p.tid = l.tid ∧ p.source = true ∧ p.nested = nested ∧
        p.relations = l.relations ∧ p.replay = l.replay

theorem newLanes_concat (queues : System) (as : List Addr) (a : Addr) :
    newLanes queues (as ++ [a]) = newLanes queues as ++
      if queues.Known a ∨ a ∈ as then [] else [(a, as.length)] := by
  unfold newLanes
  rw [zipIdx_append, filter_append]
  congr 1
  · apply filter_congr
    intro x hx
    have hlt := snd_lt_of_mem_zipIdx hx
    rw [take_append_of_le_length (by omega)]
  · rw [zipIdx_singleton, Nat.zero_add]
    by_cases hknown : queues.Known a ∨ a ∈ as
    · rw [if_pos hknown, filter_cons_of_neg (by simpa using fun h => (hknown.resolve_left h))]
      rfl
    · rw [if_neg hknown, filter_cons_of_pos (by simpa [not_or] using hknown)]
      rfl

theorem launchLanes_queued (l : Launch) (nested : Bool) (queues : System) (addresses : List Addr) :
    Queued l nested queues (addresses.zipIdx.foldl (launchLane l nested) queues) addresses := by
  induction addresses using reverseRecOn with
  | nil => exact ⟨fun a => by simp, [], by simp, rfl, by simp⟩
  | append_singleton as a ih =>
    obtain ⟨hknown, news, hqueue, hnews, hshared⟩ := ih
    rw [zipIdx_append, foldl_append, zipIdx_singleton, Nat.zero_add]
    generalize as.zipIdx.foldl (launchLane l nested) queues = before at hknown hqueue
    show Queued l nested queues (launchLane l nested before (a, as.length)) (as ++ [a])
    have hconcat := newLanes_concat queues as a
    unfold launchLane
    by_cases hseen : before.Known a
    · rw [if_pos hseen]
      have hseen' := (hknown a).mp hseen
      rw [if_pos hseen', append_nil] at hconcat
      refine ⟨fun b => ?_, news, hqueue, by rw [hconcat, hnews], hshared⟩
      rw [hknown, mem_append, mem_singleton]
      constructor
      · rintro (h | h)
        · exact .inl h
        · exact .inr (.inl h)
      · rintro (h | h | rfl)
        · exact .inl h
        · exact .inr h
        · exact hseen'
    · rw [if_neg hseen]
      have hseen' : ¬ (queues.Known a ∨ a ∈ as) := fun h => hseen ((hknown a).mpr h)
      rw [if_neg hseen'] at hconcat
      generalize hrequest : Prefetch.mk before.generated.length a l.pc l.tid _ true nested false
        l.relations l.replay l.predicate as.length = request
      refine ⟨fun b => ?_, news ++ [request], ?_, ?_, ?_⟩
      · have hpush : ∀ p : Prefetch, (before.pushBack p).Known b ↔ b = p.address ∨ before.Known b := by
          intro p
          unfold System.Known System.pushBack
          rw [Finset.mem_insert, or_assoc]
        have haddress : request.address = a := by rw [← hrequest]
        rw [hpush, haddress, hknown, mem_append, mem_singleton]
        constructor
        · rintro (h | h | h)
          · exact .inr (.inr h)
          · exact .inl h
          · exact .inr (.inl h)
        · rintro (h | h | h)
          · exact .inr (.inl h)
          · exact .inr (.inr h)
          · exact .inl h
      · unfold System.pushBack
        rw [hqueue, append_assoc]
      · rw [map_append, hnews, hconcat, ← hrequest]
        rfl
      · intro p hp
        rcases mem_append.mp hp with hp | hp
        · exact hshared p hp
        · rw [mem_singleton.mp hp, ← hrequest]
          exact ⟨rfl, rfl, rfl, rfl, rfl, rfl⟩

/-! ## The batch -/

def State.available (s : State) : Nat :=
  DvrMaxQueuedPrefetches - min s.queues.dvrPrefetchQueue.length DvrMaxQueuedPrefetches

/-- One launch: what it counts, what it enumerates with which numbers, and what it queues. -/
structure Flattened (c : Context) (s after : State) (p : Plan) : Prop where
  count : p.flattened = min MaxLanes
    ((range p.invocations).map fun i => min (p.lanes i) MaxLanes).sum
  /-- Whatever is done with a pair and its lane id. -/
  enumerated : ∀ (σ : Type) (body : σ → Nat → Nat → Nat → σ) (x : σ), p.enumerate body x =
    ((p.pairs.take p.flattened).zipIdx).foldl (fun x pair => body x pair.1.1 pair.1.2 pair.2) x
  exact : (p.pairs.take p.flattened).length = p.flattened
  /-- All of the batch or none. -/
  admitted : if s.available < p.flattened then after = s
    else Queued c.launch true s.queues after.queues p.addresses

/-- For every plan, every batch and every state of the queue and the helper: the batch is the prefix of
    the pairs in lexicographic order that the count gives, the `k`-th pair has lane id `k`, and it is
    queued as a whole or nothing changes. -/
theorem nested_batch_flattened (c : Context) (s : State) :
    Flattened c s (launchDVRNestedPrefetches c s) (plan c.ndm s.dvrNestedInvocationBatch) where
  count := (plan c.ndm s.dvrNestedInvocationBatch).flattened_eq
  enumerated := fun _ body x => (plan c.ndm s.dvrNestedInvocationBatch).enumerate_eq body x
  exact := by
    rw [length_take, Plan.flattened_eq_length]
    omega
  admitted := by
    unfold launchDVRNestedPrefetches State.available
    dsimp only
    generalize plan c.ndm s.dvrNestedInvocationBatch = p
    by_cases hroom : DvrMaxQueuedPrefetches -
        min s.queues.dvrPrefetchQueue.length DvrMaxQueuedPrefetches < p.flattened
    · rw [if_pos hroom, if_pos (.inr hroom)]
    rw [if_neg hroom]
    by_cases hzero : p.flattened = 0
    · -- an empty batch: there is nothing to queue
      have hnil : p.addresses = [] := by
        apply eq_nil_of_length_eq_zero
        rw [p.length_addresses, hzero]
      rw [if_pos (.inl hzero), hnil]
      exact launchLanes_queued c.launch true s.queues []
    · rw [if_neg (not_or.mpr ⟨hzero, hroom⟩), helper_regs_vectorized, if_neg Bool.noConfusion]
      rw [p.enumerate_launchLane]
      exact launchLanes_queued c.launch true s.queues p.addresses

end Gem5Dvr.NestedLaunch
