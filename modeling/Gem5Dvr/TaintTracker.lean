/-
  The vector taint tracker (`DVRVectorTaintTracker`, `cpu/o3/pre.hh` 188-226, `pre.cc` 292-390) under
  speculation, and with the stride detector's bits the whole of what a squash has to roll back.

  `begin` taints the destinations of the load that opened a discovery; from then on an instruction
  with a tainted source taints its destinations, one without clears them, and the last load with a
  tainted source is the FLR.  The dispatch side (`observeSpeculative`) saves the state BEFORE each
  instruction, and `squash s` walks the saved states back.

  1. **Program** — the methods, over what they read of an instruction.  The history is a list with
     its BACK first.

  2. **Specification** — `survivors`: the calls without the squashes and without the instructions a
     later squash removed.

  3. **The crux (`squash_run`)** — after calls with no squash among them, `squash s` IS the run over
     the calls from below `s`.  The back of the history is the state before the last instruction, so
     the induction is on the calls from the END.
-/
import Gem5Dvr.StrideDetector

namespace Gem5Dvr.TaintTracker

open List

/-! ## The program -/

/-- The classes of registers. -/
inductive RegClassType
  | IntRegClass | FloatRegClass | VecRegClass | VecElemClass | VecPredRegClass | CCRegClass
  | MiscRegClass | InvalidRegClass
  deriving DecidableEq, Repr

/-- `RegId`, as far as the tracker reads it. -/
structure RegId where
  classValue : RegClassType
  index : Nat
  deriving DecidableEq, Repr

/-- What the tracker reads of a `DynInst`. -/
structure Inst where
  instAddr : Addr
  srcRegs : List RegId
  destRegs : List RegId
  isLoad : Bool
  deriving DecidableEq, Repr

/-- The integer registers. -/
def NumTrackedRegs : Nat := 32

/-- The taints before an instruction. -/
structure SpeculativeState where
  sequence : Nat
  taint : BitVec 32
  finalLoadPC : Addr
  deriving DecidableEq, Repr

/-- The fields of `DVRVectorTaintTracker`; `speculativeHistory` has its back first. -/
structure Tracker where
  taint : BitVec 32 := 0
  finalLoadPC : Addr := 0
  speculativeHistory : List SpeculativeState := []
  deriving DecidableEq, Repr

/-- What an instruction was found to be. -/
structure Observation where
  taintedInstruction : Bool := false
  dependentLoad : Bool := false
  deriving DecidableEq, Repr

/-- The register is one of them. -/
def tracked (reg : RegId) : Bool :=
  reg.classValue == .IntRegClass && decide (reg.index < NumTrackedRegs)

/-- The register is tainted. -/
def isTainted (taint : BitVec 32) (reg : RegId) : Bool :=
  tracked reg && (taint &&& 1#32 <<< reg.index) != 0

/-- Write its taint. -/
def setTainted (taint : BitVec 32) (reg : RegId) (value : Bool) : BitVec 32 :=
  if !tracked reg then taint
  else
    let mask := 1#32 <<< reg.index
    if value then taint ||| mask else taint &&& ~~~mask

namespace Tracker

/-- Nothing is tainted. -/
def reset : Tracker := {}

/-- Just the load's destinations are tainted. -/
def begin (_ : Tracker) (initiating_load : Inst) : Tracker :=
  let t := reset
  { t with taint := initiating_load.destRegs.foldl (setTainted · · true) t.taint }

/-- An instruction, in order. -/
def observe (t : Tracker) (inst : Inst) : Tracker × Observation :=
  let source_tainted := inst.srcRegs.any (isTainted t.taint)
  let dependent_load := inst.isLoad && source_tainted
  ({ t with
      finalLoadPC := if dependent_load then inst.instAddr else t.finalLoadPC
      taint := inst.destRegs.foldl (setTainted · · source_tainted) t.taint },
    ⟨source_tainted, dependent_load⟩)

/-- An instruction that may be squashed. -/
def observeSpeculative (t : Tracker) (inst : Inst) (sequence : Nat) : Tracker × Observation :=
  let saved : SpeculativeState := ⟨sequence, t.taint, t.finalLoadPC⟩
  observe { t with speculativeHistory := saved :: t.speculativeHistory } inst

/-- The loop of `squash`, over the history that is left. -/
def squashFrom (squash_sequence : Nat) : List SpeculativeState → BitVec 32 → Addr → Tracker
  | [], taint, finalLoadPC => ⟨taint, finalLoadPC, []⟩
  | back :: rest, taint, finalLoadPC =>
      if squash_sequence ≤ back.sequence then
        squashFrom squash_sequence rest back.taint back.finalLoadPC
      else ⟨taint, finalLoadPC, back :: rest⟩

/-- The taints before the oldest squashed instruction. -/
def squash (t : Tracker) (squash_sequence : Nat) : Tracker :=
  squashFrom squash_sequence t.speculativeHistory t.taint t.finalLoadPC

end Tracker

/-! ## Calls, and the surviving path -/

/-- One call on the tracker. -/
inductive Event
  | begin (initiating_load : Inst)
  | observeSpeculative (inst : Inst) (sequence : Nat)
  | squash (squash_sequence : Nat)
  deriving DecidableEq, Repr

/-- The tracker after one call. -/
def step (t : Tracker) : Event → Tracker
  | .begin initiating_load => t.begin initiating_load
  | .observeSpeculative inst sequence => (t.observeSpeculative inst sequence).1
  | .squash squash_sequence => t.squash squash_sequence

/-- The tracker after a sequence of calls on a fresh object. -/
def run (es : List Event) : Tracker := es.foldl step {}

/-- The sequence number of an instruction. -/
def Event.sequence? : Event → Option Nat
  | .observeSpeculative _ sequence => some sequence
  | _ => none

/-- The call is not an instruction from `s` on. -/
def Event.before (s : Nat) (e : Event) : Bool := e.sequence?.all (· < s)

/-- The call squashes the instruction of that number. -/
def Event.squashes (sequence : Nat) : Event → Bool
  | .squash squash_sequence => decide (squash_sequence ≤ sequence)
  | _ => false

/-- `begin` and the instructions no later call squashes. -/
def survivors : List Event → List Event
  | [] => []
  | .begin initiating_load :: es => .begin initiating_load :: survivors es
  | .observeSpeculative inst sequence :: es =>
      if es.any (Event.squashes sequence) then survivors es
      else .observeSpeculative inst sequence :: survivors es
  | .squash _ :: es => survivors es

/-- Instructions come in sequence order, and a squashed number is not used again. -/
def InOrder (es : List Event) : Prop := (es.filterMap Event.sequence?).Pairwise (· < ·)

instance (es : List Event) : Decidable (InOrder es) := inferInstanceAs (Decidable (List.Pairwise _ _))

/-! ## Walking back -/

theorem run_append (es : List Event) (e : Event) : run (es ++ [e]) = step (run es) e := by
  rw [run, foldl_append]
  rfl

variable {es : List Event} {inst : Inst} {q : Nat}

theorem InOrder.init {e : Event} (h : InOrder (es ++ [e])) : InOrder es := by
  have hsub : Sublist es (es ++ [e]) := sublist_append_left es [e]
  exact List.Pairwise.sublist (hsub.filterMap _) h

/-- All before the last instruction have smaller numbers. -/
theorem InOrder.before_last
    (h : InOrder (es ++ [.observeSpeculative inst q])) {e : Event} (he : e ∈ es) {r : Nat}
    (hr : e.sequence? = some r) : r < q := by
  rw [InOrder, filterMap_append, pairwise_append] at h
  exact h.2.2 r (mem_filterMap.mpr ⟨e, he, hr⟩) q (by simp [Event.sequence?])

/-- A squash that reaches the last instruction goes on from the state before it. -/
theorem squash_observe {t : Tracker} {s : Nat} (h : s ≤ q) :
    (t.observeSpeculative inst q).1.squash s = t.squash s := by
  simp only [Tracker.observeSpeculative, Tracker.observe, Tracker.squash]
  rw [Tracker.squashFrom, if_pos h]

theorem squash_observe_of_lt {t : Tracker} {s : Nat} (h : q < s) :
    (t.observeSpeculative inst q).1.squash s = (t.observeSpeculative inst q).1 := by
  simp only [Tracker.observeSpeculative, Tracker.observe, Tracker.squash]
  rw [Tracker.squashFrom, if_neg (by simpa using h)]

/-- Undoing is replaying what is left. -/
theorem squash_run (s : Nat) (h : InOrder es) (hno : ∀ e ∈ es, ∀ q, e ≠ .squash q) :
    (run es).squash s = run (es.filter (Event.before s)) := by
  induction es using reverseRecOn with
  | nil => rfl
  | append_singleton es e ih =>
    have hprev := ih h.init fun e' he' => hno e' (mem_append_left [e] he')
    cases e with
    | begin initiating_load =>
      -- nothing is saved before a `begin`
      have hkeep : List.filter (Event.before s) [.begin initiating_load]
          = [.begin initiating_load] := rfl
      rw [filter_append, hkeep, run_append, run_append]
      rfl
    | observeSpeculative inst q =>
      by_cases hq : s ≤ q
      · have hdrop : List.filter (Event.before s) [.observeSpeculative inst q] = [] := by
          simp [Event.before, Event.sequence?, hq]
        rw [filter_append, hdrop, append_nil, run_append, step, squash_observe hq, hprev]
      · have hall : ∀ e ∈ es ++ [Event.observeSpeculative inst q], Event.before s e = true := by
          intro e he
          rcases mem_append.mp he with he | he
          · cases hr : e.sequence? with
            | none => simp [Event.before, hr]
            | some r =>
              have hlt := h.before_last he hr
              simp only [Event.before, hr, Option.all_some, decide_eq_true_eq]
              omega
          · rw [mem_singleton.mp he]
            simpa [Event.before, Event.sequence?] using hq
        rw [filter_eq_self.mpr hall, run_append, step, squash_observe_of_lt (by omega)]
    | squash q => exact absurd rfl (hno (.squash q) (by simp) q)

/-! ## The surviving path -/

theorem survivors_sublist (es : List Event) : Sublist (survivors es) es := by
  induction es with
  | nil => exact Sublist.slnil
  | cons e es ih =>
    cases e with
    | begin initiating_load => exact ih.cons_cons _
    | observeSpeculative inst q =>
      rw [survivors]
      split_ifs
      · exact ih.cons _
      · exact ih.cons_cons _
    | squash q => exact ih.cons _

theorem survivors_no_squash (es : List Event) : ∀ e ∈ survivors es, ∀ q, e ≠ .squash q := by
  induction es with
  | nil => simp [survivors]
  | cons e es ih =>
    cases e with
    | begin initiating_load =>
      rintro e (_ | ⟨_, he⟩) q
      · simp
      · exact ih e he q
    | observeSpeculative inst r =>
      rw [survivors]
      split_ifs
      · exact ih
      · rintro e (_ | ⟨_, he⟩) q
        · simp
        · exact ih e he q
    | squash r => exact ih

/-- A further call is appended, unless it is a squash, which removes what it squashes. -/
theorem survivors_append (es : List Event) (e : Event) : survivors (es ++ [e]) = match e with
      | .squash s => (survivors es).filter (Event.before s)
      | e => survivors es ++ [e] := by
  induction es with
  | nil => cases e <;> rfl
  | cons e' es ih =>
    cases e' with
    | begin initiating_load =>
      rw [cons_append, survivors, ih]
      cases e <;> rfl
    | observeSpeculative inst q =>
      rw [cons_append, survivors, survivors, ih]
      cases e with
      | begin initiating_load =>
        simp only [any_append, any_cons, any_nil, Event.squashes, Bool.or_false]
        split_ifs <;> rfl
      | observeSpeculative inst' q' =>
        simp only [any_append, any_cons, any_nil, Event.squashes, Bool.or_false]
        split_ifs <;> rfl
      | squash s =>
        by_cases hany : es.any (Event.squashes q) = true
        · simp [hany]
        · by_cases hs : s ≤ q
          · simp [hany, hs, Event.squashes, Event.before, Event.sequence?]
          · have hkeep : Event.before s (.observeSpeculative inst q) = true := by
              simpa [Event.before, Event.sequence?] using hs
            simp [hany, hs, Event.squashes, filter_cons_of_pos hkeep]
    | squash q =>
      rw [cons_append, survivors, ih]
      rfl

/-- The tracker is, at every point, the one that saw the surviving path only. -/
theorem run_eq_survivors (h : InOrder es) : run es = run (survivors es) := by
  induction es using reverseRecOn with
  | nil => rfl
  | append_singleton es e ih =>
    have hprev := ih h.init
    rw [run_append, hprev, survivors_append]
    cases e with
    | begin initiating_load => exact (run_append _ _).symm
    | observeSpeculative inst q => exact (run_append _ _).symm
    | squash s =>
      have horder : InOrder (survivors es) :=
        List.Pairwise.sublist ((survivors_sublist es).filterMap _) h.init
      exact squash_run s horder (survivors_no_squash es)

/-! ## Both -/

/-- What a squash leaves of a discovery is what the surviving path had made of it. -/
theorem speculation_rolls_back {es : List Event} (hes : InOrder es) {n : Nat}
    {ds : List StrideDetector.Event} (hds : StrideDetector.InOrder ds) (s : Nat) :
    ((run es).taint = (run (survivors es)).taint ∧
      (run es).finalLoadPC = (run (survivors es)).finalLoadPC) ∧
    ∀ entry : Fin (n + 1),
      (StrideDetector.run n (ds ++ [StrideDetector.Event.squashDiscovery s])).seen entry
        = (StrideDetector.run n ((ds ++ [StrideDetector.Event.squashDiscovery s]).filter
            (StrideDetector.Event.before s))).seen entry := by
  have htracker := run_eq_survivors hes
  refine ⟨⟨?_, ?_⟩, ?_⟩
  · rw [← htracker]
  · rw [← htracker]
  · intro entry
    exact StrideDetector.run_squash_seen hds s entry

/-- A dependent load on the wrong path, and one on the right path after it. -/
def wrongPath : List Event :=
  let x5 : RegId := ⟨.IntRegClass, 5⟩
  let x6 : RegId := ⟨.IntRegClass, 6⟩
  [.begin ⟨0x100, [], [x5], true⟩, .observeSpeculative ⟨0x104, [x5], [x6], true⟩ 2,
   .observeSpeculative ⟨0x108, [], [x5], false⟩ 3,
   .squash 3,
   .observeSpeculative ⟨0x10c, [x5], [x5], true⟩ 4]

/-- A table of one entry, taken over by a second PC between the write of a bit and the squash. -/
def evicted : List StrideDetector.Event :=
  let train (pc : Addr) : List StrideDetector.Event :=
    [.observe pc 0x1000, .observe pc 0x1008, .observe pc 0x1010, .observe pc 0x1018]
  train 0x40 ++ [.observeDispatch 0x40 true 0x80 1] ++ train 0x50 ++
    [.observeDispatch 0x50 true 0x80 2]

/-- A wrong path, and a table entry that changes hands before the squash. -/
theorem speculation_rolls_back_evicted : InOrder wrongPath ∧ StrideDetector.InOrder evicted ∧
      ((run wrongPath).taint = (run (survivors wrongPath)).taint ∧
        (run wrongPath).finalLoadPC = (run (survivors wrongPath)).finalLoadPC) ∧
      ∀ entry : Fin 1,
        (StrideDetector.run 0 (evicted ++ [StrideDetector.Event.squashDiscovery 2])).seen entry
          = (StrideDetector.run 0 ((evicted ++ [StrideDetector.Event.squashDiscovery 2]).filter
              (StrideDetector.Event.before 2))).seen entry :=
  ⟨by decide, by decide, speculation_rolls_back (by decide) (by decide) 2⟩

end Gem5Dvr.TaintTracker
