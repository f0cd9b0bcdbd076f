/-
  The discovery controller (`DVRDiscoveryController`, `cpu/o3/pre.hh` 116-186, `pre.cc` 187-290)
  under speculation.

  A generation is opened at DISPATCH (`arm`), its end is marked at dispatch (`observeDispatch`, when
  the trigger PC comes round again) and taken at COMMIT (`observeCommit`).  A squash of everything
  from sequence number `s` on calls `rollback s`.

  1. **Program** — the six methods, field for field.  `InstSeqNum` and the instruction counter are
     `Nat`: sequence numbers are never reused and the counter stays below `maxInstructions`.

  2. **Specification** — `Event.before s`: the calls the controller would have received had nothing
     from `s` on ever been dispatched.  `O3` is what the pipeline promises about a call sequence:
     dispatch in increasing order, commit in increasing order and only of instructions in flight,
     no squash of a committed instruction.

  3. **The crux (`truncate_step`)** — `truncate s` is the state with everything from `s` on undone:
     idle when the trigger itself is undone, an open end when only the closing trigger is.  It
     follows every call from below `s` and does not see the others, so over a whole run
     `truncate s` IS the counterfactual state (`truncate_run`).

  `rollback` undoes the first case and not the second: `stopSequence` is left pointing at a squashed
  instruction.  `rollback_consistent_iff` says that this is the only way it goes wrong.
-/
import Gem5Dvr.Uop
import Gem5Dvr.Lib.Trace

namespace Gem5Dvr.Discovery

/-! ## The program -/

/-- `DVRStrideDetector::Candidate`, as far as the controller reads it. -/
structure Candidate where
  pc : Addr
  stride : Int
  deriving DecidableEq, Repr

/-- What the controller is doing. -/
inductive State
  | Idle | Armed | Discovering
  deriving DecidableEq, Repr

/-- The fields of `DVRDiscoveryController`; `maxInstructions` is a parameter of the methods. -/
structure Controller where
  state : State := .Idle
  triggerPC : Addr := 0
  triggerStride : Int := 0
  triggerSequence : Nat := 0
  stopSequence : Nat := 0
  instructions : Nat := 0
  deriving DecidableEq, Repr

/-- `DVRDiscoveryController::Event`. -/
inductive Outcome
  | None | Started | Completed | TimedOut | Abandoned
  deriving DecidableEq, Repr

/-- What a call returns. -/
structure Result where
  event : Outcome := .None
  triggerPC : Addr := 0
  stride : Int := 0
  instructions : Nat := 0
  deriving DecidableEq, Repr

namespace Controller

/-- `finish`: the object as constructed. -/
def finish : Controller := {}

/-- A candidate is dispatched. -/
def arm (c : Controller) (candidate : Candidate) (sequence : Nat) : Controller :=
  if c.state ≠ .Idle then c
  else { state := .Discovering, triggerPC := candidate.pc, triggerStride := candidate.stride,
         triggerSequence := sequence, stopSequence := 0, instructions := 0 }

/-- The value returned is whether this dispatch closed the observation window. -/
def observeDispatch (c : Controller) (pc : Addr) (sequence : Nat) : Controller × Bool :=
  if c.state ≠ .Discovering ∨ sequence ≤ c.triggerSequence ∨ c.stopSequence ≠ 0 then (c, false)
  else if pc = c.triggerPC then ({ c with stopSequence := sequence }, true)
  else (c, false)

/-- An instruction commits. -/
def observeCommit (maxInstructions : Nat) (c : Controller) (pc : Addr) (sequence : Nat) :
    Controller × Result :=
  if c.state = .Armed then
    if sequence = c.triggerSequence ∧ pc = c.triggerPC then
      ({ c with state := .Discovering }, ⟨.Started, c.triggerPC, c.triggerStride, 0⟩)
    else if c.triggerSequence < sequence then
      (finish, ⟨.Abandoned, c.triggerPC, c.triggerStride, 0⟩)
    else (c, {})
  else if c.state ≠ .Discovering ∨ sequence ≤ c.triggerSequence then (c, {})
  else if c.stopSequence ≠ 0 ∧ sequence = c.stopSequence then
    (finish, ⟨.Completed, c.triggerPC, c.triggerStride, c.instructions⟩)
  else if maxInstructions ≤ c.instructions + 1 then
    (finish, ⟨.TimedOut, c.triggerPC, c.triggerStride, c.instructions + 1⟩)
  else ({ c with instructions := c.instructions + 1 }, {})

/-- The value returned is whether a generation was undone. -/
def rollback (c : Controller) (squash_sequence : Nat) : Controller × Bool :=
  if c.state = .Idle ∨ c.triggerSequence < squash_sequence then (c, false) else (finish, true)

end Controller

/-! ## Calls, and what the pipeline promises about them -/

/-- One call on the controller. -/
inductive Event
  | arm (candidate : Candidate) (sequence : Nat)
  | observeDispatch (pc : Addr) (sequence : Nat)
  | observeCommit (pc : Addr) (sequence : Nat)
  | rollback (squash_sequence : Nat)
  deriving DecidableEq, Repr

/-- The controller after one call. -/
def step (maxInstructions : Nat) (c : Controller) : Event → Controller
  | .arm candidate sequence => c.arm candidate sequence
  | .observeDispatch pc sequence => (c.observeDispatch pc sequence).1
  | .observeCommit pc sequence => (c.observeCommit maxInstructions pc sequence).1
  | .rollback squash_sequence => (c.rollback squash_sequence).1

/-- The controller after a sequence of calls on a fresh object. -/
def run (maxInstructions : Nat) (es : List Event) : Controller := es.foldl (step maxInstructions) {}

/-- The call belongs to a world in which nothing from `s` on was dispatched. -/
def Event.before (s : Nat) : Event → Bool
  | .arm _ sequence => sequence < s
  | .observeDispatch _ sequence => sequence < s
  | .observeCommit _ sequence => sequence < s
  | .rollback squash_sequence => squash_sequence < s

/-- What the out-of-order pipeline remembers of the calls so far. -/
structure O3 where
  dispatched : Nat := 0
  committed : Nat := 0
  inFlight : List Nat := []
  deriving DecidableEq, Repr

namespace O3

/-- `arm` is called for the instruction whose dispatch has just been observed. -/
def allows (p : O3) : Event → Prop
  | .arm _ sequence => sequence = p.dispatched ∧ sequence ∈ p.inFlight
  | .observeDispatch _ sequence => p.dispatched < sequence
  | .observeCommit _ sequence => p.committed < sequence ∧ sequence ∈ p.inFlight
  | .rollback squash_sequence => p.committed < squash_sequence

/-- The pipeline after a call. -/
def next (p : O3) : Event → O3
  | .arm _ _ => p
  | .observeDispatch _ sequence =>
      { p with dispatched := sequence, inFlight := p.inFlight ++ [sequence] }
  | .observeCommit _ sequence =>
      { p with committed := sequence, inFlight := p.inFlight.filter (sequence < ·) }
  | .rollback squash_sequence =>
      { p with inFlight := p.inFlight.filter (· < squash_sequence) }

instance (p : O3) : (e : Event) → Decidable (p.allows e)
  | .arm _ _ => inferInstanceAs (Decidable (_ ∧ _))
  | .observeDispatch _ _ => inferInstanceAs (Decidable (_ < _))
  | .observeCommit _ _ => inferInstanceAs (Decidable (_ ∧ _))
  | .rollback _ => inferInstanceAs (Decidable (_ < _))

end O3

/-- A call sequence the pipeline can produce. -/
def Produces (es : List Event) : Prop := Trace.Admits O3.allows O3.next {} es

/-- The pipeline after a call sequence. -/
def pipeline (es : List Event) : O3 := es.foldl O3.next {}

/-! ## The counterfactual state -/

/-- The state with everything from sequence number `s` on undone. -/
def truncate (s : Nat) (c : Controller) : Controller :=
  if s ≤ c.triggerSequence then {}
  else if s ≤ c.stopSequence then { c with stopSequence := 0 }
  else c

/-- What every reachable controller has: `Armed` never occurs, an idle controller is blank, and no
    recorded sequence number is younger than the youngest dispatch. -/
structure Inv (c : Controller) (p : O3) : Prop where
  not_armed : c.state ≠ .Armed
  idle : c.state = .Idle → c = {}
  trigger_le : c.triggerSequence ≤ p.dispatched
  stop_le : c.stopSequence ≤ p.dispatched

variable {maxInstructions : Nat} {c : Controller} {p : O3} {e : Event}

theorem inv_finish (p : O3) : Inv .finish p :=
  ⟨by decide, fun _ => rfl, Nat.zero_le _, Nat.zero_le _⟩

theorem inv_step (h : Inv c p) (hok : p.allows e) : Inv (step maxInstructions c e) (p.next e) := by
  obtain ⟨ha, hi, ht, hs⟩ := h
  cases e with
  | arm candidate sequence =>
    simp only [step, Controller.arm]
    split_ifs with h0
    · exact ⟨ha, hi, ht, hs⟩
    · exact ⟨by simp, by simp, hok.1.le, Nat.zero_le _⟩
  | observeDispatch pc sequence =>
    have hd : p.dispatched ≤ (p.next (.observeDispatch pc sequence)).dispatched := Nat.le_of_lt hok
    simp only [step, Controller.observeDispatch]
    split_ifs with h0 h1
    · exact ⟨ha, hi, ht.trans hd, hs.trans hd⟩
    · have hD : c.state = .Discovering := by
        by_contra hne
        exact h0 (Or.inl hne)
      exact ⟨ha, fun h => by simp [hD] at h, ht.trans hd, le_refl sequence⟩
    · exact ⟨ha, hi, ht.trans hd, hs.trans hd⟩
  | observeCommit pc sequence =>
    simp only [step, Controller.observeCommit, if_neg ha]
    split_ifs with h0 h1 h2
    · exact ⟨ha, hi, ht, hs⟩
    · exact inv_finish _
    · exact inv_finish _
    · have hD : c.state = .Discovering := by
        by_contra hne
        exact h0 (Or.inl hne)
      exact ⟨ha, fun h => by simp [hD] at h, ht, hs⟩
  | rollback squash_sequence =>
    simp only [step, Controller.rollback]
    split_ifs with h0
    · exact ⟨ha, hi, ht, hs⟩
    · exact inv_finish _

variable {s : Nat} {es : List Event}

theorem truncate_of_lt (ht : c.triggerSequence < s) (hs : c.stopSequence < s) :
    truncate s c = c := by
  rw [truncate, if_neg (by omega), if_neg (by omega)]

@[simp] theorem truncate_finish (s : Nat) : truncate s .finish = .finish := by
  unfold truncate
  split_ifs <;> rfl

/-- A commit from below `s` neither is the closing trigger of a truncated end nor belongs to a
    truncated generation. -/
theorem truncate_observeCommit (h : Inv c p) {sequence : Nat} (hq : sequence < s) (pc : Addr) :
    truncate s (c.observeCommit maxInstructions pc sequence).1
      = ((truncate s c).observeCommit maxInstructions pc sequence).1 := by
  obtain ⟨ha, hi, -, -⟩ := h
  by_cases ht : s ≤ c.triggerSequence
  · -- the generation is undone: its commits are still to come
    have hno : (c.observeCommit maxInstructions pc sequence).1 = c := by
      rw [Controller.observeCommit, if_neg ha, if_pos (Or.inr (by omega))]
    have hid : truncate s c = {} := if_pos ht
    rw [hno, hid]
    rfl
  · by_cases hst : s ≤ c.stopSequence
    · have htr : truncate s c = { c with stopSequence := 0 } := by
        rw [truncate, if_neg ht, if_pos hst]
      rw [htr]
      simp only [Controller.observeCommit, if_neg ha]
      by_cases h0 : c.state ≠ .Discovering ∨ sequence ≤ c.triggerSequence
      · rw [if_pos h0, if_pos h0, htr]
      · have h1 : ¬ (c.stopSequence ≠ 0 ∧ sequence = c.stopSequence) := by omega
        have h2 : ¬ ((0 : Nat) ≠ 0 ∧ sequence = 0) := by omega
        rw [if_neg h0, if_neg h0, if_neg h1, if_neg h2]
        by_cases hm : maxInstructions ≤ c.instructions + 1
        · rw [if_pos hm, if_pos hm]
          exact truncate_finish s
        · rw [if_neg hm, if_neg hm, truncate, if_neg ht, if_pos hst]
    · rw [truncate_of_lt (Nat.lt_of_not_le ht) (Nat.lt_of_not_le hst)]
      simp only [Controller.observeCommit, if_neg ha]
      split_ifs
      · exact truncate_of_lt (Nat.lt_of_not_le ht) (Nat.lt_of_not_le hst)
      · exact truncate_finish s
      · exact truncate_finish s
      · exact truncate_of_lt (Nat.lt_of_not_le ht) (Nat.lt_of_not_le hst)

/-- A call from below `s` acts on the truncated state as on the real one.  For the dispatch-side
    calls this is the dispatch order: nothing from `s` on has been dispatched yet. -/
theorem truncate_keep (h : Inv c p) (hok : p.allows e) (hb : e.before s = true) :
    truncate s (step maxInstructions c e) = step maxInstructions (truncate s c) e := by
  have ⟨_, _, ht, hs⟩ := h
  cases e with
  | arm candidate sequence =>
    have hq : sequence < s := by simpa [Event.before] using hb
    have hd : sequence = p.dispatched := hok.1
    have hc : truncate s c = c := truncate_of_lt (by omega) (by omega)
    rw [hc]
    simp only [step, Controller.arm]
    split_ifs
    · exact hc
    · exact truncate_of_lt hq (Nat.zero_lt_of_lt hq)
  | observeDispatch pc sequence =>
    have hq : sequence < s := by simpa [Event.before] using hb
    have hd : p.dispatched < sequence := hok
    have htr : c.triggerSequence < s := by omega
    have hc : truncate s c = c := truncate_of_lt htr (by omega)
    rw [hc]
    simp only [step, Controller.observeDispatch]
    split_ifs
    · exact hc
    · exact truncate_of_lt htr hq
    · exact hc
  | observeCommit pc sequence =>
    have hq : sequence < s := by simpa [Event.before] using hb
    exact truncate_observeCommit h hq pc
  | rollback squash_sequence =>
    have hq : squash_sequence < s := by simpa [Event.before] using hb
    simp only [step, Controller.rollback]
    by_cases h0 : c.state = .Idle
    · rw [if_pos (Or.inl h0), h.idle h0]
      rw [show truncate s {} = {} from truncate_finish s]
      rfl
    · by_cases ht' : c.triggerSequence < squash_sequence
      · rw [if_pos (Or.inr ht')]
        have : (truncate s c).triggerSequence < squash_sequence := by
          rw [truncate, if_neg (by omega)]
          split_ifs <;> exact ht'
        rw [if_pos (Or.inr this)]
      · rw [if_neg (by simp [h0, ht']), truncate_finish]
        by_cases hts : s ≤ c.triggerSequence
        · rw [truncate, if_pos hts]
          rfl
        · have hst : (truncate s c).state = c.state ∧
              (truncate s c).triggerSequence = c.triggerSequence := by
            rw [truncate, if_neg hts]
            split_ifs <;> exact ⟨rfl, rfl⟩
          rw [if_neg (by simp [hst, h0, ht'])]

/-- A call from `s` on is not seen by the truncated state. -/
theorem truncate_drop (h : Inv c p) (hb : e.before s = false)
    (hcommit : ∀ pc sequence, e ≠ .observeCommit pc sequence) :
    truncate s (step maxInstructions c e) = truncate s c := by
  cases e with
  | arm candidate sequence =>
    have hq : s ≤ sequence := by simpa [Event.before] using hb
    simp only [step, Controller.arm]
    split_ifs with h0
    · rfl
    · rw [h.idle (by simpa using h0), show truncate s {} = {} from truncate_finish s, truncate]
      exact if_pos hq
  | observeDispatch pc sequence =>
    have hq : s ≤ sequence := by simpa [Event.before] using hb
    simp only [step, Controller.observeDispatch]
    split_ifs with h0 h1
    · rfl
    · have hz : c.stopSequence = 0 := by
        by_contra hne
        exact h0 (Or.inr (Or.inr hne))
      by_cases ht : s ≤ c.triggerSequence
      · rw [truncate, if_pos ht, truncate, if_pos ht]
      · rw [truncate, if_neg ht, if_pos hq, truncate_of_lt (by omega) (by omega)]
        simp [← hz]
    · rfl
  | observeCommit pc sequence => exact absurd rfl (hcommit pc sequence)
  | rollback squash_sequence =>
    have hq : s ≤ squash_sequence := by simpa [Event.before] using hb
    simp only [step, Controller.rollback]
    split_ifs with h0
    · rfl
    · rw [truncate_finish, truncate, if_pos (by omega)]
      rfl

/-! ## Whole runs -/

theorem committed_le_next (hok : p.allows e) : p.committed ≤ (p.next e).committed := by
  cases e with
  | observeCommit pc sequence => exact Nat.le_of_lt hok.1
  | _ => exact le_refl _

theorem committed_le_foldl (h : Trace.Admits O3.allows O3.next p es) :
    p.committed ≤ (es.foldl O3.next p).committed := by
  induction es generalizing p with
  | nil => exact le_refl _
  | cons e es ih => exact (committed_le_next h.1).trans (ih h.2)

/-- Up to a squash at `s` above every commit, all commits are below `s`. -/
theorem admits_commits_below (h : Trace.Admits O3.allows O3.next p es)
    (hs : (es.foldl O3.next p).committed < s) :
    Trace.Admits (fun p e => p.allows e ∧ ∀ pc sequence, e = .observeCommit pc sequence →
      sequence < s) O3.next p es := by
  induction es generalizing p with
  | nil => trivial
  | cons e es ih =>
    refine ⟨⟨h.1, ?_⟩, ih h.2 hs⟩
    rintro pc sequence rfl
    exact lt_of_le_of_lt (committed_le_foldl h.2) hs

/-- THE COUNTERFACTUAL.  Over every call sequence the pipeline can produce, the truncated state is
    the state the controller would have had without the instructions from `s` on. -/
theorem truncate_run (h : Produces es) (hs : (pipeline es).committed < s) :
    truncate s (run maxInstructions es) = run maxInstructions (es.filter (·.before s)) := by
  have hadm : Trace.Admits _ (Trace.both (step maxInstructions) O3.next) ({}, {}) es :=
    (admits_commits_below h hs).both
  have hsim := hadm.simulates (fun q => Inv q.1 q.2) (fun q => truncate s q.1) (Event.before s)
    (fun q e hq hok => inv_step hq hok.1)
    (fun q e hq hok hb => truncate_keep hq hok.1 hb)
    (fun q e hq hok hb => truncate_drop hq hb fun pc sequence he => by
      have hlt := hok.2 pc sequence he
      subst he
      simp [Event.before, hlt] at hb)
    (inv_finish {})
  rw [Trace.foldl_both] at hsim
  exact hsim.trans (by rw [show truncate s {} = {} from truncate_finish s]; rfl)

/-- The closing trigger of the running generation is among the squashed instructions, the opening
    one is not. -/
def closingSquashed (c : Controller) (s : Nat) : Bool :=
  c.state == .Discovering && decide (c.triggerSequence < s) && decide (s ≤ c.stopSequence)

theorem rollback_eq_truncate_iff (h : Inv c p) (s : Nat) :
    (c.rollback s).1 = truncate s c ↔ closingSquashed c s = false := by
  simp only [Controller.rollback]
  by_cases h0 : c.state = .Idle
  · have hc : c = {} := h.idle h0
    rw [if_pos (Or.inl h0), hc, show truncate s {} = {} from truncate_finish s]
    simp [closingSquashed]
  · have hD : c.state = .Discovering := by
      cases hst : c.state with
      | Idle => exact absurd hst h0
      | Armed => exact absurd hst h.not_armed
      | Discovering => rfl
    by_cases ht : c.triggerSequence < s
    · rw [if_pos (Or.inr ht)]
      by_cases hst : s ≤ c.stopSequence
      · -- only the closing trigger is squashed: `stopSequence` should be cleared and is not
        have hne : c ≠ truncate s c := by
          rw [truncate, if_neg (by omega), if_pos hst]
          intro hc
          have := congrArg Controller.stopSequence hc
          simp at this
          omega
        simp [closingSquashed, hD, ht, hst, hne]
      · rw [truncate_of_lt ht (by omega)]
        simp [closingSquashed, hst]
    · rw [if_neg (by simp [h0, ht]), truncate, if_pos (by omega)]
      simp [closingSquashed, ht, Controller.finish]

/-- SQUASH CONSISTENCY.  In every run, `rollback s` leaves the counterfactual state exactly when it
    does not meet a generation whose closing trigger, but not whose opening one, is squashed. -/
theorem rollback_consistent_iff (maxInstructions : Nat) (es : List Event) (s : Nat)
    (h : Produces (es ++ [.rollback s])) :
    run maxInstructions (es ++ [.rollback s]) = run maxInstructions (es.filter (·.before s)) ↔
      closingSquashed (run maxInstructions es) s = false := by
  obtain ⟨hes, hlast⟩ := (Trace.admits_append _ _ _).mp h
  have hs : (pipeline es).committed < s := hlast.1
  have hinv : Inv (run maxInstructions es) (pipeline es) := by
    have hadm : Trace.Admits _ (Trace.both (step maxInstructions) O3.next) ({}, {}) es := hes.both
    have := hadm.invariant (fun q : Controller × O3 => Inv q.1 q.2) (fun q e hq hok => inv_step hq hok)
      (inv_finish {})
    rwa [Trace.foldl_both] at this
  rw [← truncate_run hes hs, ← rollback_eq_truncate_iff hinv]
  unfold run
  rw [List.foldl_append]
  rfl

/-- A squash of the trigger itself: the hypotheses can be met and the state is restored. -/
theorem rollback_consistent_trigger :
    run 8 [.observeDispatch 0x40 1, .arm ⟨0x40, 8⟩ 1, .rollback 1] = run 8 [] :=
  (rollback_consistent_iff 8 [.observeDispatch 0x40 1, .arm ⟨0x40, 8⟩ 1] 1
    (by simp [Produces, O3.allows, O3.next])).mpr (by decide)

/-- The trigger is dispatched as 1 and again as 5, and 5 is squashed.  The controller goes on
    waiting for 5: the next occurrence of the trigger PC, 6, does not close the generation when it
    commits, whereas without 5 it would have. -/
theorem rollback_not_consistent :
    ¬ (∀ (maxInstructions : Nat) (es : List Event) (s : Nat), Produces (es ++ [.rollback s]) →
        run maxInstructions (es ++ [.rollback s]) = run maxInstructions (es.filter (·.before s))) ∧
    ((run 8 [.observeDispatch 0x40 1, .arm ⟨0x40, 8⟩ 1, .observeDispatch 0x40 5, .rollback 5,
        .observeCommit 0x40 1, .observeDispatch 0x40 6]).observeCommit 8 0x40 6).2.event = .None ∧
    ((run 8 [.observeDispatch 0x40 1, .arm ⟨0x40, 8⟩ 1,
        .observeCommit 0x40 1, .observeDispatch 0x40 6]).observeCommit 8 0x40 6).2.event
      = .Completed := by
  refine ⟨fun h => ?_, by decide, by decide⟩
  have := h 8 [.observeDispatch 0x40 1, .arm ⟨0x40, 8⟩ 1, .observeDispatch 0x40 5] 5
    (by simp [Produces, O3.allows, O3.next])
  revert this
  decide

end Gem5Dvr.Discovery
