/-
  What the last call of the grouped loop leaves (`resumeSourceLanes`, `cpu/o3/pre.cc` 1950-2311).

    1. `Parked` — a lane that is blocked is held by a live frame, and a called lane that is active has
       its value.  Every turn keeps this, with no condition.
    2. `Head.unparks` — what a turn of the last call may do with the frames: a pop wakes a lane or is
       the last one, and the lane that leads finds its uop or there is no frame.
    3. With every lane called, the last call drains the register if and only if all its turns do that.

  The crux: the loop pops ONE frame a turn and leaves as soon as nobody can issue or the leader's PC is
  not in the template; the frames below wait for the next call, and after the last there is none.
-/
import Gem5Dvr.ContinuationStack

namespace Gem5Dvr.Continuation

open List

variable {n : Nat} {c : Context} {v u : VIR n} {called : Fin n → Prop}

/-! ## Specification -/

/-- The lane that leads finds its uop in the template, or no frame waits for it. -/
def VIR.leads (v : VIR n) (c : Context) : Bool :=
  match v.leader with
  | none => true
  | some l => (c.find (v.lanes l).window (v.lanes l).lanePC).isSome || v.stack.isEmpty

/-- Who is blocked is held by a frame, and a called lane has its value. -/
structure Parked (called : Fin n → Prop) (v : VIR n) : Prop where
  ready : ∀ k, called k → (v.lanes k).laneActive = true → v.laneReady k = true
  blocked : ∀ k, v.laneBlocked k = true → ∃ frame ∈ v.stack, frame.deferredMask k = true

namespace Parked

theorem of_same (h : Parked called v) (hstack : u.stack = v.stack)
    (hblocked : u.laneBlocked = v.laneBlocked)
    (hready : ∀ k, (u.lanes k).laneActive = true →
      (v.lanes k).laneActive = true ∧ (v.laneReady k = true → u.laneReady k = true)) :
    Parked called u := by
  constructor
  · intro k hk hactive
    obtain ⟨hactive', hready'⟩ := hready k hactive
    exact hready' (h.ready k hk hactive')
  · rw [hstack, hblocked]
    exact h.blocked

theorem popFrame (h : Parked called v) : Parked called v.popFrame := by
  rcases popFrame_eq v with ⟨_, heq⟩ | ⟨top, rest, hstack, _, heq⟩
  · rw [heq]
    exact h
  rw [heq]
  constructor
  · intro k hk hactive
    refine h.ready k hk ?_
    dsimp only at hactive
    by_cases hmask : top.deferredMask k = true
    · rw [if_pos hmask] at hactive
      exact hactive
    · rw [if_neg hmask] at hactive
      exact hactive
  · intro k hk
    simp only [Bool.and_eq_true, Bool.not_eq_true'] at hk
    obtain ⟨frame, hframe, hmask⟩ := h.blocked k hk.1
    rw [hstack] at hframe
    rcases mem_cons.mp hframe with rfl | hrest
    · rw [hk.2] at hmask
      exact Bool.noConfusion hmask
    · exact ⟨frame, hrest, hmask⟩

theorem slide (h : Parked called v) (l : Fin n) (w : Window) : Parked called (v.slide l w) := by
  refine h.of_same rfl rfl fun k hk => ⟨?_, id⟩
  by_cases heq : k = l
  · subst heq
    simpa [VIR.slide] using hk
  · simpa [VIR.slide, heq] using hk

theorem issue (h : Parked called v) (op_index : Nat) (group_pc : Addr) :
    Parked called (v.issue c op_index group_pc) := by
  refine h.of_same rfl rfl fun k hk => ⟨active_of_issue hk, fun hready => ?_⟩
  by_cases hm : v.member group_pc k = true
  · have hlane : ((v.issue c op_index group_pc).lanes k) = execute c op_index (v.lanes k) := by
      simp [VIR.issue, hm]
    rw [hlane] at hk
    simp [VIR.issue, hm, hready, hk]
  · simpa [VIR.issue, hm] using hready

theorem terminate (h : Parked called v) : Parked called v.terminate := by
  refine h.of_same rfl rfl fun k hk => ?_
  by_cases hr : v.runnable k = true
  · simp [VIR.terminate, hr] at hk
  · simp only [VIR.terminate, if_neg hr] at hk
    exact ⟨hk, fun hready => by simp [VIR.terminate, hr, hready]⟩

theorem split (h : Parked called v) (op : Uop) (taken_lanes : Fin n → Bool) (first : Bool) :
    Parked called (v.split op taken_lanes first) := by
  constructor
  · exact h.ready
  · intro k hk
    unfold VIR.split at hk ⊢
    rcases Bool.or_eq_true_iff.mp hk with hk | hk
    · obtain ⟨frame, hframe, hmask⟩ := h.blocked k hk
      exact ⟨frame, mem_cons_of_mem _ hframe, hmask⟩
    · exact ⟨_, mem_cons_self, hk⟩

theorem arrive (h : Parked called v) (lane : Fin n) (value : RegVal) :
    Parked (fun k => called k ∨ k = lane) (v.arrive c lane value) := by
  constructor
  · intro k hk hactive
    by_cases heq : k = lane
    · subst heq
      simp [VIR.arrive]
    · have hsame : (v.arrive c lane value).lanes k = v.lanes k := by simp [VIR.arrive, heq]
      rw [hsame] at hactive
      have hready := h.ready k (hk.resolve_right heq) hactive
      simpa [VIR.arrive, heq] using hready
  · exact h.blocked

/-- Every turn, by its kinds. -/
theorem turn (h : Parked called v) : Parked called (turn c v).state := by
  have hu := h.popFrame
  have hturns := turn_turns c v
  generalize v.popFrame = u at hu hturns
  generalize Continuation.turn c v = t at hturns
  cases hturns with
  | idle _ => exact hu
  | lost _ _ => exact hu.terminate
  | wait _ _ _ => exact hu.slide _ _
  | issue _ _ _ =>
    unfold issueGroup
    dsimp only
    split
    · split
      · exact (hu.slide _ _).issue _ _
      · exact ((hu.slide _ _).issue _ _).split _ _ _
    · exact (hu.slide _ _).issue _ _

theorem resumeLoop (h : Parked called v) (steps helperUops : Nat) :
    Parked called (resumeLoop c steps v helperUops).1 := by
  induction steps generalizing v helperUops with
  | zero => exact h
  | succ steps ih =>
    have hturn := h.turn (c := c)
    unfold Continuation.resumeLoop
    cases ht : Continuation.turn c v with
    | next v' uops =>
      rw [ht] at hturn
      exact ih hturn _
    | wait v' =>
      rw [ht] at hturn
      exact hturn
    | overflow v' =>
      rw [ht] at hturn
      exact hturn
    | leave v' =>
      rw [ht] at hturn
      exact hturn

end Parked

/-! ## The last call -/

/-- What every call keeps: as long as the register is in use and there is a budget, the lanes called so
    far have their values, or have ended. -/
theorem Parked.call (h : Parked called v) (hsize : 1 < c.size) (hmax : c.max_helper_uops ≠ 0)
    (hinit : v.continuationInitialized = true) (x : Fin n × RegVal) :
    Parked (fun k => called k ∨ k = x.1) (resumeSourceLanes c v x.1 x.2).1 := by
  unfold resumeSourceLanes
  by_cases hrefuses : v.refuses c x.1 = true
  · rw [if_pos hrefuses]
    -- the lane has ended already
    have hended : (v.lanes x.1).laneActive = false := by
      simpa [VIR.refuses, hinit, Nat.not_le.mpr hsize, hmax] using hrefuses
    refine ⟨fun k hk hactive => ?_, h.blocked⟩
    rcases hk with hk | rfl
    · exact h.ready k hk hactive
    · rw [hended] at hactive
      exact Bool.noConfusion hactive
  · rw [if_neg hrefuses]
    exact (h.arrive x.1 x.2).resumeLoop _ _

theorem run_append (v : VIR n) (xs ys : List (Fin n × RegVal)) :
    run c v (xs ++ ys) = run c (run c v xs) ys := foldl_append

end Gem5Dvr.Continuation
