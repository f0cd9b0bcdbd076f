/-
  Grouped and scalar continuation.

  1. **Reference** — `laneStep`: one uop of a lane on its own.  `resumeSourceLane` is its iteration
     (`resumeLaneLoop_eq`), and two runs that both ended are the same run (`iterate_inactive_unique`).

  2. **Program** — a call of `resumeSourceLanes` is a list of `Head`s, the states at the head of the
     loop.  `watch` keeps beside the program the window every lane would have ON ITS OWN: the
     program moves the window of the group's first lane only.

  3. **Guard (`faithful`)** — four things the grouped loop takes for granted at the head of a turn:
       * a popped frame finds its active lanes at the frame's PC (`restores`);
       * every lane of the group finds the uop that the first lane found;
       * when the first lane finds none, no lane that may issue finds one;
       * the loop does not stop for good while an active lane is blocked (`released`).

  4. **The crux (`OnPath`)** — under the guard every turn leaves each lane where some number of
     `laneStep`s takes it.  Blocking and frames only decide WHEN a lane moves, so they are not part
     of the invariant.
-/
import Mathlib.Logic.Function.Iterate
import Gem5Dvr.Continuation
import Gem5Dvr.Lib.Trace

namespace Gem5Dvr.Continuation

open List Function

variable {n : Nat} {c : Context}

/-! ## The scalar lane as an iteration -/

/-- One uop of a lane on its own; nothing once the lane has ended. -/
def laneStep (c : Context) (lane : Lane) : Lane :=
  if lane.laneActive then
    match c.find lane.window lane.lanePC with
    | none => { lane with laneActive := false }
    | some (op_index, w) => execute c op_index { lane with window := w }
  else lane

variable {lane : Lane} {op_index : Nat}

theorem laneStep_inactive (h : lane.laneActive = false) : laneStep c lane = lane := by
  simp [laneStep, h]

theorem laneStep_none (ha : lane.laneActive = true) (hf : c.find lane.window lane.lanePC = none) :
    laneStep c lane = { lane with laneActive := false } := by
  simp [laneStep, ha, hf]

theorem laneStep_some {w : Window} (ha : lane.laneActive = true)
    (hf : c.find lane.window lane.lanePC = some (op_index, w)) :
    laneStep c lane = execute c op_index { lane with window := w } := by
  simp [laneStep, ha, hf]

/-- Two iterations that have both ended have ended in the same place. -/
theorem iterate_inactive_unique {i j : Nat} (hi : ((laneStep c)^[i] lane).laneActive = false)
    (hj : ((laneStep c)^[j] lane).laneActive = false) :
    (laneStep c)^[i] lane = (laneStep c)^[j] lane := by
  -- Whichever iteration is the longer one only adds steps of an ended lane.
  have later : ∀ {a b : Nat}, a ≤ b → ((laneStep c)^[a] lane).laneActive = false →
      (laneStep c)^[b] lane = (laneStep c)^[a] lane := by
    intro a b hab ha
    obtain ⟨d, rfl⟩ := Nat.exists_eq_add_of_le' hab
    rw [iterate_add_apply]
    exact iterate_fixed (laneStep_inactive ha) d
  rcases Nat.le_total i j with hij | hji
  · exact (later hij hi).symm
  · exact later hji hj

theorem resumeLaneLoop_eq (steps : Nat) (lane : Lane) (helperUops : Nat)
    (ha : lane.laneActive = true) :
    (resumeLaneLoop c steps lane helperUops).1 = (laneStep c)^[steps] lane := by
  induction steps generalizing lane helperUops with
  | zero => rfl
  | succ steps ih =>
    rw [iterate_succ_apply, resumeLaneLoop]
    cases hf : c.find lane.window lane.lanePC with
    | none =>
      rw [laneStep_none ha hf]
      exact (iterate_fixed (laneStep_inactive rfl) steps).symm
    | some found =>
      obtain ⟨op_index, w⟩ := found
      rw [laneStep_some ha hf]
      cases hactive : (execute c op_index { lane with window := w }).laneActive with
      | true => simpa [hactive] using ih _ _ hactive
      | false =>
        rw [iterate_fixed (laneStep_inactive hactive) steps]
        simp [hactive]

/-- A uop that leaves its lane active is counted. -/
theorem counted_of_active {w : Window}
    (h : (execute c op_index { lane with window := w }).laneActive = true) :
    counted c op_index lane = true := by
  simp only [execute] at h
  simp only [counted]
  split at h
  next hcond => simp only [hcond, Bool.true_or]
  next =>
    split at h
    next hjump => simp only [hjump, Bool.or_true, Bool.true_or]
    next =>
      split at h
      next => cases h
      next hret =>
        split at h
        next hless => simp only [hret, hless, Bool.not_false, Bool.true_or, Bool.true_and,
          Bool.or_true]
        next =>
          split at h
          next => cases h
          next heval => simp only [hret, heval, Option.isSome_some, Bool.not_false, Bool.or_true,
            Bool.true_and]

/-- A scalar call that leaves its lane active has spent the whole budget. -/
theorem helperUops_of_active (steps : Nat) (lane : Lane) (helperUops : Nat)
    (h : (resumeLaneLoop c steps lane helperUops).1.laneActive = true) :
    (resumeLaneLoop c steps lane helperUops).2 = helperUops + steps := by
  induction steps generalizing lane helperUops with
  | zero => rfl
  | succ steps ih =>
    rw [resumeLaneLoop] at h ⊢
    cases hf : c.find lane.window lane.lanePC with
    | none => simp [hf] at h
    | some found =>
      obtain ⟨op_index, w⟩ := found
      simp only [hf] at h ⊢
      cases hactive : (execute c op_index { lane with window := w }).laneActive with
      | false => simp [hactive] at h
      | true =>
        simp only [hactive, if_true] at h ⊢
        rw [ih _ _ h, counted_of_active hactive]
        simp only [Bool.toNat_true]
        omega

/-! ## What a turn can do -/

/-- All that a turn can do, after the pop has made `u` of the register. -/
inductive Turns (c : Context) (u : VIR n) : Turn n → Prop
  | idle (hlead : u.leader = none) : Turns c u (.leave u)
  | lost {l : Fin n} (hlead : u.leader = some l)
      (hf : c.find (u.lanes l).window (u.lanes l).lanePC = none) : Turns c u (.leave u.terminate)
  | wait {l : Fin n} {op_index : Nat} {w : Window} (hlead : u.leader = some l)
      (hf : c.find (u.lanes l).window (u.lanes l).lanePC = some (op_index, w))
      (hwait : ((c.uop op_index).conditional &&
        !(u.slide l w).branchReady (u.lanes l).lanePC) = true) : Turns c u (.wait (u.slide l w))
  | issue {l : Fin n} {op_index : Nat} {w : Window} (hlead : u.leader = some l)
      (hf : c.find (u.lanes l).window (u.lanes l).lanePC = some (op_index, w))
      (hgo : ¬ ((c.uop op_index).conditional &&
        !(u.slide l w).branchReady (u.lanes l).lanePC) = true) :
      Turns c u (issueGroup c (u.slide l w) op_index (u.lanes l).lanePC)

theorem turn_turns (c : Context) (v : VIR n) : Turns c v.popFrame (turn c v) := by
  unfold turn
  dsimp only
  generalize v.popFrame = u
  cases hlead : u.leader with
  | none => exact .idle hlead
  | some l =>
    cases hf : c.find (u.lanes l).window (u.lanes l).lanePC with
    | none => simpa only [hf] using .lost hlead hf
    | some found =>
      simp only [hf]
      split
      next hwait => exact .wait hlead hf hwait
      next hgo => exact .issue hlead hf hgo

/-- An issued group goes on, counted, or overflows the stack. -/
theorem issueGroup_cases (c : Context) (v : VIR n) (op_index : Nat) (group_pc : Addr) :
    (∃ v', issueGroup c v op_index group_pc = .overflow v') ∨
      ∃ v' uops, 1 ≤ uops ∧ issueGroup c v op_index group_pc = .next v' uops := by
  unfold issueGroup
  dsimp only
  split
  · split
    · exact .inl ⟨_, rfl⟩
    · exact .inr ⟨_, 1, Nat.le_refl 1, rfl⟩
  · refine .inr ⟨_, _, ?_, rfl⟩
    split <;> omega

/-! ## The states at the head of the loop -/

/-- A pass through the head of the loop: a turn, or the test that finds the steps spent. -/
inductive Head (n : Nat)
  | turn (v : VIR n)
  | bound (v : VIR n)

/-- The heads of one call. -/
def heads (c : Context) : Nat → VIR n → List (Head n)
  | 0, v => [.bound v]
  | steps + 1, v =>
    .turn v :: match turn c v with
      | .next v' _ => heads c steps v'
      | _ => []

/-- The group a turn issues, after the pop: its uop and its PC. -/
def issued (c : Context) (v : VIR n) : Option (Nat × Addr) :=
  match v.leader with
  | none => none
  | some l =>
    match c.find (v.lanes l).window (v.lanes l).lanePC with
    | none => none
    | some (op_index, w) =>
      if (c.uop op_index).conditional && !(v.slide l w).branchReady (v.lanes l).lanePC then none
      else some (op_index, (v.lanes l).lanePC)

/-- The windows the lanes would have on their own, after a turn. -/
def watch (c : Context) (windows : Fin n → Window) : Head n → Fin n → Window
  | .bound _ => windows
  | .turn v =>
    match issued c v.popFrame with
    | none => windows
    | some (_, group_pc) => fun k =>
      if v.popFrame.member group_pc k then
        ((c.find (windows k) group_pc).map Prod.snd).getD (windows k)
      else windows k

/-! ## The guard -/

/-- A popped frame finds its active lanes at the PC it restores. -/
def VIR.restores (v : VIR n) : Bool :=
  match v.stack with
  | [] => true
  | top :: _ => !v.pops top || decide (∀ k, top.deferredMask k = true →
      (v.lanes k).laneActive = true → (v.lanes k).lanePC = top.deferredPC)

/-- With the value of every active lane at hand, no active lane is blocked. -/
def VIR.released (v : VIR n) : Bool :=
  decide ((∀ k, (v.lanes k).laneActive = true → v.laneReady k = true) →
    ∀ k, (v.lanes k).laneActive = true → v.laneBlocked k = false)

/-- What the turn does after the pop is right for each of its lanes. -/
def VIR.agrees (v : VIR n) (c : Context) (windows : Fin n → Window) : Bool :=
  match v.leader with
  | none => v.released
  | some l =>
    match c.find (v.lanes l).window (v.lanes l).lanePC with
    | none => v.released &&
        decide (∀ k, v.runnable k = true → c.find (windows k) (v.lanes k).lanePC = none)
    | some _ =>
      match issued c v with
      | none => true
      | some (op_index, group_pc) => decide (∀ k, v.member group_pc k = true →
          (c.find (windows k) group_pc).map Prod.fst = some op_index)

/-- The guard of the grouped loop. -/
def faithful (c : Context) (windows : Fin n → Window) : Head n → Bool
  | .bound v => v.released
  | .turn v => v.restores && v.popFrame.agrees c windows

/-! ## Every lane stays on its own path -/

/-- The lane is where some number of its own steps takes it.  Of a lane that has ended only the
    registers matter: a later pop may still write its PC. -/
def OnPath (c : Context) (start lane : Lane) (w : Window) : Prop :=
  ∃ j, if lane.laneActive then { lane with window := w } = (laneStep c)^[j] start
    else ((laneStep c)^[j] start).laneActive = false ∧
      lane.vectorRegs = ((laneStep c)^[j] start).vectorRegs

/-- `execute` neither reads nor moves the window. -/
theorem execute_window (op_index : Nat) (lane : Lane) (w : Window) :
    execute c op_index { lane with window := w } =
      { execute c op_index lane with window := w } := by
  simp only [execute]
  split
  · rfl
  · split
    · rfl
    · split
      · rfl
      · split
        · rfl
        · split
          · rfl
          · split
            · rfl
            · split <;> rfl

variable {start lane : Lane} {w : Window}

theorem OnPath.advance {w' : Window} (h : OnPath c start lane w)
    (ha : lane.laneActive = true) (hf : c.find w lane.lanePC = some (op_index, w')) :
    OnPath c start (execute c op_index lane) w' := by
  obtain ⟨j, hj⟩ := h
  rw [if_pos ha] at hj
  have hone : laneStep c { lane with window := w } =
      execute c op_index { lane with window := w' } := laneStep_some ha hf
  have hstep : { execute c op_index lane with window := w' } = (laneStep c)^[j + 1] start := by
    rw [iterate_succ_apply', ← hj, hone]
    exact (execute_window op_index lane w').symm
  refine ⟨j + 1, ?_⟩
  split
  · exact hstep
  next hactive =>
    rw [← hstep]
    exact ⟨by simpa using hactive, rfl⟩

theorem OnPath.stop (h : OnPath c start lane w) (ha : lane.laneActive = true)
    (hf : c.find w lane.lanePC = none) : OnPath c start { lane with laneActive := false } w := by
  obtain ⟨j, hj⟩ := h
  rw [if_pos ha] at hj
  have hone : laneStep c { lane with window := w } =
      { lane with window := w, laneActive := false } := laneStep_none ha hf
  refine ⟨j + 1, ?_⟩
  rw [iterate_succ_apply', ← hj, hone]
  exact ⟨rfl, rfl⟩

theorem OnPath.setPC {pc : Addr} (h : OnPath c start lane w)
    (hpc : lane.laneActive = true → lane.lanePC = pc) :
    OnPath c start { lane with lanePC := pc } w := by
  obtain ⟨j, hj⟩ := h
  refine ⟨j, ?_⟩
  by_cases ha : lane.laneActive = true
  · rw [← hpc ha]
    exact hj
  · rw [if_neg ha] at hj ⊢
    exact hj

/-- What holds between the turns: a lane that has not been called is as initialized, a lane that has
    been called is on its path and keeps its value until it ends. -/
structure Inv (c : Context) (fresh : Lane) (start : Fin n → Lane) (called : Fin n → Prop)
    (windows : Fin n → Window) (v : VIR n) : Prop where
  initialized : v.continuationInitialized = true
  uncalled : ∀ k, ¬ called k →
    { v.lanes k with window := windows k } = fresh ∧ v.laneReady k = false
  onPath : ∀ k, called k → OnPath c (start k) (v.lanes k) (windows k)
  ready : ∀ k, called k → (v.lanes k).laneActive = true → v.laneReady k = true

variable {fresh : Lane} {starts : Fin n → Lane} {called : Fin n → Prop} {windows : Fin n → Window}
  {v : VIR n}

theorem Inv.called_of_ready (h : Inv c fresh starts called windows v) {k : Fin n}
    (hk : v.laneReady k = true) : called k := by
  by_contra hcalled
  rw [(h.uncalled k hcalled).2] at hk
  cases hk

/-! ### One turn -/

@[simp] theorem popFrame_laneReady (v : VIR n) : v.popFrame.laneReady = v.laneReady := by
  unfold VIR.popFrame
  split
  · rfl
  · split <;> rfl

@[simp] theorem popFrame_continuationInitialized (v : VIR n) :
    v.popFrame.continuationInitialized = v.continuationInitialized := by
  unfold VIR.popFrame
  split
  · rfl
  · split <;> rfl

/-- Under the guard the pop moves no active lane. -/
theorem popFrame_lanes (hr : v.restores = true) (k : Fin n) :
    ∃ pc, v.popFrame.lanes k = { v.lanes k with lanePC := pc } ∧
      ((v.lanes k).laneActive = true → (v.lanes k).lanePC = pc) := by
  unfold VIR.restores at hr
  unfold VIR.popFrame
  cases hstack : v.stack with
  | nil => exact ⟨(v.lanes k).lanePC, rfl, fun _ => rfl⟩
  | cons top rest =>
    simp only [hstack] at hr ⊢
    by_cases hpop : v.pops top = true
    · simp only [hpop, Bool.not_true, Bool.false_or, decide_eq_true_eq] at hr
      simp only [hpop, if_true]
      by_cases hmask : top.deferredMask k = true
      · exact ⟨top.deferredPC, by rw [if_pos hmask], hr k hmask⟩
      · exact ⟨(v.lanes k).lanePC, by rw [if_neg hmask], fun _ => rfl⟩
    · rw [if_neg hpop]
      exact ⟨(v.lanes k).lanePC, rfl, fun _ => rfl⟩

theorem Inv.popFrame (h : Inv c fresh starts called windows v) (hfresh : fresh.laneActive = true)
    (hr : v.restores = true) : Inv c fresh starts called windows v.popFrame where
  initialized := by rw [popFrame_continuationInitialized, h.initialized]
  uncalled k hk := by
    obtain ⟨pc, hlane, hpc⟩ := popFrame_lanes hr k
    obtain ⟨hent, hready⟩ := h.uncalled k hk
    have hactive : (v.lanes k).laneActive = true := by rw [← hfresh, ← hent]
    rw [popFrame_laneReady, hlane, ← hpc hactive]
    exact ⟨hent, hready⟩
  onPath k hk := by
    obtain ⟨pc, hlane, hpc⟩ := popFrame_lanes hr k
    rw [hlane]
    exact (h.onPath k hk).setPC hpc
  ready k hk hactive := by
    obtain ⟨pc, hlane, -⟩ := popFrame_lanes hr k
    rw [popFrame_laneReady]
    rw [hlane] at hactive
    exact h.ready k hk hactive

theorem Inv.slide (h : Inv c fresh starts called windows v) (l : Fin n) (w : Window) :
    Inv c fresh starts called windows (v.slide l w) := by
  have hlane : ∀ k, ∃ w', (v.slide l w).lanes k = { v.lanes k with window := w' } := by
    intro k
    by_cases hk : k = l
    · subst hk
      exact ⟨w, by simp [VIR.slide]⟩
    · exact ⟨(v.lanes k).window, by simp [VIR.slide, hk]⟩
  refine ⟨h.initialized, fun k hk => ?_, fun k hk => ?_, fun k hk hactive => ?_⟩
  all_goals obtain ⟨w', hw'⟩ := hlane k
  · rw [hw']
    exact h.uncalled k hk
  · rw [hw']
    exact h.onPath k hk
  · rw [hw'] at hactive
    exact h.ready k hk hactive

theorem member_slide (v : VIR n) (l : Fin n) (w : Window) (pc : Addr) :
    (v.slide l w).member pc = v.member pc := by
  funext k
  by_cases hk : k = l
  · subst hk
    simp [VIR.member, VIR.slide]
  · simp [VIR.member, VIR.slide, hk]

theorem Inv.issue (h : Inv c fresh starts called windows v) (op_index : Nat) (group_pc : Addr)
    (hfind : ∀ k, v.member group_pc k = true →
      (c.find (windows k) group_pc).map Prod.fst = some op_index) :
    Inv c fresh starts called (fun k => if v.member group_pc k then
        ((c.find (windows k) group_pc).map Prod.snd).getD (windows k) else windows k)
      (v.issue c op_index group_pc) := by
  have hmem : ∀ k, v.member group_pc k = true → called k ∧ (v.lanes k).laneActive = true ∧
      ∃ w', c.find (windows k) (v.lanes k).lanePC = some (op_index, w') ∧
        ((c.find (windows k) group_pc).map Prod.snd).getD (windows k) = w' := by
    intro k hk
    obtain ⟨⟨hactive, hready⟩, hpc⟩ : ((v.lanes k).laneActive = true ∧ v.laneReady k = true) ∧
        (v.lanes k).lanePC = group_pc := by simpa [VIR.member] using hk
    obtain ⟨⟨i, w'⟩, hw', hi⟩ := Option.map_eq_some_iff.mp (hfind k hk)
    obtain rfl : i = op_index := hi
    exact ⟨h.called_of_ready hready, hactive, w', by rw [hpc, hw'], by rw [hw']; rfl⟩
  refine ⟨h.initialized, fun k hk => ?_, fun k hk => ?_, fun k hk hactive => ?_⟩
  all_goals by_cases hm : v.member group_pc k = true
  · exact absurd (hmem k hm).1 hk
  · simp only [VIR.issue, if_neg hm]
    exact h.uncalled k hk
  · obtain ⟨-, hactive, w', hw', hget⟩ := hmem k hm
    simp only [VIR.issue, if_pos hm, hget]
    exact (h.onPath k hk).advance hactive hw'
  · simp only [VIR.issue, if_neg hm]
    exact h.onPath k hk
  · simp only [VIR.issue, if_pos hm] at hactive ⊢
    rw [hactive, h.ready k hk (hmem k hm).2.1]
    rfl
  · simp only [VIR.issue, if_neg hm] at hactive ⊢
    exact h.ready k hk hactive

theorem runnable_iff (v : VIR n) (k : Fin n) : v.runnable k = true ↔
    (v.lanes k).laneActive = true ∧ v.laneReady k = true ∧ v.laneBlocked k = false := by
  simp [VIR.runnable, and_assoc]

theorem Inv.terminate (h : Inv c fresh starts called windows v)
    (hnone : ∀ k, v.runnable k = true → c.find (windows k) (v.lanes k).lanePC = none) :
    Inv c fresh starts called windows v.terminate := by
  refine ⟨h.initialized, fun k hk => ?_, fun k hk => ?_, fun k hk hactive => ?_⟩
  all_goals by_cases hrun : v.runnable k = true
  · exact absurd (h.called_of_ready ((runnable_iff v k).mp hrun).2.1) hk
  · obtain ⟨hent, hready⟩ := h.uncalled k hk
    simp only [VIR.terminate, if_neg hrun, hready, Bool.false_and]
    exact ⟨hent, trivial⟩
  · simp only [VIR.terminate, if_pos hrun]
    exact (h.onPath k hk).stop ((runnable_iff v k).mp hrun).1 (hnone k hrun)
  · simp only [VIR.terminate, if_neg hrun]
    exact h.onPath k hk
  · simp [VIR.terminate, hrun] at hactive
  · simp only [VIR.terminate, if_neg hrun] at hactive ⊢
    rw [h.ready k hk hactive]
    simpa using hrun

/-- The invariant reads the lanes and their readiness, not the frames. -/
theorem Inv.of_lanes_eq {u : VIR n} (h : Inv c fresh starts called windows v)
    (hinit : u.continuationInitialized = v.continuationInitialized)
    (hlanes : u.lanes = v.lanes) (hready : u.laneReady = v.laneReady) :
    Inv c fresh starts called windows u := by
  refine ⟨hinit.trans h.initialized, fun k hk => ?_, fun k hk => ?_, fun k hk hactive => ?_⟩
  · rw [hlanes, hready]
    exact h.uncalled k hk
  · rw [hlanes]
    exact h.onPath k hk
  · rw [hlanes] at hactive
    rw [hready]
    exact h.ready k hk hactive

theorem Inv.issueGroup {group_pc : Addr}
    (h : Inv c fresh starts called windows (v.issue c op_index group_pc)) :
    Inv c fresh starts called windows (issueGroup c v op_index group_pc).state := by
  unfold Continuation.issueGroup
  dsimp only
  split
  · split
    · exact h
    · exact h.of_lanes_eq rfl rfl rfl
  · exact h

/-- **One turn**: under the guard every lane stays on its own path. -/
theorem Inv.turn (h : Inv c fresh starts called windows v) (hfresh : fresh.laneActive = true)
    (hok : faithful c windows (.turn v) = true) :
    Inv c fresh starts called (watch c windows (.turn v)) (turn c v).state := by
  obtain ⟨hrestore, hagree⟩ := Bool.and_eq_true_iff.mp hok
  have hpop := h.popFrame hfresh hrestore
  have hturns := turn_turns c v
  unfold watch
  dsimp only
  unfold VIR.agrees at hagree
  generalize v.popFrame = u at hpop hagree hturns ⊢
  generalize Continuation.turn c v = t at hturns ⊢
  cases hturns with
  | idle hlead =>
    simp only [issued, hlead]
    exact hpop
  | lost hlead hf =>
    simp only [issued, hlead, hf, Bool.and_eq_true, decide_eq_true_eq] at hagree ⊢
    exact hpop.terminate hagree.2
  | wait hlead hf hwait =>
    simp only [issued, hlead, hf, if_pos hwait]
    exact hpop.slide _ _
  | @issue l op_index w hlead hf hgo =>
    simp only [issued, hlead, hf, if_neg hgo, decide_eq_true_eq] at hagree ⊢
    have hissue := (hpop.slide l w).issue op_index (u.lanes l).lanePC (by rwa [member_slide])
    rw [member_slide] at hissue
    exact hissue.issueGroup

/-! ### One call -/

theorem Inv.resumeLoop (hfresh : fresh.laneActive = true) (steps helperUops : Nat)
    (h : Inv c fresh starts called windows v)
    (hok : Trace.Admits (fun w e => faithful c w e = true) (watch c) windows (heads c steps v)) :
    Inv c fresh starts called ((heads c steps v).foldl (watch c) windows)
      (resumeLoop c steps v helperUops).1 := by
  induction steps generalizing v windows helperUops with
  | zero => exact h
  | succ steps ih =>
    rw [heads] at hok ⊢
    have hturn := h.turn hfresh hok.1
    rw [Continuation.resumeLoop, foldl_cons]
    cases ht : Continuation.turn c v with
    | next v' uops =>
      rw [ht] at hok hturn
      exact ih _ hturn hok.2
    | wait v' => rwa [ht] at hturn
    | overflow v' => rwa [ht] at hturn
    | leave v' => rwa [ht] at hturn

theorem receive_window (l : Lane) (c : Context) (value : RegVal) (w : Window) :
    ({ l with window := w } : Lane).receive c value = { l.receive c value with window := w } := by
  unfold Lane.receive
  split <;> rfl

@[simp] theorem receive_laneActive (l : Lane) (c : Context) (value : RegVal) :
    (l.receive c value).laneActive = l.laneActive := by
  unfold Lane.receive
  split <;> rfl

/-- The value arrives: the lane starts on its path. -/
theorem Inv.arrive (h : Inv c fresh starts called windows v) (hfresh : fresh.laneActive = true)
    {lane : Fin n} {value : RegVal} (hlane : ¬ called lane)
    (hstart : starts lane = fresh.receive c value) :
    Inv c fresh starts (fun k => called k ∨ k = lane) windows (v.arrive c lane value) := by
  have hother : ∀ k, k ≠ lane → (v.arrive c lane value).lanes k = v.lanes k ∧
      (v.arrive c lane value).laneReady k = v.laneReady k := by
    intro k hk
    simp [VIR.arrive, hk]
  have hactive : (v.lanes lane).laneActive = true := by
    rw [← hfresh, ← (h.uncalled lane hlane).1]
  refine ⟨h.initialized, fun k hk => ?_, fun k hk => ?_, fun k hk hact => ?_⟩
  · rw [(hother k fun heq => hk (.inr heq)).1, (hother k fun heq => hk (.inr heq)).2]
    exact h.uncalled k fun hcalled => hk (.inl hcalled)
  · by_cases heq : k = lane
    · subst heq
      have hval : (v.arrive c k value).lanes k = (v.lanes k).receive c value := by
        simp [VIR.arrive]
      rw [hval, hstart]
      refine ⟨0, ?_⟩
      rw [if_pos (by rwa [receive_laneActive])]
      rw [iterate_zero_apply, ← (h.uncalled k hlane).1]
      exact (receive_window (v.lanes k) c value (windows k)).symm
    · rw [(hother k heq).1]
      exact h.onPath k (hk.resolve_right heq)
  · by_cases heq : k = lane
    · subst heq
      simp [VIR.arrive]
    · rw [(hother k heq).1] at hact
      rw [(hother k heq).2]
      exact h.ready k (hk.resolve_right heq) hact

/-! ### The last call -/

theorem leader_isSome {k : Fin n} (hk : v.runnable k = true) : v.leader.isSome = true := by
  rw [VIR.leader, find?_isSome]
  exact ⟨k, mem_finRange k, hk⟩

theorem runnable_of_leader {l : Fin n} (hl : v.leader = some l) : v.runnable l = true :=
  find?_some hl

/-- A turn that leaves the loop with every value at hand leaves no lane active. -/
theorem inactive_of_leave {v' : VIR n} (hok : faithful c windows (.turn v) = true)
    (hready : ∀ k, (v.popFrame.lanes k).laneActive = true → v.popFrame.laneReady k = true)
    (ht : turn c v = .leave v') (k : Fin n) : (v'.lanes k).laneActive = false := by
  obtain ⟨-, hagree⟩ := Bool.and_eq_true_iff.mp hok
  have hturns := turn_turns c v
  rw [ht] at hturns
  unfold VIR.agrees at hagree
  generalize v.popFrame = u at hready hagree hturns
  -- No lane is blocked, so every active lane could issue.
  have hrun : u.released = true → (u.lanes k).laneActive = true → u.runnable k = true := by
    intro hrel hact
    have hblocked := of_decide_eq_true hrel hready k hact
    exact (runnable_iff u k).mpr ⟨hact, hready k hact, hblocked⟩
  generalize hleave : Turn.leave v' = t at hturns
  cases hturns with
  | idle hlead =>
    obtain rfl : v' = u := by injection hleave
    simp only [hlead] at hagree
    by_contra hact
    have hsome := leader_isSome (hrun hagree (by simpa using hact))
    rw [hlead] at hsome
    cases hsome
  | lost hlead hf =>
    obtain rfl : v' = u.terminate := by injection hleave
    simp only [hlead, hf, Bool.and_eq_true] at hagree
    by_cases hk : u.runnable k = true
    · simp [VIR.terminate, hk]
    · simp only [VIR.terminate, if_neg hk]
      by_contra hact
      exact hk (hrun hagree.1 (by simpa using hact))
  | wait hlead hf hwait => cases hleave
  | @issue l op_index w hlead hf hgo =>
    obtain ⟨v'', heq⟩ | ⟨v'', uops, -, heq⟩ :=
      issueGroup_cases c (u.slide l w) op_index (u.lanes l).lanePC
    all_goals rw [heq] at hleave; cases hleave

/-- With every value at hand no branch waits. -/
theorem not_wait {v' : VIR n}
    (hready : ∀ k, (v.popFrame.lanes k).laneActive = true → v.popFrame.laneReady k = true) :
    turn c v ≠ .wait v' := by
  intro ht
  have hturns := turn_turns c v
  rw [ht] at hturns
  generalize v.popFrame = u at hready hturns
  generalize hwaits : Turn.wait v' = t at hturns
  cases hturns with
  | idle hlead => cases hwaits
  | lost hlead hf => cases hwaits
  | @wait l op_index w hlead hf hwait =>
    have hl := (runnable_iff u l).mp (runnable_of_leader hlead)
    have hbr : (u.slide l w).branchReady (u.lanes l).lanePC = true := by
      simp only [VIR.branchReady, Bool.and_eq_true, Bool.not_eq_true', isEmpty_eq_false_iff,
        ne_eq, filter_eq_nil_iff, all_eq_true, mem_filter]
      refine ⟨fun hnone => hnone l (mem_finRange l) ?_, ?_⟩
      · simp [VIR.slide, hl.1, hl.2.2]
      · rintro k ⟨-, ⟨hact, -⟩, -⟩
        refine hready k ?_
        by_cases hk : k = l
        · subst hk
          exact hl.1
        · simpa [VIR.slide, hk] using hact
    simp [hbr] at hwait
  | @issue l op_index w hlead hf hgo =>
    obtain ⟨v'', heq⟩ | ⟨v'', uops, -, heq⟩ :=
      issueGroup_cases c (u.slide l w) op_index (u.lanes l).lanePC
    all_goals rw [heq] at hwaits; cases hwaits

theorem uops_pos {v' : VIR n} {uops : Nat} (ht : turn c v = .next v' uops) : 1 ≤ uops := by
  have hturns := turn_turns c v
  rw [ht] at hturns
  generalize hnext : Turn.next v' uops = t at hturns
  cases hturns with
  | idle hlead => cases hnext
  | lost hlead hf => cases hnext
  | wait hlead hf hwait => cases hnext
  | issue hlead hf hgo =>
    obtain ⟨v'', heq⟩ | ⟨v'', uops', hpos, heq⟩ := issueGroup_cases c _ _ _
    · rw [heq] at hnext
      cases hnext
    · rw [heq] at hnext
      cases hnext
      exact hpos

/-- The call for the last lane leaves no lane active, when it ends as it should. -/
theorem inactive_of_last (hfresh : fresh.laneActive = true) (hall : ∀ k, called k)
    (steps helperUops : Nat) (h : Inv c fresh starts called windows v)
    (hok : Trace.Admits (fun w e => faithful c w e = true) (watch c) windows (heads c steps v))
    (hbudget : c.max_helper_uops ≤ helperUops + steps)
    (htime : (resumeLoop c steps v helperUops).2.timedOut = false)
    (hover : (resumeLoop c steps v helperUops).2.stackOverflow = false) (k : Fin n) :
    ((resumeLoop c steps v helperUops).1.lanes k).laneActive = false := by
  induction steps generalizing v windows helperUops with
  | zero =>
    have hrel : v.released = true := hok.1
    have hready : ∀ k, (v.lanes k).laneActive = true → v.laneReady k = true :=
      fun k => h.ready k (hall k)
    have hspent : c.max_helper_uops ≤ helperUops := hbudget
    simp only [resumeLoop, timedOut, hspent, decide_true, Bool.true_and,
      any_eq_false, mem_finRange, true_implies] at htime
    by_contra hact
    rw [Bool.not_eq_false] at hact
    exact htime k ((runnable_iff v k).mpr
      ⟨hact, hready k hact, of_decide_eq_true hrel hready k hact⟩)
  | succ steps ih =>
    rw [heads] at hok
    have hturn := h.turn hfresh hok.1
    have hready : ∀ k, (v.popFrame.lanes k).laneActive = true → v.popFrame.laneReady k = true :=
      fun k => (h.popFrame hfresh (Bool.and_eq_true_iff.mp hok.1).1).ready k (hall k)
    rw [resumeLoop] at htime hover ⊢
    cases ht : turn c v with
    | next v' uops =>
      rw [ht] at hok hturn
      simp only [ht] at htime hover ⊢
      exact ih _ hturn hok.2 (by have := uops_pos ht; omega) htime hover
    | wait v' => exact absurd ht (not_wait hready)
    | overflow v' => simp [ht] at hover
    | leave v' => exact inactive_of_leave hok.1 hready ht k

/-! ## One call per lane -/

/-- One call of `resumeSourceLanes`, the values given by a table. -/
def call (c : Context) (values : Fin n → RegVal) (v : VIR n) (lane : Fin n) : VIR n × Result :=
  resumeSourceLanes c v lane (values lane)

/-- The register after the calls for the lanes of `order`. -/
def resumeAll (c : Context) (values : Fin n → RegVal) (v : VIR n) (order : List (Fin n)) : VIR n :=
  order.foldl (fun v lane => (call c values v lane).1) v

/-- No call times out and none overflows the stack. -/
def Completes (c : Context) (values : Fin n → RegVal) (v : VIR n) (order : List (Fin n)) : Prop :=
  Trace.Admits (fun v lane => (call c values v lane).2.timedOut = false ∧
    (call c values v lane).2.stackOverflow = false) (fun v lane => (call c values v lane).1) v order

/-- The heads of one call. -/
def callHeads (c : Context) (values : Fin n → RegVal) (v : VIR n) (lane : Fin n) : List (Head n) :=
  if v.refuses c lane then []
  else heads c c.max_helper_uops (v.arrive c lane (values lane))

/-- The heads of all calls. -/
def runHeads (c : Context) (values : Fin n → RegVal) : VIR n → List (Fin n) → List (Head n)
  | _, [] => []
  | v, lane :: order =>
    callHeads c values v lane ++ runHeads c values (call c values v lane).1 order

/-- The guard along all calls. -/
def Faithful (c : Context) (values : Fin n → RegVal) (windows : Fin n → Window) (v : VIR n)
    (order : List (Fin n)) : Prop :=
  Trace.Admits (fun w e => faithful c w e = true) (watch c) windows (runHeads c values v order)

/-- Grouped and scalar continuation leave the lane with the same registers and the same status. -/
def Agrees (c : Context) (initial_regs : Fin 32 → RegVal) (values : Fin n → RegVal)
    (order : List (Fin n)) (lane : Fin n) : Prop :=
  let v := initializeSourceContinuation c n initial_regs
  let grouped := (resumeAll c values v order).lanes lane
  let scalar := (resumeSourceLane c v lane (values lane)).1.lanes lane
  grouped.vectorRegs = scalar.vectorRegs ∧ grouped.laneActive = scalar.laneActive

/-- The first call of a lane is not refused. -/
theorem not_refuses (h : Inv c fresh starts called windows v) (hfresh : fresh.laneActive = true)
    (hsize : ¬ c.size ≤ 1) (hmax : c.max_helper_uops ≠ 0) {lane : Fin n} (hlane : ¬ called lane) :
    v.refuses c lane = false := by
  have hactive : (v.lanes lane).laneActive = true := by
    rw [← hfresh, ← (h.uncalled lane hlane).1]
  simp [VIR.refuses, h.initialized, hsize, hactive, hmax]

theorem call_eq {values : Fin n → RegVal} {lane : Fin n} (hgo : v.refuses c lane = false) :
    call c values v lane = resumeLoop c c.max_helper_uops (v.arrive c lane (values lane)) 0 := by
  simp [call, resumeSourceLanes, hgo]

theorem callHeads_eq {values : Fin n → RegVal} {lane : Fin n} (hgo : v.refuses c lane = false) :
    callHeads c values v lane = heads c c.max_helper_uops (v.arrive c lane (values lane)) := by
  simp [callHeads, hgo]

/-- The invariant along the calls; `done` are the lanes already called. -/
theorem Inv.runHeads {values : Fin n → RegVal} (hfresh : fresh.laneActive = true)
    (hstart : ∀ k, starts k = fresh.receive c (values k)) (hsize : ¬ c.size ≤ 1)
    (hmax : c.max_helper_uops ≠ 0) (done order : List (Fin n)) (hnodup : (done ++ order).Nodup)
    (h : Inv c fresh starts (· ∈ done) windows v) (hok : Faithful c values windows v order) :
    Inv c fresh starts (· ∈ done ++ order) ((runHeads c values v order).foldl (watch c) windows)
      (resumeAll c values v order) := by
  induction order generalizing v windows done with
  | nil => simpa [Continuation.runHeads, resumeAll] using h
  | cons lane order ih =>
    have hlane : lane ∉ done := fun hmem =>
      (nodup_append.mp hnodup).2.2 lane hmem lane mem_cons_self rfl
    have hgo := not_refuses h hfresh hsize hmax hlane
    obtain ⟨hfirst, hrest⟩ := (Trace.admits_append windows _ _).mp hok
    rw [callHeads_eq hgo] at hfirst
    have hone := (h.arrive hfresh hlane (hstart lane)).resumeLoop hfresh c.max_helper_uops 0 hfirst
    rw [← call_eq hgo, ← callHeads_eq hgo] at hone
    have hdone : Inv c fresh starts (· ∈ done ++ [lane])
        ((callHeads c values v lane).foldl (watch c) windows) (call c values v lane).1 := by
      simpa using hone
    have hnext := ih (done ++ [lane]) (by simpa using hnodup) hdone hrest
    rw [Continuation.runHeads, foldl_append]
    simpa [resumeAll] using hnext

theorem runHeads_append (values : Fin n → RegVal) (v : VIR n) (first second : List (Fin n)) :
    runHeads c values v (first ++ second) =
      runHeads c values v first ++ runHeads c values (resumeAll c values v first) second := by
  induction first generalizing v with
  | nil => rfl
  | cons lane first ih => simp [runHeads, ih, resumeAll]

/-- After one call per lane no lane is active. -/
theorem inactive_of_all {values : Fin n → RegVal} (hfresh : fresh.laneActive = true)
    (hstart : ∀ k, starts k = fresh.receive c (values k)) (hsize : ¬ c.size ≤ 1)
    (hmax : c.max_helper_uops ≠ 0) {order : List (Fin n)} (hnodup : order.Nodup)
    (hall : ∀ k, k ∈ order) (h : Inv c fresh starts (· ∈ ([] : List (Fin n))) windows v)
    (hcomp : Completes c values v order) (hok : Faithful c values windows v order) (k : Fin n) :
    ((resumeAll c values v order).lanes k).laneActive = false := by
  -- Only the last call matters: all values are at hand in it.
  obtain ⟨first, last, rfl⟩ : ∃ first last, order = first ++ [last] :=
    (eq_nil_or_concat' order).resolve_left (ne_nil_of_mem (hall k))
  unfold Faithful at hok
  rw [runHeads_append, Trace.admits_append] at hok
  have hcomp' := ((Trace.admits_append v first [last]).mp hcomp).2
  have hfirst : Inv c fresh starts (· ∈ first) _ (resumeAll c values v first) :=
    Inv.runHeads hfresh hstart hsize hmax [] first hnodup.of_append_left h hok.1
  generalize (runHeads c values v first).foldl (watch c) windows = windows' at hok hfirst
  have hlast : last ∉ first := fun hmem =>
    (nodup_append.mp hnodup).2.2 last hmem last mem_cons_self rfl
  have hgo := not_refuses hfirst hfresh hsize hmax hlast
  have hcalled : ∀ k, k ∈ first ∨ k = last := by simpa using hall
  obtain ⟨⟨htime, hover⟩, -⟩ := hcomp'
  have hheads := hok.2
  rw [runHeads, runHeads, append_nil, callHeads_eq hgo] at hheads
  have hfinal : resumeAll c values v (first ++ [last]) =
      (call c values (resumeAll c values v first) last).1 := by
    simp [resumeAll]
  rw [call_eq hgo] at hfinal
  rw [hfinal]
  have hcall : call c values (resumeAll c values v first) last = _ := call_eq hgo
  change (call c values (resumeAll c values v first) last).2.timedOut = false at htime
  change (call c values (resumeAll c values v first) last).2.stackOverflow = false at hover
  rw [hcall] at htime hover
  exact inactive_of_last hfresh hcalled c.max_helper_uops 0
    (hfirst.arrive hfresh hlast (hstart last)) hheads (by omega) htime hover k

/-! ## Grouped and scalar continuation -/

theorem inv_initial (hinit : v.continuationInitialized = true) (hlanes : ∀ k, v.lanes k = fresh)
    (hready : ∀ k, v.laneReady k = false) :
    Inv c fresh starts (· ∈ ([] : List (Fin n))) (fun _ => fresh.window) v where
  initialized := hinit
  uncalled k _ := ⟨by rw [hlanes k], hready k⟩
  onPath k hk := absurd hk not_mem_nil
  ready k hk := absurd hk not_mem_nil

/-- A scalar call that was not refused and did not time out: the lane has ended, on its path. -/
theorem resumeSourceLane_ended {lane : Fin n} {value : RegVal} (hgo : v.refuses c lane = false)
    (htime : (resumeSourceLane c v lane value).2.timedOut = false) :
    ∃ j, ((laneStep c)^[j] ((v.lanes lane).receive c value)).laneActive = false ∧
      (resumeSourceLane c v lane value).1.lanes lane =
        (laneStep c)^[j] ((v.lanes lane).receive c value) := by
  have hactive : ((v.lanes lane).receive c value).laneActive = true := by
    rw [receive_laneActive]
    simp only [VIR.refuses, Bool.or_eq_false_iff, Bool.not_eq_false'] at hgo
    exact hgo.1.2
  have heq := resumeLaneLoop_eq (c := c) c.max_helper_uops _ 0 hactive
  have hlane : (resumeSourceLane c v lane value).1.lanes lane =
      (laneStep c)^[c.max_helper_uops] ((v.lanes lane).receive c value) := by
    simp [resumeSourceLane, hgo, heq]
  refine ⟨c.max_helper_uops, ?_, hlane⟩
  by_contra hact
  rw [Bool.not_eq_false, ← heq] at hact
  have hspent := helperUops_of_active c.max_helper_uops _ 0 hact
  simp [resumeSourceLane, hgo, hact, hspent] at htime

/-- A call that is refused changes nothing. -/
theorem resumeAll_refused {values : Fin n → RegVal} {order : List (Fin n)}
    (hrefuse : ∀ lane, v.refuses c lane = true) : resumeAll c values v order = v := by
  unfold resumeAll
  induction order with
  | nil => rfl
  | cons lane order ih => simpa [call, resumeSourceLanes, hrefuse lane] using ih

/-- **Grouped and scalar continuation agree** for every program, number of lanes, snapshot,
    values and order of the responses, when no call times out or overflows and every turn of the
    grouped loop meets the guard. -/
theorem resumeSourceLanes_agrees (c : Context) (initial_regs : Fin 32 → RegVal)
    (values : Fin n → RegVal) (order : List (Fin n)) (hnodup : order.Nodup)
    (hall : ∀ k, k ∈ order)
    (hcomp : Completes c values (initializeSourceContinuation c n initial_regs) order)
    (hscalar : ∀ lane, (resumeSourceLane c (initializeSourceContinuation c n initial_regs) lane
      (values lane)).2.timedOut = false)
    (hok : Faithful c values (fun _ => (entry c initial_regs).window)
      (initializeSourceContinuation c n initial_regs) order) (lane : Fin n) :
    Agrees c initial_regs values order lane := by
  unfold Agrees
  generalize hv : initializeSourceContinuation c n initial_regs = v at hcomp hscalar hok ⊢
  dsimp only
  by_cases hrefuse : c.size ≤ 1 ∨ c.max_helper_uops = 0
  · -- Both calls return at once.
    have hall' : ∀ k, v.refuses c k = true := by
      intro k
      rcases hrefuse with h | h <;> simp [VIR.refuses, h]
    rw [resumeAll_refused hall']
    simp [resumeSourceLane, hall' lane]
  · obtain ⟨hsize, hmax⟩ := not_or.mp hrefuse
    have hn : n ≠ 0 := by rintro rfl; exact lane.elim0
    rw [initializeSourceContinuation, if_neg (by simp [hsize, hn])] at hv
    have hfresh : (entry c initial_regs).laneActive = true := rfl
    have hinv : Inv c (entry c initial_regs) (fun k => (entry c initial_regs).receive c (values k))
        (· ∈ ([] : List (Fin n))) (fun _ => (entry c initial_regs).window) v :=
      inv_initial (by rw [← hv]) (fun k => by rw [← hv]) (fun k => by rw [← hv])
    have hended := inactive_of_all hfresh (fun _ => rfl) hsize hmax hnodup hall hinv hcomp hok lane
    have hpath := (Inv.runHeads hfresh (fun _ => rfl) hsize hmax [] order hnodup hinv hok).onPath
      lane (hall lane)
    obtain ⟨i, hi⟩ := hpath
    rw [if_neg (by simp [hended])] at hi
    obtain ⟨j, hj, heq⟩ := resumeSourceLane_ended
      (not_refuses hinv hfresh hsize hmax not_mem_nil) (hscalar lane)
    have hlane : v.lanes lane = entry c initial_regs := by rw [← hv]
    rw [hlane] at hj heq
    rw [heq, hi.2, hended, hj, iterate_inactive_unique hi.1 hj]
    exact ⟨rfl, rfl⟩

/-! ### A diamond, and a branch out of the program -/

/-- `ld x5`; `beq x5, x0`; `addi x7, x5, 1`; and the uops after it. -/
def branchProgram (target : Addr) (rest : List Uop) : List Uop :=
  [{ pc := 0x10, load := true, semantic := .LoadDouble, source0 := some 6, destination := some 5 },
   { pc := 0x14, control := true, conditional := true, tainted := true, semantic := .BranchEqual,
     source0 := some 5, branchTargetPC := target, fallthroughPC := 0x18, reconvergencePC := 0x1c },
   { pc := 0x18, semantic := .AddImmediate, source0 := some 5, destination := some 7,
     immediate := 1, tainted := true }] ++ rest

/-- `addi x8, x7, 2`, where the two sides of the branch meet. -/
def joinUop : Uop :=
  { pc := 0x1c, semantic := .AddImmediate, source0 := some 7, destination := some 8,
    immediate := 2, tainted := true }

/-- Both sides of the branch were captured. -/
def diamond : Context where
  source := branchProgram 0x1c [joinUop]
  continuationContinuePastFLR := true
  source_destination := some 5
  max_helper_uops := 16

/-- The taken side of the branch was not captured. -/
def escape : Context where
  source := branchProgram 0x100 []
  continuationContinuePastFLR := true
  source_destination := some 5
  max_helper_uops := 16

/-- Lane 0 takes the branch, lane 1 does not. -/
def zeroOne (k : Fin 2) : RegVal := BitVec.ofNat 64 k

/-- Both lanes of a diamond, one on each side, agree with the lane alone. -/
theorem resumeSourceLanes_agrees_diamond :
    Agrees diamond (fun _ => 0) zeroOne [0, 1] 0 ∧ Agrees diamond (fun _ => 0) zeroOne [0, 1] 1 := by
  have hagree := resumeSourceLanes_agrees diamond (fun _ => 0) zeroOne [0, 1] (by decide)
    (by decide) (by unfold Completes; decide) (by decide) (by unfold Faithful; decide)
  exact ⟨hagree 0, hagree 1⟩

/-- The leader leaves the captured program and the loop stops: lane 1 stays blocked, with its
    fall-through uop never run. -/
theorem resumeSourceLanes_strands_lane :
    ¬ ∀ (n : Nat) (c : Context) (initial_regs : Fin 32 → RegVal) (values : Fin n → RegVal)
      (order : List (Fin n)), order.Nodup → (∀ k, k ∈ order) →
      Completes c values (initializeSourceContinuation c n initial_regs) order →
      (∀ lane, (resumeSourceLane c (initializeSourceContinuation c n initial_regs) lane
        (values lane)).2.timedOut = false) →
      ∀ lane, Agrees c initial_regs values order lane := by
  intro h
  have hagree := h 2 escape (fun _ => 0) zeroOne [0, 1] (by decide) (by decide)
    (by unfold Completes; decide) (by decide) 1
  have hstuck : ((resumeAll escape zeroOne (initializeSourceContinuation escape 2 fun _ => 0)
      [0, 1]).lanes 1).laneActive = true := by decide
  have hended : ((resumeSourceLane escape (initializeSourceContinuation escape 2 fun _ => 0) 1
      (zeroOne 1)).1.lanes 1).laneActive = false := by decide
  have heq := hagree.2
  cases heq

end Gem5Dvr.Continuation
