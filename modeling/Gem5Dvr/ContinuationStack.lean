/-
  The reconvergence stack of the grouped loop (`resumeSourceLanes`, `cpu/o3/pre.cc` 1950-2311).

    1. **Program** — a run of calls as a list of events: a value arrives, a turn of the loop.  Beside
       the register stands what the source does not keep: for every live frame the PC that each
       lane's own branch outcome selected when the frame was pushed (`Choices`).
    2. **What the stack stands for** — a lane is blocked just when one frame holds it, no two frames
       hold the same lane, and a popped frame sends each lane where its own branch went.
    3. **When it does.**  A split takes ANY lane that may issue for one of the branching group, with
       an outcome of "not taken"; and a group takes in blocked lanes that stand at its PC.  As long
       as no split defers such a lane, the stack stands for the lanes.

  The crux: the masks are counted.  A lane of no frame, deferred once, is in one frame; a pop takes it
  out of the one it is in.
-/
import Gem5Dvr.ContinuationPath

namespace Gem5Dvr.Continuation

open List

variable {n : Nat} {c : Context}

/-! ## Events -/

/-- For every live frame, the PC that a lane's own outcome selected. -/
abbrev Choices (n : Nat) := List (Fin n → Option Addr)

/-- The group that a turn issues, after the pop: the register, the uop and the PC. -/
def issuing (c : Context) (u : VIR n) : Option (VIR n × Nat × Addr) :=
  match u.leader with
  | none => none
  | some l =>
    match c.find (u.lanes l).window (u.lanes l).lanePC with
    | none => none
    | some (op_index, w) =>
      if (c.uop op_index).conditional && !(u.slide l w).branchReady (u.lanes l).lanePC then none
      else some (u.slide l w, op_index, (u.lanes l).lanePC)

/-- The turn pushes a frame. -/
def pushes (c : Context) (v : VIR n) : Option (VIR n × Nat × Addr) :=
  (issuing c v.popFrame).filter fun x =>
    x.1.diverges (c.uop x.2.1) x.2.2 && decide (x.1.stack.length < ReconvergenceEntries)

/-- Where a lane's own outcome sends it. -/
def chosen (c : Context) (s : VIR n) (op_index : Nat) (group_pc : Addr) (k : Fin n) : Option Addr :=
  if s.member group_pc k then
    some (branchNext c op_index (branchOutcome (c.uop op_index) (s.lanes k).vectorRegs))
  else none

/-- The top frame is popped by the next turn. -/
def VIR.popping (v : VIR n) : Bool := v.stack.head?.any v.pops

/-- The choices after a turn. -/
def follow (c : Context) (v : VIR n) (g : Choices n) : Choices n :=
  let g := if v.popping then g.tail else g
  match pushes c v with
  | some (s, op_index, group_pc) => chosen c s op_index group_pc :: g
  | none => g

inductive Event (n : Nat)
  | arrive (lane : Fin n) (source_value : RegVal)
  | turn

def move (c : Context) (x : VIR n × Choices n) : Event n → VIR n × Choices n
  | .arrive lane source_value => (x.1.arrive c lane source_value, x.2)
  | .turn => ((turn c x.1).state, follow c x.1 x.2)

/-- How many turns the loop makes. -/
def turnCount (c : Context) : Nat → VIR n → Nat
  | 0, _ => 0
  | steps + 1, v =>
    match turn c v with
    | .next v' _ => turnCount c steps v' + 1
    | _ => 1

/-- The events of one call. -/
def callEvents (c : Context) (v : VIR n) (x : Fin n × RegVal) : List (Event n) :=
  if v.refuses c x.1 then []
  else .arrive x.1 x.2 :: replicate (turnCount c c.max_helper_uops (v.arrive c x.1 x.2)) .turn

/-- The register after some calls. -/
def run (c : Context) (v : VIR n) (calls : List (Fin n × RegVal)) : VIR n :=
  calls.foldl (fun v x => (resumeSourceLanes c v x.1 x.2).1) v

/-- The events of some calls. -/
def runEvents (c : Context) : VIR n → List (Fin n × RegVal) → List (Event n)
  | _, [] => []
  | v, x :: calls => callEvents c v x ++ runEvents c (resumeSourceLanes c v x.1 x.2).1 calls

/-! ## What the stack stands for -/

/-- How many frames hold a lane. -/
def VIR.holders (v : VIR n) (k : Fin n) : Nat := v.stack.countP fun frame => frame.deferredMask k

/-- The representation invariant. -/
structure Represents (v : VIR n) (g : Choices n) : Prop where
  depth : v.stack.length ≤ ReconvergenceEntries
  disjoint : v.stack.Pairwise fun e f => ∀ k, ¬ (e.deferredMask k = true ∧ f.deferredMask k = true)
  blocked : ∀ k, (v.lanes k).laneActive = true → (v.laneBlocked k = true ↔ v.holders k = 1)
  resumes : v.popping = true → ∃ top ∈ v.stack.head?, ∃ choice ∈ g.head?, ∀ k,
    top.deferredMask k = true → (v.lanes k).laneActive = true →
      choice k = some (v.popFrame.lanes k).lanePC

/-- A split of this group keeps to the group: no lane that goes the other way than the first one, and
    lives on, is blocked already; and if the first lane takes the branch, no lane but the group's may
    issue. -/
def VIR.SplitsGroup (s : VIR n) (c : Context) (op_index : Nat) (group_pc : Addr) : Prop :=
  let op := c.uop op_index
  (∀ k, s.member group_pc k = true → s.taken op group_pc k ≠ s.firstPathTaken op group_pc →
    (execute c op_index (s.lanes k)).laneActive = true → s.laneBlocked k = false) ∧
  (s.firstPathTaken op group_pc = true → ∀ k, (s.lanes k).laneActive = true →
    s.laneReady k = true → (s.lanes k).lanePC ≠ 0 → s.member group_pc k = true)

instance (s : VIR n) (c : Context) (op_index : Nat) (group_pc : Addr) :
    Decidable (s.SplitsGroup c op_index group_pc) :=
  inferInstanceAs (Decidable (_ ∧ _))

/-- The next turn pushes no frame, or splits its group only. -/
def splitsGroup (c : Context) (v : VIR n) : Bool :=
  match pushes c v with
  | none => true
  | some (s, op_index, group_pc) => decide (s.SplitsGroup c op_index group_pc)

/-- The guard of a run. -/
def guarded (c : Context) (x : VIR n × Choices n) : Event n → Prop
  | .arrive _ _ => True
  | .turn => splitsGroup c x.1 = true

instance (x : VIR n × Choices n) (e : Event n) : Decidable (guarded c x e) :=
  match e with
  | .arrive _ _ => isTrue trivial
  | .turn => inferInstanceAs (Decidable (_ = true))

/-! ## The invariant -/

variable {v u : VIR n} {g : Choices n}

/-- The masks counted; and every live frame keeps the PC that its active lanes selected. -/
structure Stacked (v : VIR n) (g : Choices n) : Prop where
  depth : v.stack.length ≤ ReconvergenceEntries
  once : ∀ k, v.holders k ≤ 1
  blocked : ∀ k, (v.lanes k).laneActive = true → (v.laneBlocked k = true ↔ v.holders k = 1)
  choices : Forall₂ (fun frame choice => ∀ k, frame.deferredMask k = true →
    (v.lanes k).laneActive = true → choice k = some frame.deferredPC) v.stack g

/-- What moves no frame, blocks no lane and revives none keeps the invariant. -/
theorem Stacked.of_same (h : Stacked v g) (hstack : u.stack = v.stack)
    (hblocked : u.laneBlocked = v.laneBlocked)
    (hactive : ∀ k, (u.lanes k).laneActive = true → (v.lanes k).laneActive = true) :
    Stacked u g := by
  have hholders : u.holders = v.holders := by
    unfold VIR.holders
    rw [hstack]
  constructor
  · rw [hstack]
    exact h.depth
  · rw [hholders]
    exact h.once
  · intro k hk
    rw [hblocked, hholders]
    exact h.blocked k (hactive k hk)
  · rw [hstack]
    exact h.choices.imp fun _ _ himp k hmask hk => himp k hmask (hactive k hk)

theorem pairwise_of_once {l : List (ReconvergenceEntry n)}
    (h : ∀ k, (l.countP fun frame => frame.deferredMask k) ≤ 1) :
    l.Pairwise fun e f => ∀ k, ¬ (e.deferredMask k = true ∧ f.deferredMask k = true) := by
  induction l with
  | nil => exact .nil
  | cons e l ih =>
    constructor
    · rintro f hf k ⟨he, hf'⟩
      have hone := h k
      have hpos : 0 < l.countP fun frame => frame.deferredMask k := countP_pos_iff.mpr ⟨f, hf, hf'⟩
      have hcons : ((e :: l).countP fun frame => frame.deferredMask k) =
          (l.countP fun frame => frame.deferredMask k) + 1 := countP_cons_of_pos he
      omega
    · refine ih fun k => ?_
      have hone := h k
      rw [countP_cons] at hone
      omega

/-- The pop, when there is one. -/
theorem popFrame_eq (v : VIR n) : v.popping = false ∧ v.popFrame = v ∨
      ∃ top rest, v.stack = top :: rest ∧ v.popping = true ∧ v.popFrame = { v with
          lanes := fun k =>
            if top.deferredMask k then { v.lanes k with lanePC := top.deferredPC } else v.lanes k
          laneBlocked := fun k => v.laneBlocked k && !top.deferredMask k
          stack := rest } := by
  unfold VIR.popping VIR.popFrame
  cases hstack : v.stack with
  | nil => exact .inl ⟨rfl, rfl⟩
  | cons top rest =>
    by_cases hpops : v.pops top = true
    · refine .inr ⟨top, rest, rfl, hpops, ?_⟩
      simp only [if_pos hpops]
    · refine .inl ⟨by simpa using hpops, ?_⟩
      simp only [if_neg hpops]

theorem Stacked.popFrame (h : Stacked v g) :
    Stacked v.popFrame (if v.popping then g.tail else g) := by
  rcases popFrame_eq v with ⟨hpop, heq⟩ | ⟨top, rest, hstack, hpop, heq⟩
  · rw [hpop, heq]
    exact h
  rw [hpop, if_pos rfl, heq]
  have hdepth := h.depth
  have honce := h.once
  have hblocked := h.blocked
  have hchoices := h.choices
  unfold VIR.holders at honce hblocked
  rw [hstack] at hdepth honce hblocked hchoices
  -- a lane of the top frame is in no other
  have hrest : ∀ k, top.deferredMask k = true → (rest.countP fun frame => frame.deferredMask k) = 0 := by
    intro k hk
    have hone := honce k
    have hcons : ((top :: rest).countP fun frame => frame.deferredMask k) =
        (rest.countP fun frame => frame.deferredMask k) + 1 := countP_cons_of_pos hk
    omega
  have hother : ∀ k, ¬ top.deferredMask k = true →
      ((top :: rest).countP fun frame => frame.deferredMask k) =
        rest.countP fun frame => frame.deferredMask k :=
    fun k hk => countP_cons_of_neg hk
  have hactive : ∀ k, ((if top.deferredMask k = true then
      { v.lanes k with lanePC := top.deferredPC } else v.lanes k).laneActive = true) ↔
        (v.lanes k).laneActive = true := by
    intro k
    split <;> exact Iff.rfl
  constructor
  · rw [length_cons] at hdepth
    exact Nat.le_of_succ_le hdepth
  · intro k
    show (rest.countP fun frame => frame.deferredMask k) ≤ 1
    by_cases hk : top.deferredMask k = true
    · rw [hrest k hk]
      exact Nat.zero_le 1
    · rw [← hother k hk]
      exact honce k
  · intro k hk
    show (v.laneBlocked k && !top.deferredMask k) = true ↔
      (rest.countP fun frame => frame.deferredMask k) = 1
    by_cases hmask : top.deferredMask k = true
    · rw [hmask, hrest k hmask]
      simp
    · rw [← hother k hmask, ← hblocked k ((hactive k).mp hk)]
      simp [hmask]
  · cases hchoices with
    | cons _ htail => exact htail.imp fun _ _ himp k hk hact => himp k hk ((hactive k).mp hact)

theorem Stacked.slide (h : Stacked v g) (l : Fin n) (w : Window) : Stacked (v.slide l w) g := by
  refine h.of_same rfl rfl fun k hk => ?_
  by_cases heq : k = l
  · subst heq
    simpa [VIR.slide] using hk
  · simpa [VIR.slide, heq] using hk

variable {op_index : Nat} {group_pc : Addr}

theorem active_of_issue {k : Fin n}
    (hk : ((v.issue c op_index group_pc).lanes k).laneActive = true) :
    (v.lanes k).laneActive = true := by
  by_cases hm : v.member group_pc k = true
  · unfold VIR.member at hm
    simp only [Bool.and_eq_true] at hm
    exact hm.1.1
  · simpa [VIR.issue, hm] using hk

theorem Stacked.issue (h : Stacked v g) (op_index : Nat) (group_pc : Addr) :
    Stacked (v.issue c op_index group_pc) g :=
  h.of_same rfl rfl fun _ hk => active_of_issue hk

theorem Stacked.terminate (h : Stacked v g) : Stacked v.terminate g := by
  refine h.of_same rfl rfl fun k hk => ?_
  by_cases hr : v.runnable k = true
  · exact ((runnable_iff v k).mp hr).1
  · simpa [VIR.terminate, hr] using hk

theorem Stacked.arrive (h : Stacked v g) (lane : Fin n) (value : RegVal) :
    Stacked (v.arrive c lane value) g := by
  refine h.of_same rfl rfl fun k hk => ?_
  by_cases heq : k = lane
  · subst heq
    simpa [VIR.arrive, receive_laneActive] using hk
  · simpa [VIR.arrive, heq] using hk

/-! ### The split -/

/-- Where a lane of the group goes at a branch. -/
theorem execute_branch (hcond : (c.uop op_index).conditional = true) (lane : Lane) :
    (execute c op_index lane).lanePC =
      branchNext c op_index (branchOutcome (c.uop op_index) lane.vectorRegs) := by
  unfold execute
  simp only [if_pos hcond]

/-- What a split defers, under the guard: lanes of the group, not blocked, that go the other way. -/
theorem deferred_of_split {k : Fin n} (hguard : v.SplitsGroup c op_index group_pc)
    (hactive : ((v.issue c op_index group_pc).lanes k).laneActive = true)
    (hready : (v.issue c op_index group_pc).laneReady k = true)
    (hpc : ((v.issue c op_index group_pc).lanes k).lanePC ≠ 0)
    (htaken : v.taken (c.uop op_index) group_pc k ≠ v.firstPathTaken (c.uop op_index) group_pc) :
    v.member group_pc k = true ∧ v.laneBlocked k = false := by
  have hmember : v.member group_pc k = true := by
    by_contra hm
    have hsame : (v.issue c op_index group_pc).lanes k = v.lanes k := by simp [VIR.issue, hm]
    have hsameReady : (v.issue c op_index group_pc).laneReady k = v.laneReady k := by
      simp [VIR.issue, hm]
    rw [hsame] at hactive hpc
    rw [hsameReady] at hready
    have hnot : v.taken (c.uop op_index) group_pc k = false := by simp [VIR.taken, hm]
    rw [hnot] at htaken
    exact hm (hguard.2 (by simpa using htaken.symm) k hactive hready hpc)
  refine ⟨hmember, hguard.1 k hmember htaken ?_⟩
  simpa [VIR.issue, hmember] using hactive

theorem Stacked.split (h : Stacked v g) (hcond : (c.uop op_index).conditional = true)
    (hroom : v.stack.length < ReconvergenceEntries)
    (hguard : v.SplitsGroup c op_index group_pc) :
    Stacked ((v.issue c op_index group_pc).split (c.uop op_index)
        (v.taken (c.uop op_index) group_pc) (v.firstPathTaken (c.uop op_index) group_pc))
      (chosen c v op_index group_pc :: g) := by
  have hissue := h.issue (c := c) op_index group_pc
  generalize hw : (v.issue c op_index group_pc).split (c.uop op_index)
    (v.taken (c.uop op_index) group_pc) (v.firstPathTaken (c.uop op_index) group_pc) = w
  generalize hd : (fun k => ((v.issue c op_index group_pc).lanes k).laneActive &&
    (v.issue c op_index group_pc).laneReady k &&
    ((v.issue c op_index group_pc).lanes k).lanePC != 0 &&
    v.taken (c.uop op_index) group_pc k != v.firstPathTaken (c.uop op_index) group_pc) = deferred
  have hdeferred : ∀ k, deferred k = true → v.member group_pc k = true ∧ v.laneBlocked k = false ∧
      v.taken (c.uop op_index) group_pc k ≠ v.firstPathTaken (c.uop op_index) group_pc ∧
        (v.lanes k).laneActive = true := by
    intro k hk
    rw [← hd] at hk
    simp only [Bool.and_eq_true, bne_iff_ne] at hk
    obtain ⟨⟨⟨hactive, hready⟩, hpc⟩, htaken⟩ := hk
    obtain ⟨hmember, hblocked⟩ := deferred_of_split hguard hactive hready hpc htaken
    exact ⟨hmember, hblocked, htaken, active_of_issue hactive⟩
  -- all of them go to one PC
  have hpc : ∀ k, deferred k = true → ((v.issue c op_index group_pc).lanes k).lanePC =
      branchNext c op_index (!v.firstPathTaken (c.uop op_index) group_pc) ∧
        chosen c v op_index group_pc k =
          some (branchNext c op_index (!v.firstPathTaken (c.uop op_index) group_pc)) := by
    intro k hk
    obtain ⟨hmember, _, htaken, _⟩ := hdeferred k hk
    have houtcome : branchOutcome (c.uop op_index) (v.lanes k).vectorRegs =
        !v.firstPathTaken (c.uop op_index) group_pc := by
      unfold VIR.taken at htaken
      rw [hmember, Bool.true_and] at htaken
      exact Bool.eq_not_of_ne htaken
    constructor
    · have hlane : (v.issue c op_index group_pc).lanes k = execute c op_index (v.lanes k) := by
        simp [VIR.issue, hmember]
      rw [hlane, execute_branch hcond, houtcome]
    · unfold chosen
      rw [if_pos hmember, houtcome]
  have hstack : ∃ frame, w.stack = frame :: v.stack ∧ frame.deferredMask = deferred ∧
      ∀ k, deferred k = true → chosen c v op_index group_pc k = some frame.deferredPC := by
    rw [← hw]
    refine ⟨_, rfl, hd, fun k hk => ?_⟩
    show _ = some ((((finRange n).filter _).getLast?.map fun k =>
      ((v.issue c op_index group_pc).lanes k).lanePC).getD 0)
    rw [hd]
    have hmem : k ∈ (finRange n).filter deferred := mem_filter.mpr ⟨mem_finRange k, hk⟩
    obtain ⟨last, hlast⟩ := Option.isSome_iff_exists.mp (getLast?_isSome.mpr (ne_nil_of_mem hmem))
    have hlast' : deferred last = true := (mem_filter.mp (mem_of_getLast? hlast)).2
    rw [hlast, Option.map_some, Option.getD_some, (hpc last hlast').1]
    exact (hpc k hk).2
  have hblocked : ∀ k, w.laneBlocked k = (v.laneBlocked k || deferred k) := by
    intro k
    rw [← hw, ← hd]
    rfl
  have hlanes : w.lanes = (v.issue c op_index group_pc).lanes := by
    rw [← hw]
    rfl
  obtain ⟨frame, hframe, hmask, hchosen⟩ := hstack
  have hholders : ∀ k, w.holders k = v.holders k + if deferred k = true then 1 else 0 := by
    intro k
    unfold VIR.holders
    rw [hframe, countP_cons, hmask]
  have hfree : ∀ k, deferred k = true → v.holders k = 0 := by
    intro k hk
    obtain ⟨_, hblk, _, hactive⟩ := hdeferred k hk
    have hnot : ¬ v.holders k = 1 := by
      rw [← h.blocked k hactive, hblk]
      exact Bool.false_ne_true
    have hone := h.once k
    omega
  constructor
  · rw [hframe, length_cons]
    exact hroom
  · intro k
    rw [hholders]
    by_cases hk : deferred k = true
    · rw [if_pos hk, hfree k hk]
    · rw [if_neg hk]
      exact h.once k
  · intro k hk
    rw [hlanes] at hk
    rw [hblocked, hholders]
    by_cases hdef : deferred k = true
    · rw [if_pos hdef, hfree k hdef, hdef]
      simp
    · rw [if_neg hdef, Nat.add_zero, ← h.blocked k (active_of_issue hk)]
      simp [hdef]
  · rw [hframe, hlanes]
    refine .cons (fun k hk _ => ?_) hissue.choices
    rw [hmask] at hk
    exact hchosen k hk

/-! ### Turns -/

theorem Stacked.turn (h : Stacked v g) (hok : splitsGroup c v = true) :
    Stacked (turn c v).state (follow c v g) := by
  have hu := h.popFrame
  unfold splitsGroup pushes issuing at hok
  unfold Continuation.turn follow pushes issuing
  dsimp only
  generalize v.popFrame = u at hu hok
  generalize (if v.popping then g.tail else g) = g' at hu
  cases hlead : u.leader with
  | none => exact hu
  | some l =>
    rw [hlead] at hok
    dsimp only at hok ⊢
    cases hf : c.find (u.lanes l).window (u.lanes l).lanePC with
    | none => exact hu.terminate
    | some found =>
      obtain ⟨op_index, w⟩ := found
      rw [hf] at hok
      dsimp only at hok ⊢
      by_cases hwait : ((c.uop op_index).conditional &&
          !(u.slide l w).branchReady (u.lanes l).lanePC) = true
      · rw [if_pos hwait, if_pos hwait]
        exact hu.slide l w
      rw [if_neg hwait] at hok
      rw [if_neg hwait, if_neg hwait]
      have hs := hu.slide l w
      generalize u.slide l w = s at hs hok
      generalize (u.lanes l).lanePC = group_pc at hok
      unfold issueGroup
      by_cases hdiverges : s.diverges (c.uop op_index) group_pc = true
      · by_cases hroom : ReconvergenceEntries ≤ s.stack.length
        · have hnone : Option.filter (fun x => x.1.diverges (c.uop x.2.1) x.2.2 &&
              decide (x.1.stack.length < ReconvergenceEntries)) (some (s, op_index, group_pc)) =
                none := by
            simpa using fun _ => hroom
          rw [if_pos hdiverges, if_pos hroom, hnone]
          exact hs.issue op_index group_pc
        · have hsome : Option.filter (fun x => x.1.diverges (c.uop x.2.1) x.2.2 &&
              decide (x.1.stack.length < ReconvergenceEntries)) (some (s, op_index, group_pc)) =
                some (s, op_index, group_pc) := by
            simp [hdiverges, Nat.lt_of_not_le hroom]
          rw [hsome] at hok ⊢
          rw [if_pos hdiverges, if_neg hroom]
          have hcond : (c.uop op_index).conditional = true := by
            unfold VIR.diverges at hdiverges
            simp only [Bool.and_eq_true] at hdiverges
            exact hdiverges.1.1
          exact hs.split hcond (Nat.lt_of_not_le hroom) (of_decide_eq_true hok)
      · have hnone : Option.filter (fun x => x.1.diverges (c.uop x.2.1) x.2.2 &&
            decide (x.1.stack.length < ReconvergenceEntries)) (some (s, op_index, group_pc)) =
              none := by
          simp [hdiverges]
        rw [if_neg hdiverges, hnone]
        exact hs.issue op_index group_pc

theorem Stacked.move {x : VIR n × Choices n} (h : Stacked x.1 x.2) (e : Event n)
    (hok : guarded c x e) : Stacked (Continuation.move c x e).1 (Continuation.move c x e).2 := by
  cases e with
  | arrive lane value => exact h.arrive lane value
  | turn => exact h.turn hok

theorem stacked_initial (c : Context) (n : Nat) (initial_regs : Fin 32 → RegVal) :
    Stacked (initializeSourceContinuation c n initial_regs) [] := by
  have hempty : ∀ v : VIR n, v.stack = [] → (∀ k, v.laneBlocked k = false) → Stacked v [] := by
    intro v hstack hblocked
    have hholders : ∀ k, v.holders k = 0 := by
      intro k
      unfold VIR.holders
      rw [hstack]
      rfl
    constructor
    · rw [hstack]
      exact Nat.zero_le _
    · intro k
      rw [hholders]
      exact Nat.zero_le _
    · intro k _
      rw [hblocked, hholders]
      exact iff_of_false Bool.false_ne_true Nat.zero_ne_one
    · rw [hstack]
      exact .nil
  unfold initializeSourceContinuation
  split
  · exact hempty _ rfl fun _ => rfl
  · exact hempty _ rfl fun _ => rfl

theorem Stacked.represents (h : Stacked v g) : Represents v g where
  depth := h.depth
  disjoint := pairwise_of_once h.once
  blocked := h.blocked
  resumes := by
    intro hpop
    rcases popFrame_eq v with ⟨hno, _⟩ | ⟨top, rest, hstack, _, heq⟩
    · rw [hno] at hpop
      exact Bool.noConfusion hpop
    have hchoices := h.choices
    rw [hstack] at hchoices
    cases hchoices with
    | @cons _ choice _ _ htop _ =>
      refine ⟨top, by rw [hstack]; rfl, choice, rfl, fun k hk hactive => ?_⟩
      rw [htop k hk hactive, heq]
      dsimp only
      rw [if_pos hk]

/-- For every template, number of lanes, snapshot and sequence of calls: if no split of the run takes
    a lane that is not of its group or is blocked already, the stack stands for the lanes in every
    state on the way, inside the calls and between them. -/
theorem stack_represents (c : Context) (initial_regs : Fin 32 → RegVal)
    (calls : List (Fin n × RegVal))
    (hok : Trace.Admits (guarded c) (move c) (initializeSourceContinuation c n initial_regs, [])
      (runEvents c (initializeSourceContinuation c n initial_regs) calls))
    (es : List (Event n))
    (hes : es <+: runEvents c (initializeSourceContinuation c n initial_regs) calls) :
    Represents (es.foldl (move c) (initializeSourceContinuation c n initial_regs, [])).1
      (es.foldl (move c) (initializeSourceContinuation c n initial_regs, [])).2 := by
  obtain ⟨rest, hrest⟩ := hes
  rw [← hrest] at hok
  have hbefore := ((Trace.admits_append _ es rest).mp hok).1
  exact (hbefore.invariant (fun x => Stacked x.1 x.2) (fun x e hx hg => hx.move e hg)
    (stacked_initial c n initial_regs)).represents

/-- The two lanes of the diamond. -/
theorem stack_represents_diamond :
    let v := initializeSourceContinuation diamond 2 fun _ => 0
    let calls : List (Fin 2 × RegVal) := [(0, 0), (1, 1)]
    Represents ((runEvents diamond v calls).foldl (move diamond) (v, [])).1
      ((runEvents diamond v calls).foldl (move diamond) (v, [])).2 :=
  stack_represents diamond (fun _ => 0) [(0, 0), (1, 1)] (by decide) _ prefix_rfl

/-- `ld x5`; `beq x5, x0`; `bltu x5, x7`; and three more uops. -/
def nestedBranches : Context where
  source :=
    [{ pc := 0x10, load := true, semantic := .LoadDouble, source0 := some 6, destination := some 5 },
     { pc := 0x14, control := true, conditional := true, tainted := true, semantic := .BranchEqual,
       source0 := some 5, branchTargetPC := 0x20, fallthroughPC := 0x18, reconvergencePC := 0x24 },
     { pc := 0x18, control := true, conditional := true, tainted := true,
       semantic := .BranchUnsignedLess, source0 := some 5, source1 := some 7,
       branchTargetPC := 0x20, fallthroughPC := 0x1c, reconvergencePC := 0x24 },
     { pc := 0x1c, semantic := .AddImmediate, source0 := some 5, destination := some 8 },
     { pc := 0x20, semantic := .AddImmediate, source0 := some 5, destination := some 9 },
     { pc := 0x24, semantic := .AddImmediate, source0 := some 5, destination := some 10 }]
  continuationContinuePastFLR := true
  source_destination := some 5
  max_helper_uops := 16

/-- Lane 2 takes the first branch and is blocked; at the second branch lane 0 takes it, and lane 2, which
    is not there, is deferred with lane 1: two frames hold it. -/
theorem stack_not_represents_nested :
    let v := initializeSourceContinuation nestedBranches 3 fun r => if r = 7 then 2 else 0
    let calls : List (Fin 3 × RegVal) := [(0, 1), (1, 2), (2, 0)]
    ¬ ∀ es, es <+: runEvents nestedBranches v calls →
      Represents (es.foldl (move nestedBranches) (v, [])).1
        (es.foldl (move nestedBranches) (v, [])).2 := by
  intro v calls h
  have hrep := h _ ( take_prefix 7 _)
  have hone := (hrep.blocked 2 (by decide)).mp (by decide)
  exact absurd hone (by decide)

end Gem5Dvr.Continuation
