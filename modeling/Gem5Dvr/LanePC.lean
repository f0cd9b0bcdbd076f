/-
  The vector pass over a captured program (`DVRVectorInstructionRegister::executeLanePC`,
  `cpu/o3/pre.cc` 1257-1561, with `execute` 1563-1569).

    1. **Program** — every lane has its own PC; a turn pops a frame, looks for the uop of the first lane
       that may issue, executes it on all lanes at that PC and splits them at a branch.
    2. **Reference** — `advance`: the walk of one lane along the recorded outcomes.  It reads the
       program only.
    3. From the entry (`start_index` 0) branches follow their recorded outcome and all lanes start
       alike, so they stay alike (`Alike`), and what is counted of each is what the walk meets.

  The crux: a direct jump back to the entry is counted as a normal termination, but the lane goes on.

  What is kept of `Result`: the four lane counters, as what each lane was counted for, in order; the
  number of lanes, `helperUops` and the two flags.  `activeMask` repeats `lane_active`.
-/
import Gem5Dvr.Continuation

namespace Gem5Dvr.LanePC

open List Function

open Continuation (Lane Window ReconvergenceEntry FrontEndBufferUops ReconvergenceEntries)

/-! ## Program -/

/-- What a lane is counted for. -/
inductive Cause
  | backToEntry | indirectReturn | endOfProgram
  | earlyExit
  | externalPath | notEvaluated
  | unsupportedSemantic
  deriving DecidableEq, Repr

/-- The four counters of `Result`. -/
inductive Counter
  | normalTerminatedLanes | earlyExitLanes | externalPathLanes | unsupportedSemanticLanes
  deriving DecidableEq, Repr

/-- The counter that is bumped. -/
def Cause.counter : Cause → Counter
  | .backToEntry | .indirectReturn | .endOfProgram => .normalTerminatedLanes
  | .earlyExit => .earlyExitLanes
  | .externalPath | .notEvaluated => .externalPathLanes
  | .unsupportedSemantic => .unsupportedSemanticLanes

/-- The lane is taken out of the active mask. -/
def Cause.clears : Cause → Bool
  | .indirectReturn | .externalPath | .unsupportedSemantic => true
  | _ => false

/-- `program[i]`. -/
def uop (program : List Uop) (i : Nat) : Uop := program.getD i {}

/-- `op_index + 1 < program.size() ? program[op_index + 1].pc : 0`. -/
def successor (program : List Uop) (op_index : Nat) : Addr :=
  if op_index + 1 < program.length then (uop program (op_index + 1)).pc else 0

/-- The window of a lane at a uop. -/
def windowAt (program : List Uop) (op_index : Nat) : Window :=
  ⟨op_index, min (op_index + FrontEndBufferUops) program.length⟩

/-- Where a lane finds the uop at `pc`: in its window, or anywhere, and then the window moves. -/
def find (program : List Uop) (w : Window) (pc : Addr) : Option (Nat × Window) :=
  match (range' w.laneWindowStart (w.laneWindowEnd - w.laneWindowStart)).find?
      (fun candidate => (uop program candidate).pc == pc) with
  | some candidate => some (candidate, w)
  | none =>
    ((List.range program.length).find? fun candidate => (uop program candidate).pc == pc).map
      fun candidate => (candidate, windowAt program candidate)

/-- `lane_taken`: the recorded outcome, recomputed in a continuation. -/
def laneTaken (start_index : Nat) (op : Uop) (regs : Fin 32 → RegVal) : Bool :=
  if op.tainted && start_index != 0 then
    (op.evaluateBranch (Uop.operand regs op.source0) (Uop.operand regs op.source1)).getD op.branchTaken
  else op.branchTaken

/-- The PC after a conditional branch. -/
def branchNext (program : List Uop) (op_index : Nat) (lane_taken : Bool) : Addr :=
  let op := uop program op_index
  if lane_taken then op.branchTargetPC
  else if op.fallthroughPC ≠ 0 then op.fallthroughPC else successor program op_index

/-- The uop on one lane, and what the lane is counted for. -/
def executeLane (program : List Uop) (start_index op_index : Nat) (lane : Lane) : Lane × List Cause :=
  let op := uop program op_index
  let lhs := Uop.operand lane.vectorRegs op.source0
  let rhs := Uop.operand lane.vectorRegs op.source1
  let next := successor program op_index
  let ended := if next = 0 then [Cause.endOfProgram] else []
  if op.conditional then
    let unknown := op.tainted && start_index != 0 && (op.evaluateBranch lhs rhs).isNone
    let next := branchNext program op_index (laneTaken start_index op lane.vectorRegs)
    ({ lane with lanePC := next },
      (if unknown then [Cause.notEvaluated] else []) ++ if next = 0 then [Cause.earlyExit] else [])
  else if op.control && op.branchTargetPC != 0 then
    ({ lane with lanePC := op.branchTargetPC },
      if op.branchTargetPC = (uop program 0).pc then [.backToEntry] else [])
  else if op.control && op.intDestinations == 0 then
    ({ lane with laneActive := false }, [.indirectReturn])
  else if op.stateless then ({ lane with lanePC := next }, ended)
  else
    match op.evaluate lhs rhs with
    | none => ({ lane with laneActive := false }, [.unsupportedSemantic])
    | some value =>
      let regs := match op.destination with
        | some r => update lane.vectorRegs r value
        | none => lane.vectorRegs
      ({ lane with vectorRegs := regs, lanePC := next }, ended)

/-- The lanes, the reconvergence stack with its top first, and what has been counted. -/
structure Walk (n : Nat) where
  lanes : Fin n → Lane
  laneBlocked : Fin n → Bool := fun _ => false
  stack : List (ReconvergenceEntry n) := []
  counted : Fin n → List Cause := fun _ => []
  helperUops : Nat := 0

namespace Walk

variable {n : Nat} (s : Walk n)

def runnable (k : Fin n) : Bool := (s.lanes k).laneActive && !s.laneBlocked k

/-- The top frame is popped. -/
def pops (top : ReconvergenceEntry n) : Bool :=
  let selected := (finRange n).filter s.runnable
  selected.any (fun k => (s.lanes k).lanePC == top.pc) || selected.isEmpty

/-- The frame pop; with the PC that is preferred after it. -/
def popFrame : Walk n × Option Addr :=
  match s.stack with
  | [] => (s, none)
  | top :: rest =>
    if s.pops top then
      let s := { s with
        lanes := fun k =>
          if top.deferredMask k then { s.lanes k with lanePC := top.deferredPC } else s.lanes k
        laneBlocked := fun k => s.laneBlocked k && !top.deferredMask k
        stack := rest }
      (s, ((finRange n).find? fun k => s.runnable k && (s.lanes k).lanePC != 0).map
        fun k => (s.lanes k).lanePC)
    else (s, none)

/-- The loop that looks for the first lane with a uop; a lane without one leaves the program. -/
def select (program : List Uop) (resumed : Option Addr) :
    List (Fin n) → Walk n → Walk n × Option (Nat × Addr)
  | [], s => (s, none)
  | k :: ks, s =>
    let lane := s.lanes k
    if !s.runnable k || resumed.any (· != lane.lanePC) then select program resumed ks s
    else
      match find program lane.window lane.lanePC with
      | some (op_index, w) =>
        ({ s with lanes := update s.lanes k { lane with window := w } },
          some (op_index, lane.lanePC))
      | none =>
        select program resumed ks
          { s with
            lanes := update s.lanes k { lane with laneActive := false }
            counted := if lane.lanePC ≠ 0 then
                update s.counted k (s.counted k ++ [.externalPath])
              else s.counted }

/-- `executing`; `laneBlocked` is not asked. -/
def executing (group_pc : Addr) (k : Fin n) : Bool :=
  (s.lanes k).laneActive && (s.lanes k).lanePC == group_pc

/-- `taken_lanes`. -/
def taken (start_index : Nat) (op : Uop) (group_pc : Addr) (k : Fin n) : Bool :=
  s.executing group_pc k && laneTaken start_index op (s.lanes k).vectorRegs

/-- The uop on every lane of the group. -/
def issue (program : List Uop) (start_index op_index : Nat) (group_pc : Addr) : Walk n :=
  { s with
    lanes := fun k =>
      if s.executing group_pc k then (executeLane program start_index op_index (s.lanes k)).1
      else s.lanes k
    counted := fun k =>
      if s.executing group_pc k then
        s.counted k ++ (executeLane program start_index op_index (s.lanes k)).2
      else s.counted k }

/-- `has_taken && has_fallthrough`. -/
def diverges (start_index : Nat) (op : Uop) (group_pc : Addr) : Bool :=
  let group := (finRange n).filter (s.executing group_pc)
  op.conditional && group.any (s.taken start_index op group_pc) &&
    group.any fun k => !s.taken start_index op group_pc k

/-- The push, on the state after the group has issued. -/
def split (op : Uop) (executing taken_lanes : Fin n → Bool) : Walk n :=
  let first_path_taken := (((finRange n).filter executing).head?.map taken_lanes).getD false
  let deferred := fun k => executing k && taken_lanes k != first_path_taken
  { s with
    laneBlocked := fun k => s.laneBlocked k || deferred k
    stack :=
      { deferredMask := deferred
        deferredPC :=
          (((finRange n).filter deferred).getLast?.map fun k => (s.lanes k).lanePC).getD 0
        pc := if op.reconvergencePC ≠ 0 then op.reconvergencePC else op.fallthroughPC } :: s.stack }

/-- `any_active`. -/
def anyActive : Bool := (finRange n).any fun k => (s.lanes k).laneActive && (s.lanes k).lanePC != 0

end Walk

/-- How a turn ends. -/
inductive Turn (n : Nat)
  | next (s : Walk n)
  | leave (s : Walk n)
  | overflow (s : Walk n)

variable {n : Nat}

/-- The end of a turn. -/
def finish (s : Walk n) : Turn n :=
  let s := { s with helperUops := s.helperUops + 1 }
  if !s.anyActive && s.stack.isEmpty then .leave s else .next s

/-- One turn of the loop. -/
def turn (program : List Uop) (start_index : Nat) (s : Walk n) : Turn n :=
  let (s, resumed) := s.popFrame
  match s.select program resumed (finRange n) with
  | (s, none) => .leave s
  | (s, some (op_index, group_pc)) =>
    let op := uop program op_index
    let s' := s.issue program start_index op_index group_pc
    if s.diverges start_index op group_pc then
      if ReconvergenceEntries ≤ s.stack.length then .overflow s'
      else finish (s'.split op (s.executing group_pc) (s.taken start_index op group_pc))
    else finish s'

/-- `Result`, of `n` lanes. -/
structure Result (n : Nat) where
  activeLanes : Nat := 0
  helperUops : Nat := 0
  counted : Fin n → List Cause := fun _ => []
  activeMask : Fin n → Bool := fun _ => false
  timedOut : Bool := false
  stackOverflow : Bool := false

def Walk.result (s : Walk n) : Result n where
  activeLanes := n
  helperUops := s.helperUops
  counted := s.counted
  activeMask := fun k => (s.lanes k).laneActive

/-- The result past the test for the time-out. -/
def Walk.close (s : Walk n) (max_helper_uops : Nat) : Result n :=
  { s.result with timedOut := decide (max_helper_uops ≤ s.helperUops) && s.anyActive }

/-- The loop. -/
def loop (program : List Uop) (start_index max_helper_uops : Nat) : Nat → Walk n → Result n
  | 0, s => s.close max_helper_uops
  | steps + 1, s =>
    match turn program start_index s with
    | .next s => loop program start_index max_helper_uops steps s
    | .leave s => s.close max_helper_uops
    | .overflow s => { s.result with stackOverflow := true }

/-- `executeLanePC`, with `n` for `std::min(lanes, 128U)`. -/
def executeLanePC (program : List Uop) (n max_helper_uops : Nat) (initial_regs : Fin 32 → RegVal)
    (start_index : Nat) (source_destination : Option (Fin 32)) (source_value : RegVal) : Result n :=
  if program.length ≤ start_index ∨ n = 0 ∨ max_helper_uops = 0 then {}
  else
    let regs := match source_destination with
      | some r => update initial_regs r source_value
      | none => initial_regs
    loop program start_index max_helper_uops max_helper_uops
      { lanes := fun _ =>
          { laneActive := true
            lanePC := (uop program start_index).pc
            window := windowAt program start_index
            vectorRegs := regs } }

def execute (program : List Uop) (lanes max_helper_uops : Nat) (initial_regs : Fin 32 → RegVal) :
    Result (min lanes 128) :=
  executeLanePC program (min lanes 128) max_helper_uops initial_regs 0 none 0

/-! ## The walk of one lane -/

/-- Where a lane is. -/
structure Point where
  pc : Addr
  window : Window

/-- A lane goes on, perhaps by a jump back to the entry, or it ends. -/
inductive Advance
  | goto (x : Point) (back : Bool)
  | ends (cause : Cause)

/-- One uop of the walk along the recorded outcomes. -/
def advance (program : List Uop) (x : Point) : Advance :=
  match find program x.window x.pc with
  | none => .ends .externalPath
  | some (op_index, w) =>
    let op := uop program op_index
    let next := successor program op_index
    if op.conditional then
      let next := branchNext program op_index op.branchTaken
      if next = 0 then .ends .earlyExit else .goto ⟨next, w⟩ false
    else if op.control && op.branchTargetPC != 0 then
      .goto ⟨op.branchTargetPC, w⟩ (op.branchTargetPC == (uop program 0).pc)
    else if op.control && op.intDestinations == 0 then .ends .indirectReturn
    else if op.stateless || (op.evaluate 0 0).isSome then
      if next = 0 then .ends .endOfProgram else .goto ⟨next, w⟩ false
    else .ends .unsupportedSemantic

/-- The entry of the program. -/
def entry (program : List Uop) : Point := ⟨(uop program 0).pc, windowAt program 0⟩

/-- How often the walk jumps back to the entry. -/
def entryJumps (program : List Uop) : Nat → Point → Nat
  | 0, _ => 0
  | steps + 1, x =>
    match advance program x with
    | .goto y back => back.toNat + entryJumps program steps y
    | .ends _ => 0

/-- How the walk ends, if it does. -/
def ending (program : List Uop) : Nat → Point → Option Cause
  | 0, _ => none
  | steps + 1, x =>
    match advance program x with
    | .goto y _ => ending program steps y
    | .ends cause => some cause

/-! ### One uop -/

variable {program : List Uop}

/-- Whether an operation can be evaluated does not depend on its operands. -/
theorem evaluate_isSome (u : Uop) (a b : RegVal) : (u.evaluate a b).isSome = (u.evaluate 0 0).isSome := by
  unfold Uop.evaluate
  cases u.semantic <;>
    simp only [apply_ite Option.isSome, Option.isSome_some, Option.isSome_none, ite_self]

theorem laneTaken_zero (op : Uop) (regs : Fin 32 → RegVal) : laneTaken 0 op regs = op.branchTaken := by
  simp [laneTaken]

/-- A uop on a lane does what the walk does. -/
theorem executeLane_advance {x : Point} {op_index : Nat} {w : Window}
    (hf : find program x.window x.pc = some (op_index, w)) (lane : Lane)
    (hactive : lane.laneActive = true) :
    match advance program x with
    | .goto y back => y.window = w ∧ (executeLane program 0 op_index lane).1.laneActive = true ∧
        (executeLane program 0 op_index lane).1.lanePC = y.pc ∧
        (executeLane program 0 op_index lane).2 = if back then [Cause.backToEntry] else []
    | .ends cause =>
        (executeLane program 0 op_index lane).1.laneActive = !cause.clears ∧
        ((executeLane program 0 op_index lane).1.laneActive = true →
          (executeLane program 0 op_index lane).1.lanePC = 0) ∧
        (executeLane program 0 op_index lane).2 = [cause] := by
  unfold advance executeLane
  rw [hf]
  dsimp only
  by_cases hcond : (uop program op_index).conditional = true
  · rw [if_pos hcond, if_pos hcond, laneTaken_zero]
    by_cases hnext : branchNext program op_index (uop program op_index).branchTaken = 0
    · rw [if_pos hnext]
      simp [hactive, hnext, Cause.clears]
    · rw [if_neg hnext]
      simpa [hactive] using hnext
  rw [if_neg hcond, if_neg hcond]
  by_cases hjump : ((uop program op_index).control && (uop program op_index).branchTargetPC != 0) = true
  · rw [if_pos hjump, if_pos hjump]
    simp [hactive]
  rw [if_neg hjump, if_neg hjump]
  by_cases hret : ((uop program op_index).control && (uop program op_index).intDestinations == 0) = true
  · rw [if_pos hret, if_pos hret]
    simp [Cause.clears]
  rw [if_neg hret, if_neg hret]
  by_cases hless : (uop program op_index).stateless = true
  · rw [if_pos hless, hless, Bool.true_or, if_pos rfl]
    by_cases hnext : successor program op_index = 0
    · rw [if_pos hnext]
      simp [hactive, hnext, Cause.clears]
    · rw [if_neg hnext]
      simpa [hactive] using hnext
  have hsome := evaluate_isSome (uop program op_index)
    (Uop.operand lane.vectorRegs (uop program op_index).source0)
    (Uop.operand lane.vectorRegs (uop program op_index).source1)
  rw [Bool.not_eq_true] at hless
  rw [← hsome, hless, Bool.false_or]
  cases (uop program op_index).evaluate (Uop.operand lane.vectorRegs (uop program op_index).source0)
      (Uop.operand lane.vectorRegs (uop program op_index).source1) with
  | none => simp [Cause.clears]
  | some value =>
    by_cases hnext : successor program op_index = 0
    · rw [if_pos hnext]
      simp [hactive, hnext, Cause.clears]
    · rw [if_neg hnext]
      simpa [hactive] using hnext

/-- Lanes with the same registers keep the same registers. -/
theorem executeLane_regs {op_index : Nat} {lane lane' : Lane}
    (h : lane.vectorRegs = lane'.vectorRegs) :
    (executeLane program 0 op_index lane).1.vectorRegs =
      (executeLane program 0 op_index lane').1.vectorRegs := by
  unfold executeLane
  rw [h]
  dsimp only
  split
  · rfl
  split
  · rfl
  split
  · rfl
  split
  · rfl
  split <;> rfl

/-- A uop does not move the window. -/
theorem executeLane_window (op_index : Nat) (lane : Lane) :
    (executeLane program 0 op_index lane).1.window = lane.window := by
  unfold executeLane
  dsimp only
  split
  · rfl
  split
  · rfl
  split
  · rfl
  split
  · rfl
  split <;> rfl

/-- After a jump or a fall-through the walk is at a PC. -/
theorem pc_ne_zero {x y : Point} {back : Bool} (h : advance program x = .goto y back) : y.pc ≠ 0 := by
  unfold advance at h
  cases hf : find program x.window x.pc with
  | none =>
    rw [hf] at h
    exact nomatch h
  | some found =>
    rw [hf] at h
    dsimp only at h
    split at h
    · split at h
      · exact nomatch h
      next hnext =>
        obtain ⟨rfl, _⟩ := Advance.goto.inj h
        exact hnext
    split at h
    next hjump =>
      obtain ⟨rfl, _⟩ := Advance.goto.inj h
      simp only [Bool.and_eq_true, bne_iff_ne] at hjump
      exact hjump.2
    split at h
    · exact nomatch h
    split at h
    · split at h
      · exact nomatch h
      next hnext =>
        obtain ⟨rfl, _⟩ := Advance.goto.inj h
        exact hnext
    · exact nomatch h

/-! ## All lanes walk alike -/

section

variable {m : Nat} {s : Walk (m + 1)} {x : Point} {L : List Cause}

/-- Every lane is where the walk is, with the same registers and the same counts; the first lane has the
    walk's window. -/
structure Alike (program : List Uop) (x : Point) (L : List Cause) (s : Walk (m + 1)) : Prop where
  active : ∀ k, (s.lanes k).laneActive = true
  pc : ∀ k, (s.lanes k).lanePC = x.pc
  regs : ∀ j k, (s.lanes j).vectorRegs = (s.lanes k).vectorRegs
  leader : (s.lanes 0).window = x.window
  bound : ∀ k, (s.lanes k).window.laneWindowEnd ≤ program.length
  released : ∀ k, s.laneBlocked k = false
  stack : s.stack = []
  counted : ∀ k, s.counted k = L

/-- Every lane has ended. -/
structure Ended (cause : Cause) (L : List Cause) (s : Walk (m + 1)) : Prop where
  active : ∀ k, (s.lanes k).laneActive = !cause.clears
  idle : s.anyActive = false
  counted : ∀ k, s.counted k = L ++ [cause]

/-- A window that moves stays in the program. -/
theorem find_bound {w w' : Window} {pc : Addr} {op_index : Nat}
    (hf : find program w pc = some (op_index, w')) (hw : w.laneWindowEnd ≤ program.length) :
    w'.laneWindowEnd ≤ program.length := by
  unfold find at hf
  split at hf
  · obtain ⟨_, rfl⟩ := Prod.mk.inj (Option.some.inj hf)
    exact hw
  · obtain ⟨i, _, hi⟩ := Option.map_eq_some_iff.mp hf
    obtain ⟨_, rfl⟩ := Prod.mk.inj hi
    exact Nat.min_le_right _ _

/-- What one lane does not find in the whole program no lane finds. -/
theorem find_none {w w' : Window} {pc : Addr} (hf : find program w pc = none)
    (hw : w'.laneWindowEnd ≤ program.length) : find program w' pc = none := by
  have hall : ∀ i < program.length, (uop program i).pc ≠ pc := by
    unfold find at hf
    split at hf
    · exact nomatch hf
    · intro i hi
      rw [Option.map_eq_none_iff, find?_eq_none] at hf
      simpa using hf i (mem_range.mpr hi)
  unfold find
  have hwindow : (range' w'.laneWindowStart (w'.laneWindowEnd - w'.laneWindowStart)).find?
      (fun candidate => (uop program candidate).pc == pc) = none := by
    rw [find?_eq_none]
    intro i hi
    have hmem := mem_range'_1.mp hi
    simpa using hall i (by omega)
  have hrange : (List.range program.length).find?
      (fun candidate => (uop program candidate).pc == pc) = none := by
    rw [find?_eq_none]
    intro i hi
    simpa using hall i (mem_range.mp hi)
  rw [hwindow, hrange]
  rfl

/-- No lane finds a uop: all of them leave the program. -/
theorem select_none {n : Nat} (ks : List (Fin n)) (hnodup : ks.Nodup) (s : Walk n)
    (hall : ∀ k ∈ ks, s.runnable k = true ∧ (s.lanes k).lanePC ≠ 0 ∧
      find program (s.lanes k).window (s.lanes k).lanePC = none) :
    ∃ s', s.select program none ks = (s', none) ∧
      (∀ k ∈ ks, s'.lanes k = { s.lanes k with laneActive := false } ∧
        s'.counted k = s.counted k ++ [.externalPath]) ∧
      (∀ k ∉ ks, s'.lanes k = s.lanes k ∧ s'.counted k = s.counted k) ∧
      s'.stack = s.stack ∧ s'.laneBlocked = s.laneBlocked ∧ s'.helperUops = s.helperUops := by
  induction ks generalizing s with
  | nil =>
    exact ⟨s, rfl, fun k hk => absurd hk not_mem_nil, fun _ _ => ⟨rfl, rfl⟩, rfl, rfl, rfl⟩
  | cons k ks ih =>
    obtain ⟨hk, hnodup⟩ := nodup_cons.mp hnodup
    obtain ⟨hrun, hpc, hf⟩ := hall k mem_cons_self
    unfold Walk.select
    dsimp only
    rw [hrun, Bool.not_true, Bool.false_or, Option.any_none, if_neg Bool.false_ne_true, hf,
      if_pos hpc]
    have hother : ∀ j ∈ ks, j ≠ k := fun j hj heq => hk (heq ▸ hj)
    obtain ⟨s', hs', hin, hout, hkept⟩ := ih hnodup
      { s with
        lanes := update s.lanes k { s.lanes k with laneActive := false }
        counted := update s.counted k (s.counted k ++ [.externalPath]) }
      (fun j hj => by
        have hj' := hall j (mem_cons_of_mem _ hj)
        unfold Walk.runnable at hj' ⊢
        dsimp only at hj' ⊢
        rw [update_of_ne (hother j hj)]
        exact hj')
    refine ⟨s', hs', fun j hj => ?_, fun j hj => ?_, hkept⟩
    · rcases mem_cons.mp hj with rfl | hj
      · obtain ⟨hlane, hcounted⟩ := hout j hk
        dsimp only at hlane hcounted
        rw [update_self] at hlane hcounted
        exact ⟨hlane, hcounted⟩
      · obtain ⟨hlane, hcounted⟩ := hin j hj
        dsimp only at hlane hcounted
        rw [update_of_ne (hother j hj)] at hlane hcounted
        exact ⟨hlane, hcounted⟩
    · obtain ⟨hne, hj⟩ := not_or.mp (fun h => hj (mem_cons.mpr h))
      obtain ⟨hlane, hcounted⟩ := hout j hj
      dsimp only at hlane hcounted
      rw [update_of_ne hne] at hlane hcounted
      exact ⟨hlane, hcounted⟩

/-- The first lane finds its uop, and its window moves. -/
theorem Alike.select_some (h : Alike program x L s) {op_index : Nat} {w : Window}
    (hf : find program x.window x.pc = some (op_index, w)) :
    s.select program none (finRange (m + 1)) =
      ({ s with lanes := update s.lanes 0 { s.lanes 0 with window := w } },
        some (op_index, x.pc)) := by
  have hrun : s.runnable 0 = true := by
    unfold Walk.runnable
    rw [h.active, h.released]
    rfl
  rw [finRange_succ]
  unfold Walk.select
  dsimp only
  rw [hrun, Bool.not_true, Bool.false_or, Option.any_none, if_neg Bool.false_ne_true, h.leader, h.pc,
    hf]

theorem Alike.slide (h : Alike program x L s) {w : Window} (hw : w.laneWindowEnd ≤ program.length) :
    Alike program ⟨x.pc, w⟩ L
      { s with lanes := update s.lanes 0 { s.lanes 0 with window := w } } := by
  have hlane : ∀ k, ∃ w', w'.laneWindowEnd ≤ program.length ∧
      update s.lanes 0 { s.lanes 0 with window := w } k = { s.lanes k with window := w' } := by
    intro k
    by_cases hk : k = 0
    · subst hk
      exact ⟨w, hw, update_self _ _ _⟩
    · exact ⟨(s.lanes k).window, h.bound k, by rw [update_of_ne hk]⟩
  constructor
  · intro k
    obtain ⟨w', _, heq⟩ := hlane k
    show (update s.lanes 0 _ k).laneActive = true
    rw [heq]
    exact h.active k
  · intro k
    obtain ⟨w', _, heq⟩ := hlane k
    show (update s.lanes 0 _ k).lanePC = x.pc
    rw [heq]
    exact h.pc k
  · intro j k
    obtain ⟨wj, _, hj⟩ := hlane j
    obtain ⟨wk, _, hk⟩ := hlane k
    show (update s.lanes 0 _ j).vectorRegs = (update s.lanes 0 _ k).vectorRegs
    rw [hj, hk]
    exact h.regs j k
  · show (update s.lanes 0 { s.lanes 0 with window := w } 0).window = w
    rw [update_self]
  · intro k
    obtain ⟨w', hw', heq⟩ := hlane k
    show (update s.lanes 0 _ k).window.laneWindowEnd ≤ program.length
    rw [heq]
    exact hw'
  · exact h.released
  · exact h.stack
  · exact h.counted

/-- No branch splits lanes that are alike. -/
theorem Alike.not_diverges (h : Alike program x L s) (op : Uop) : s.diverges 0 op x.pc = false := by
  have htaken : ∀ k, s.taken 0 op x.pc k = op.branchTaken := by
    intro k
    unfold Walk.taken Walk.executing
    rw [h.active, h.pc, laneTaken_zero]
    simp
  unfold Walk.diverges
  dsimp only
  cases hrecorded : op.branchTaken with
  | true =>
    have hno : ((finRange (m + 1)).filter (s.executing x.pc)).any
        (fun k => !s.taken 0 op x.pc k) = false := by
      rw [any_eq_false]
      intro k _
      rw [htaken, hrecorded]
      exact Bool.false_ne_true
    rw [hno, Bool.and_false]
  | false =>
    have hno : ((finRange (m + 1)).filter (s.executing x.pc)).any (s.taken 0 op x.pc) = false := by
      rw [any_eq_false]
      intro k _
      rw [htaken, hrecorded]
      exact Bool.false_ne_true
    rw [hno, Bool.and_false, Bool.false_and]

/-- One turn follows one uop of the walk. -/
theorem Alike.turn (h : Alike program x L s)
    (hat : x.pc ≠ 0 ∨ (find program x.window x.pc).isSome) :
    match advance program x with
    | .goto y back => ∃ s', turn program 0 s = .next s' ∧
        Alike program y (L ++ if back then [Cause.backToEntry] else []) s' ∧
          s'.helperUops = s.helperUops + 1
    | .ends cause => ∃ s', turn program 0 s = .leave s' ∧ Ended cause L s' := by
  have hpop : s.popFrame = (s, none) := by
    unfold Walk.popFrame
    rw [h.stack]
  have hexternal : find program x.window x.pc = none → advance program x = .ends .externalPath := by
    intro hf
    unfold advance
    rw [hf]
  cases hf : find program x.window x.pc with
  | none =>
    have hpc : x.pc ≠ 0 := by
      rcases hat with hpc | hsome
      · exact hpc
      · rw [hf] at hsome
        exact Bool.noConfusion hsome
    obtain ⟨s', hs', hin, -⟩ := select_none (finRange (m + 1)) (nodup_finRange _) s (fun k _ => by
        unfold Walk.runnable
        rw [h.active, h.released, h.pc]
        exact ⟨rfl, hpc, find_none hf (h.bound k)⟩)
    rw [hexternal hf]
    have hidle : ∀ k, (s'.lanes k).laneActive = false := fun k => by
      rw [(hin k (mem_finRange k)).1]
    refine ⟨s', ?_, hidle, ?_, fun k => ?_⟩
    · unfold LanePC.turn
      rw [hpop]
      dsimp only
      rw [hs']
    · unfold Walk.anyActive
      rw [any_eq_false]
      intro k _
      rw [hidle k, Bool.false_and]
      exact Bool.false_ne_true
    · rw [(hin k (mem_finRange k)).2, h.counted]
  | some found =>
    obtain ⟨op_index, w⟩ := found
    have hw := find_bound hf (by rw [← h.leader]; exact h.bound 0)
    have hslid := h.slide hw
    have hstep := executeLane_advance hf
    unfold LanePC.turn
    rw [hpop]
    dsimp only
    rw [h.select_some hf]
    have huops : ({ s with lanes := update s.lanes 0 { s.lanes 0 with window := w } } :
      Walk (m + 1)).helperUops = s.helperUops := rfl
    generalize ({ s with lanes := update s.lanes 0 { s.lanes 0 with window := w } } :
      Walk (m + 1)) = u at hslid huops
    dsimp only
    rw [hslid.not_diverges, if_neg Bool.false_ne_true]
    have hall : ∀ k, u.executing x.pc k = true := by
      intro k
      unfold Walk.executing
      rw [hslid.active, hslid.pc]
      simp
    have hlanes : ∀ k, (u.issue program 0 op_index x.pc).lanes k =
        (executeLane program 0 op_index (u.lanes k)).1 := fun k => if_pos (hall k)
    have hcounts : ∀ k, (u.issue program 0 op_index x.pc).counted k =
        L ++ (executeLane program 0 op_index (u.lanes k)).2 := by
      intro k
      rw [← hslid.counted k]
      exact if_pos (hall k)
    have hempty : (u.issue program 0 op_index x.pc).stack = [] := hslid.stack
    have hhelper : (u.issue program 0 op_index x.pc).helperUops = s.helperUops := huops
    have hreleased : ∀ k, (u.issue program 0 op_index x.pc).laneBlocked k = false := hslid.released
    generalize u.issue program 0 op_index x.pc = v at hlanes hcounts hempty hhelper hreleased
    cases hadvance : advance program x with
    | goto y back =>
      have hpc := pc_ne_zero hadvance
      rw [hadvance] at hstep
      have hlane := fun k => hstep (u.lanes k) (hslid.active k)
      have hany : ({ v with helperUops := v.helperUops + 1 } : Walk (m + 1)).anyActive = true := by
        unfold Walk.anyActive
        rw [any_eq_true]
        refine ⟨0, mem_finRange 0, ?_⟩
        rw [hlanes 0, (hlane 0).2.1, (hlane 0).2.2.1]
        simpa using hpc
      refine ⟨{ v with helperUops := v.helperUops + 1 }, ?_, ?_, ?_⟩
      · unfold finish
        dsimp only
        rw [hany]
        rfl
      · constructor
        · intro k
          rw [hlanes k]
          exact (hlane k).2.1
        · intro k
          rw [hlanes k]
          exact (hlane k).2.2.1
        · intro j k
          rw [hlanes j, hlanes k]
          exact executeLane_regs (hslid.regs j k)
        · rw [hlanes 0, executeLane_window, hslid.leader]
          exact (hlane 0).1.symm
        · intro k
          rw [hlanes k, executeLane_window]
          exact hslid.bound k
        · exact hreleased
        · exact hempty
        · intro k
          show v.counted k = _
          rw [hcounts k, (hlane k).2.2.2]
      · show v.helperUops + 1 = s.helperUops + 1
        rw [hhelper]
    | ends cause =>
      rw [hadvance] at hstep
      have hlane := fun k => hstep (u.lanes k) (hslid.active k)
      have hany : ({ v with helperUops := v.helperUops + 1 } : Walk (m + 1)).anyActive = false := by
        unfold Walk.anyActive
        rw [any_eq_false]
        intro k _
        rw [hlanes k, Bool.and_eq_true, bne_iff_ne]
        rintro ⟨hactive, hne⟩
        exact hne ((hlane k).2.1 hactive)
      refine ⟨{ v with helperUops := v.helperUops + 1 }, ?_, ?_, hany, ?_⟩
      · unfold finish
        dsimp only
        rw [hany, hempty]
        rfl
      · intro k
        rw [hlanes k]
        exact (hlane k).1
      · intro k
        show v.counted k = _
        rw [hcounts k, (hlane k).2.2]

/-- The causes of a walk: its jumps back to the entry, and how it ends. -/
def causes (program : List Uop) (steps : Nat) (x : Point) : List Cause :=
  replicate (entryJumps program steps x) .backToEntry ++ (ending program steps x).toList

/-- The loop, by the walk. -/
theorem Alike.loop (h : Alike program x L s) (max_helper_uops steps : Nat)
    (hbudget : s.helperUops + steps = max_helper_uops)
    (hat : x.pc ≠ 0 ∨ (steps ≠ 0 ∧ (find program x.window x.pc).isSome)) :
    (∀ k, (loop program 0 max_helper_uops steps s).counted k = L ++ causes program steps x) ∧
      (∀ k, (loop program 0 max_helper_uops steps s).activeMask k =
        !(ending program steps x).any Cause.clears) ∧
        (loop program 0 max_helper_uops steps s).timedOut = (ending program steps x).isNone ∧
          (loop program 0 max_helper_uops steps s).stackOverflow = false ∧
            (loop program 0 max_helper_uops steps s).activeLanes = m + 1 := by
  induction steps generalizing s x L with
  | zero =>
    have hpc : x.pc ≠ 0 := hat.resolve_right fun hno => hno.1 rfl
    have hany : s.anyActive = true := by
      unfold Walk.anyActive
      rw [any_eq_true]
      refine ⟨0, mem_finRange 0, ?_⟩
      rw [h.active, h.pc]
      simpa using hpc
    refine ⟨fun k => ?_, fun k => h.active k, ?_, rfl, rfl⟩
    · show s.counted k = L ++ []
      rw [h.counted, append_nil]
    · show (decide (max_helper_uops ≤ s.helperUops) && s.anyActive) = true
      rw [hany, Bool.and_true, decide_eq_true_iff]
      omega
  | succ steps ih =>
    have hturn := h.turn (hat.imp_right And.right)
    unfold LanePC.loop causes entryJumps ending
    cases hadvance : advance program x with
    | goto y back =>
      rw [hadvance] at hturn
      obtain ⟨s', hs', halike, huops⟩ := hturn
      rw [hs']
      obtain ⟨hcounted, hmask, htime, hover, hlanes⟩ :=
        ih halike (by omega) (.inl (pc_ne_zero hadvance))
      refine ⟨fun k => ?_, hmask, htime, hover, hlanes⟩
      rw [hcounted k]
      unfold causes
      cases back with
      | true =>
        dsimp only
        rw [if_pos rfl, append_assoc, Bool.toNat_true, Nat.add_comm, replicate_succ]
        rfl
      | false =>
        dsimp only
        rw [if_neg Bool.false_ne_true, append_nil, Bool.toNat_false, Nat.zero_add]
    | ends cause =>
      rw [hadvance] at hturn
      obtain ⟨s', hs', hended⟩ := hturn
      rw [hs']
      refine ⟨hended.counted, hended.active, ?_, rfl, rfl⟩
      show (decide (max_helper_uops ≤ s'.helperUops) && s'.anyActive) = false
      rw [hended.idle, Bool.and_false]

end

/-! ## The accounting -/

namespace Result

variable {n : Nat} (r : Result n)

/-- One of the four counters. -/
def count (c : Counter) : Nat :=
  ((finRange n).map fun k => (r.counted k).countP fun cause => cause.counter == c).sum

def normalTerminatedLanes : Nat := r.count .normalTerminatedLanes
def earlyExitLanes : Nat := r.count .earlyExitLanes
def externalPathLanes : Nat := r.count .externalPathLanes
def unsupportedSemanticLanes : Nat := r.count .unsupportedSemanticLanes

/-- What the counters should say. -/
structure Accounts : Prop where
  bounded : r.normalTerminatedLanes + r.earlyExitLanes + r.externalPathLanes +
    r.unsupportedSemanticLanes ≤ r.activeLanes
  once : ∀ k, (r.counted k).length ≤ 1
  complete : r.timedOut = false → r.stackOverflow = false →
    r.normalTerminatedLanes + r.earlyExitLanes + r.externalPathLanes +
      r.unsupportedSemanticLanes = r.activeLanes
  mask : ∀ k, k.val < r.activeLanes →
    (r.activeMask k = true ↔ ∀ cause ∈ r.counted k, cause.clears = false)

/-- The four counters together count every event of every lane. -/
theorem counters_eq : r.normalTerminatedLanes + r.earlyExitLanes + r.externalPathLanes +
    r.unsupportedSemanticLanes = ((finRange n).map fun k => (r.counted k).length).sum := by
  have hlane : ∀ l : List Cause, (l.countP fun cause => cause.counter == .normalTerminatedLanes) +
        (l.countP fun cause => cause.counter == .earlyExitLanes) +
        (l.countP fun cause => cause.counter == .externalPathLanes) +
        (l.countP fun cause => cause.counter == .unsupportedSemanticLanes) = l.length := by
    have hone : ∀ cause : Cause, (cause.counter == .normalTerminatedLanes).toNat +
        (cause.counter == .earlyExitLanes).toNat + (cause.counter == .externalPathLanes).toNat +
        (cause.counter == .unsupportedSemanticLanes).toNat = 1 := by
      intro cause
      cases cause <;> rfl
    have hcons : ∀ (p : Cause → Bool) cause l, (cause :: l).countP p = l.countP p + (p cause).toNat := by
      intro p cause l
      rw [countP_cons]
      cases p cause <;> rfl
    intro l
    induction l with
    | nil => rfl
    | cons cause l ih =>
      have hcause := hone cause
      simp only [hcons, length_cons]
      omega
  unfold normalTerminatedLanes earlyExitLanes externalPathLanes unsupportedSemanticLanes count
  generalize finRange n = ks
  induction ks with
  | nil => rfl
  | cons k ks ih =>
    simp only [map_cons, sum_cons]
    have hk := hlane (r.counted k)
    omega

end Result

/-- The walk is counted at most once: it does not jump back to the entry, or it does so once and does
    not end within the budget. -/
def CountsOnce (program : List Uop) (max_helper_uops : Nat) : Prop :=
  entryJumps program max_helper_uops (entry program) +
    (ending program max_helper_uops (entry program)).isSome.toNat ≤ 1

theorem length_causes (program : List Uop) (steps : Nat) (x : Point) :
    (causes program steps x).length =
      entryJumps program steps x + (ending program steps x).isSome.toNat := by
  unfold causes
  rw [length_append, length_replicate]
  cases ending program steps x <;> rfl

theorem clears_causes (program : List Uop) (steps : Nat) (x : Point) :
    (∀ cause ∈ causes program steps x, cause.clears = false) ↔
      (ending program steps x).any Cause.clears = false := by
  unfold causes
  constructor
  · intro h
    cases hend : ending program steps x with
    | none => rfl
    | some cause =>
      rw [hend] at h
      exact h cause (mem_append_right _ mem_cons_self)
  · intro h cause hmem
    rcases mem_append.mp hmem with hmem | hmem
    · rw [eq_of_mem_replicate hmem]
      rfl
    · rw [Option.mem_toList] at hmem
      rw [hmem] at h
      exact h

/-- For every program, number of lanes, budget and snapshot: the counters partition the lanes, with
    equality when the pass neither times out nor overflows, and the active mask has the lanes not
    counted as external, unsupported or returned, if and only if no lane is launched or the walk is
    counted at most once. -/
theorem execute_accounts_iff (program : List Uop) (lanes max_helper_uops : Nat)
    (initial_regs : Fin 32 → RegVal) :
    (execute program lanes max_helper_uops initial_regs).Accounts ↔
      lanes = 0 ∨ CountsOnce program max_helper_uops := by
  have hzero : min lanes 128 = 0 ↔ lanes = 0 := by omega
  have hnone : ∀ n : Nat, ({} : Result n).Accounts := by
    intro n
    have hcount : ({} : Result n).normalTerminatedLanes + ({} : Result n).earlyExitLanes +
        ({} : Result n).externalPathLanes + ({} : Result n).unsupportedSemanticLanes = 0 := by
      rw [Result.counters_eq]
      show ((finRange n).map fun _ => 0).sum = 0
      rw [map_const', sum_replicate_nat, Nat.mul_zero]
    exact ⟨Nat.le_of_eq hcount, fun _ => Nat.zero_le 1, fun _ _ => hcount,
      fun k hk => absurd hk (Nat.not_lt_zero _)⟩
  unfold execute executeLanePC
  rw [← hzero]
  generalize min lanes 128 = n
  by_cases hsize : program.length ≤ 0
  · -- no program: nothing is launched, and the walk ends at once
    rw [if_pos (.inl hsize)]
    refine iff_of_true (hnone n) (.inr ?_)
    obtain rfl := eq_nil_of_length_eq_zero (Nat.le_zero.mp hsize)
    cases max_helper_uops with
    | zero => exact Nat.zero_le 1
    | succ steps => exact Nat.le_refl 1
  by_cases hlanes : n = 0
  · rw [if_pos (.inr (.inl hlanes))]
    exact iff_of_true (hnone n) (.inl hlanes)
  by_cases hmax : max_helper_uops = 0
  · rw [if_pos (.inr (.inr hmax))]
    refine iff_of_true (hnone n) (.inr ?_)
    rw [hmax]
    exact Nat.zero_le 1
  rw [if_neg (not_or.mpr ⟨hsize, not_or.mpr ⟨hlanes, hmax⟩⟩)]
  obtain ⟨m, rfl⟩ := Nat.exists_eq_succ_of_ne_zero hlanes
  have hfound : (find program (entry program).window (entry program).pc).isSome := by
    unfold find
    split
    · rfl
    · rw [Option.isSome_map, find?_isSome]
      exact ⟨0, mem_range.mpr (by omega), by simp [entry]⟩
  have halike : Alike program (entry program) []
      { lanes := fun _ : Fin (m + 1) =>
          { laneActive := true
            lanePC := (uop program 0).pc
            window := windowAt program 0
            vectorRegs := initial_regs } } :=
    ⟨fun _ => rfl, fun _ => rfl, fun _ _ => rfl, rfl, fun _ => Nat.min_le_right _ _, fun _ => rfl, rfl,
      fun _ => rfl⟩
  obtain ⟨hcounted, hmask, htime, _, hactive⟩ :=
    halike.loop max_helper_uops max_helper_uops (Nat.zero_add _) (.inr ⟨hmax, hfound⟩)
  generalize loop program 0 max_helper_uops max_helper_uops _ = r at hcounted hmask htime hactive
  have hlength : ∀ k, (r.counted k).length = (causes program max_helper_uops (entry program)).length := by
    intro k
    rw [hcounted k, nil_append]
  have hsum : r.normalTerminatedLanes + r.earlyExitLanes + r.externalPathLanes +
      r.unsupportedSemanticLanes =
        (m + 1) * (causes program max_helper_uops (entry program)).length := by
    rw [r.counters_eq]
    have hconst : ((finRange (m + 1)).map fun k => (r.counted k).length) =
        replicate (m + 1) (causes program max_helper_uops (entry program)).length := by
      rw [eq_replicate_iff]
      refine ⟨by simp, fun b hb => ?_⟩
      obtain ⟨k, _, rfl⟩ := mem_map.mp hb
      exact hlength k
    rw [hconst, sum_replicate_nat]
  rw [or_iff_right (Nat.succ_ne_zero m), CountsOnce, ← length_causes]
  constructor
  · intro h
    rw [← hlength 0]
    exact h.once 0
  · intro hle
    refine ⟨?_, fun k => ?_, fun htimed _ => ?_, fun k _ => ?_⟩
    · rw [hsum, hactive]
      exact Nat.le_trans (Nat.mul_le_mul_left (m + 1) hle) (Nat.le_of_eq (Nat.mul_one _))
    · rw [hlength k]
      exact hle
    · rw [hsum, hactive]
      rw [htime] at htimed
      -- the walk has ended, so it is counted at least once
      have hone : (causes program max_helper_uops (entry program)).length = 1 := by
        rw [length_causes] at hle ⊢
        cases hend : ending program max_helper_uops (entry program) with
        | none =>
          rw [hend] at htimed
          exact Bool.noConfusion htimed
        | some cause =>
          rw [hend, Option.isSome_some, Bool.toNat_true] at hle
          rw [Option.isSome_some, Bool.toNat_true]
          omega
      rw [hone, Nat.mul_one]
    · rw [hmask k, hcounted k, nil_append, clears_causes, Bool.not_eq_true']

/-- `ld x5, (x6)`; `j` back to it. -/
def loopProgram : List Uop :=
  [{ pc := 0x10, load := true, semantic := .LoadDouble, source0 := some 6, destination := some 5 },
   { pc := 0x14, control := true, branchTargetPC := 0x10 }]

/-- The lane is counted at every jump back. -/
theorem execute_not_accounts_loop : ¬ (execute loopProgram 1 8 fun _ => 0).Accounts := by
  intro h
  exact absurd (h.once ⟨0, by decide⟩) (by decide)

end Gem5Dvr.LanePC
