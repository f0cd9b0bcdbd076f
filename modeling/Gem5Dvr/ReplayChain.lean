/-
  The chain of a replay lane.

  1. **Reference** — `Chain.step`: one uop of a lane ALONE, on its own registers.  A chain runs,
     reaches its first tainted load (and is done), or ends.

  2. **Program** — `Run`: arrivals of trigger values and calls of `issueDVRReplayLanes`, with the
     arrivals so far and the fates reported so far.

  3. **The crux (`LaneOk`)** — every active lane stands on its chain, and so it would at the PC of a
     live frame that names it.  Lanes of live frames are blocked, and no lane is in two of them, so
     a pop moves a lane forward on its chain and never back.
-/
import Mathlib.Logic.Function.Iterate
import Gem5Dvr.ReplayLanes
import Gem5Dvr.Lib.Trace

namespace Gem5Dvr.ReplayLanes

open Function

/-! ## The reference -/

/-- A lane on its own. -/
inductive Chain
  | run (pc : Addr) (row : Fin 32 → RegVal)
  | load (pc address : Addr)
  | ended

/-- `op.destination` receives `value`. -/
def writeBack (op : Uop) (row : Fin 32 → RegVal) (value : RegVal) : Fin 32 → RegVal :=
  match op.destination with
  | some r => update row r value
  | none => row

/-- The uop at `index`, on registers `row`. -/
def Chain.uop (p : Template) (index : Nat) (row : Fin 32 → RegVal) : Chain :=
  let op := p.uop index
  if op.stateless then .run (p.successor index) row
  else if op.conditional then
    match branchNext op row with
    | none => .ended
    | some next => .run next row
  else
    match op.evaluate (Uop.operand row op.source0) (Uop.operand row op.source1) with
    | none => .ended
    | some result =>
      if op.load && !op.tainted then .run (p.successor index) row
      else if op.load then .load op.pc result
      else .run (nextPC p index) (writeBack op row result)

/-- One uop; the successor is found by its PC. -/
def Chain.step (p : Template) : Chain → Chain
  | .run pc row =>
    match p.findPC pc with
    | none => .ended
    | some index => Chain.uop p index row
  | s => s

/-- The chain that starts after the trigger, with the trigger's value. -/
def Chain.origin (p : Template) (value : RegVal) : Chain :=
  .run (p.uop 1).pc (match p.triggerDestination with
    | some r => update p.initialRegs r value
    | none => p.initialRegs)

/-- The chain of `value` comes to `s`. -/
def Reaches (p : Template) (value : RegVal) (s : Chain) : Prop :=
  ∃ j, (Chain.step p)^[j] (.origin p value) = s

variable {p : Template} {value : RegVal} {row : Fin 32 → RegVal} {pc : Addr}

theorem Reaches.step {s : Chain} (h : Reaches p value s) : Reaches p value (s.step p) := by
  obtain ⟨j, rfl⟩ := h
  exact ⟨j + 1, iterate_succ_apply' _ _ _⟩

theorem Reaches.ended (h : Reaches p value (.run pc row)) (hf : p.findPC pc = none) :
    Reaches p value .ended := by
  have hstep := h.step
  rwa [Chain.step, hf] at hstep

theorem Reaches.uop {index : Nat} (h : Reaches p value (.run pc row))
    (hf : p.findPC pc = some index) : Reaches p value (Chain.uop p index row) := by
  have hstep := h.step
  rwa [Chain.step, hf] at hstep

/-- A chain that has come to its load or its end stays there. -/
theorem iterate_step_later {s : Chain} (hfixed : s.step p = s) {a b : Nat} (hab : a ≤ b)
    (ha : (Chain.step p)^[a] (.origin p value) = s) : (Chain.step p)^[b] (.origin p value) = s := by
  obtain ⟨d, rfl⟩ := Nat.exists_eq_add_of_le' hab
  rw [iterate_add_apply, ha]
  exact iterate_fixed hfixed d

/-- A chain has one outcome. -/
theorem Reaches.unique {s s' : Chain} (h : Reaches p value s) (h' : Reaches p value s')
    (hfixed : s.step p = s) (hfixed' : s'.step p = s') : s' = s := by
  obtain ⟨i, hi⟩ := h
  obtain ⟨j, hj⟩ := h'
  rcases Nat.le_total i j with hij | hji
  · rw [← hj]
    exact iterate_step_later hfixed hij hi
  · rw [← hi]
    exact (iterate_step_later hfixed' hji hj).symm

theorem findPC_bounds {index : Nat} (hf : p.findPC pc = some index) :
    1 ≤ index ∧ index < p.count ∧ (p.uop index).pc = pc ∧ pc ≠ 0 := by
  unfold Template.findPC at hf
  split at hf
  · cases hf
  next hpc =>
    have hmem := List.mem_of_find?_eq_some hf
    have hfound := List.find?_some hf
    rw [List.mem_range'_1] at hmem
    exact ⟨hmem.1, by omega, by simpa using hfound, hpc⟩

theorem findPC_zero (p : Template) : p.findPC 0 = none := by simp [Template.findPC]

theorem indexOf_eq {index : Nat} (hf : p.findPC pc = some index) : p.indexOf pc = index := by
  simp [Template.indexOf, hf]

/-- The PC after a uop that is skipped is found where the skip goes. -/
def Template.SkipsByPC (p : Template) : Prop :=
  ∀ index, 1 ≤ index → index + 1 < p.count → (p.uop index).stateless = true →
    p.findPC (p.uop (index + 1)).pc = some (index + 1)

/-! ## The run -/

/-- A trigger value for a lane. -/
structure Arrival where
  gen : Nat
  lane : Fin 128
  value : RegVal

/-- The helper with what has arrived and what has been reported. -/
structure Run where
  helper : Helper
  arrived : List Arrival := []
  log : List Fate := []

inductive Event
  | enqueue (a : Arrival)
  | issue (env : Env)

/-- `enqueueReplayLane` takes the lane. -/
def accepts (c : Config) (g : Nat) : Bool :=
  (c.template g).triggerDestination.isSome && decide (1 < (c.template g).count)

def step (c : Config) (r : Run) : Event → Run
  | .enqueue a =>
    { r with
      helper := enqueueReplayLane c r.helper a.gen a.lane a.value
      arrived := if accepts c a.gen then a :: r.arrived else r.arrived }
  | .issue env =>
    let (helper, report) := issueDVRReplayLanes c env r.helper
    { r with helper, log := r.log ++ report.fates }

/-- The chain has ended, or it came to its load and the load was requested or refused by the
    filters. -/
def Finished (c : Config) (log : List Fate) (g : Nat) (k : Fin 128) (value : RegVal) : Prop :=
  Reaches (c.template g) value .ended ∨
    ∃ pc address, Reaches (c.template g) value (.load pc address) ∧
      (.requested g k pc address ∈ log ∨ .rejected g k pc address ∈ log)

/-- The lane was ended at its stride PC, and its chain does come there. -/
def StrideEnded (c : Config) (log : List Fate) (g : Nat) (k : Fin 128) (value : RegVal) : Prop :=
  .stride g k ∈ log ∧ ∃ row, Reaches (c.template g) value (.run (c.template g).laneStridePC row)

def Over (c : Config) (log : List Fate) (g : Nat) (k : Fin 128) (value : RegVal) : Prop :=
  Finished c log g k value ∨ StrideEnded c log g k value

/-- Every request is for the address of the lane's own chain. -/
def RequestsOwn (c : Config) (r : Run) : Prop :=
  ∀ g k pc address, .requested g k pc address ∈ r.log →
    ∃ value, ⟨g, k, value⟩ ∈ r.arrived ∧ Reaches (c.template g) value (.load pc address)

/-- The lane of the arrival is still there. -/
def Waiting (r : Run) (a : Arrival) : Prop :=
  ∃ l ∈ r.helper.replayLanes, l.active = true ∧ l.gen = a.gen ∧ l.lane = a.lane

/-! ## What a run is allowed to do -/

/-- The runs the property is about: one value for each lane; no failed rename, no full
    reconvergence stack, and a budget that no lane comes close to. -/
def legal (c : Config) (r : Run) : Event → Prop
  | .enqueue a => ∀ value, ⟨a.gen, a.lane, value⟩ ∉ r.arrived
  | .issue env => env.renameFails = false ∧
      (issueDVRReplayLanes c env r.helper).2.overflow = false ∧
      ∀ l ∈ r.helper.replayLanes, l.helperUops + (c.template l.gen).count + 2 ≤ c.dvrHelperMaxUops

/-- The deque after this chunk has committed a branch; empty if it commits none. -/
def committed (c : Config) (env : Env) (g : Nat) (seed : Lane) (h : Helper) (slots : List Slot) :
    List Slot :=
  let op := (c.template g).uop seed.uopIndex
  let group := (slots.map Prod.fst).filter fun l =>
    inCurrentGroup g (h.context g) l && l.uopIndex == seed.uopIndex
  let b := evaluateBranchGroup op h.regs group
  if op.conditional && !group.isEmpty && group.all (sourcesReady c env.now h.readyAt) &&
      env.decoded && env.granted && b.complete then
    (commitBranch c g op b seed (h.context g) slots).2.1
  else []

/-- The deque after this call has committed a branch; empty if it commits none. -/
def committedBranch (c : Config) (env : Env) (h : Helper) : List Slot :=
  let h := { h with replayLanes := h.replayLanes.filter (alive c) }
  if env.capacity && env.readyUops then
    match chooseContext c env h with
    | none => []
    | some g =>
      let h := reconverge c g h
      let slots := pickChunk c env g h
      match slots.find? Prod.snd with
      | none => []
      | some (seed, _) => committed c env g seed h slots
  else []

/-- A lane of the chunk executes the uop it stands at, ALSO when its branch has just been committed
    and that uop is the successor.  Then the successor must be one that a call issues, and the lane
    must not be one the branch has deferred. -/
def carried (c : Config) (s : Slot) : Bool :=
  let op := (c.template s.1.gen).uop s.1.uopIndex
  !s.2 || !s.1.active || op.conditional || (!op.stateless && !s.1.reconvergenceBlocked)

/-- No lane is carried past its branch where it should not. -/
def clean (c : Config) (r : Run) : Event → Prop
  | .enqueue _ => True
  | .issue env => ∀ s ∈ committedBranch c env r.helper, carried c s = true

end Gem5Dvr.ReplayLanes
