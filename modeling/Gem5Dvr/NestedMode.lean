/-
  Nested discovery mode (`DVRNestedDiscoveryMode`, `cpu/o3/dvr_nested.hh` 106-318, `dvr_nested.cc`
  144-480).

  When an inner loop has too few iterations for a vector, the mode looks for the OUTER load that
  strides over the inner loops: it inverts the inner back edge (`observeInnerBranch`), watches the
  committed loads of up to eight PCs for three addresses at one stride (`observeOuterLoad`), collects
  the addresses of the outer load as a plan (`pendingOuterBases`), and turns the plan into inner-loop
  invocations when the first of them is bounded (`recordOuterInvocation`).

  1. **Program** — the ten methods, with what they return.  An array is a function on `Nat` that is
     written only below its length; that the counters stay below it is part of what is proved.

  2. **The crux (`Inv`)** — one shape for each state.  No plan before `OuterFound`; a plan and no
     invocation in `OuterFound`, its newest base being the newest outer address as long as there is
     room; and in `Vectorizing` the WHOLE plan is consumed, because the first recorded child
     materialises the rest.

  3. **Probes (`ProbeOk`)** — a probe with two samples holds the last two addresses of its PC, at its
     stride; so the three addresses the third sample hands over are a progression.
-/
import Gem5Dvr.Uop
import Gem5Dvr.Lib.Fold
import Mathlib.Tactic.Ring

namespace Gem5Dvr.Nested

open Function

/-! ## The program -/

/-- How far the search has come. -/
inductive State
  | Idle | SeekingOuter | OuterFound | Vectorizing
  deriving DecidableEq, Repr

/-- `DVRNestedDiscoveryMode::Event`. -/
inductive Outcome
  | None | Started | OuterAccepted | VectorizeReady | TimedOut | Fallback
  deriving DecidableEq, Repr

/-- A `std::array<uint64_t, 2>` of lane bits. -/
abbrev Mask := Nat → BitVec 64

/-- The inner loop's control, as it was captured. -/
structure ControlState where
  innerBranchPC : Addr := 0
  innerBranchTarget : Addr := 0
  innerFallthrough : Addr := 0
  reconvergencePC : Addr := 0
  inductionRegister : Int := -1
  boundRegister : Int := -1
  inductionValue : RegVal := 0
  boundValue : RegVal := 0
  inductionIncrement : BitVec 64 := 0
  remainingIterations : Nat := 0
  branchTaken : Bool := false
  branchInverted : Bool := false
  valid : Bool := false
  takenMask : Mask := fun _ => 0
  fallthroughMask : Mask := fun _ => 0

/-- An invocation of the inner loop in the plan. -/
structure OuterInvocation where
  outerBase : Addr := 0
  innerStart : Addr := 0
  innerLanes : Nat := 0
  innerTriggerPC : Addr := 0
  innerFLRPC : Addr := 0
  innerStride : BitVec 64 := 0
  predicate : Mask := fun _ => 0
  reconvergencePC : Addr := 0

/-- What a call returns. -/
structure Result where
  event : Outcome := .None
  state : State := .Idle
  innerLoadPC : Addr := 0
  increment : BitVec 64 := 0
  innerLanes : Nat := 0
  outerLoadPC : Addr := 0
  outerAddress : Addr := 0
  outerStride : BitVec 64 := 0
  committedInstructions : Nat := 0
  control : ControlState := {}

/-- The counters. -/
structure Statistics where
  attempts : Nat := 0
  outerFound : Nat := 0
  fallbacks : Nat := 0
  timeouts : Nat := 0
  branchInversions : Nat := 0
  irCaptures : Nat := 0
  ilrCaptures : Nat := 0
  lcrCaptures : Nat := 0
  outerInvocations : Nat := 0
  deriving DecidableEq, Repr

/-- The last addresses of a load that may be the outer one. -/
structure OuterProbe where
  pc : Addr := 0
  address : Addr := 0
  stride : BitVec 64 := 0
  samples : Nat := 0
  recent0 : Addr := 0
  recent1 : Addr := 0
  recent2 : Addr := 0
  deriving DecidableEq, Repr

/-- The instructions that a search may take. -/
def PaperOuterSearchInstructions : Nat := 200
/-- The invocations of a plan. -/
def MaxOuterInvocations : Nat := 16

/-- The arguments of the constructor, with what it asserts; the collection window is an `unsigned`
    product. -/
structure Config where
  laneThreshold : Nat
  max_instructions : Nat
  threshold_pos : 0 < laneThreshold
  instructions_pos : 0 < max_instructions
  collection_ge : min max_instructions PaperOuterSearchInstructions ≤
    max max_instructions PaperOuterSearchInstructions * MaxOuterInvocations % 2 ^ 32

namespace Config

/-- The window of the search. -/
def outerSearchMaxInstructions (cfg : Config) : Nat :=
  min cfg.max_instructions PaperOuterSearchInstructions

/-- The window of the collection. -/
def outerCollectionMaxInstructions (cfg : Config) : Nat :=
  max cfg.max_instructions PaperOuterSearchInstructions * MaxOuterInvocations % 2 ^ 32

end Config

/-- The fields of `DVRNestedDiscoveryMode` that change. -/
structure Mode where
  currentState : State := .Idle
  committedInstructions : Nat := 0
  innerLoadPC : Addr := 0
  increment : BitVec 64 := 0
  innerLanes : Nat := 0
  outerLoadPC : Addr := 0
  outerAddress : Addr := 0
  outerStride : BitVec 64 := 0
  invocations : Nat → OuterInvocation := fun _ => {}
  invocationCount : Nat := 0
  outerProbes : Fin 8 → OuterProbe := fun _ => {}
  pendingOuterBases : Nat → Addr := fun _ => 0
  pendingOuterCount : Nat := 0
  pendingOuterConsumed : Nat := 0
  control : ControlState := {}
  counters : Statistics := {}

namespace Mode

/-- A generation is open. -/
def active (m : Mode) : Bool := m.currentState != .Idle

/-- The plan is complete. -/
def readyToVectorize (m : Mode) : Bool := m.currentState == .Vectorizing

/-- The fields as a result. -/
def snapshot (m : Mode) (event : Outcome) : Result :=
  ⟨event, m.currentState, m.innerLoadPC, m.increment, m.innerLanes, m.outerLoadPC, m.outerAddress,
    m.outerStride, m.committedInstructions, m.control⟩

/-- The counters of the statistics survive. -/
def reset (m : Mode) : Mode := { counters := m.counters }

/-- As constructed, the counters too. -/
def clear (m : Mode) : Mode := { m.reset with counters := {} }

/-- The part of `start` that opens a generation on a clean object. -/
def opened (m : Mode) (inner_load_pc : Addr) (loop_increment : BitVec 64) (inner_lanes : Nat) :
    Mode × Result :=
  let m := m.reset
  let m := { m with
    currentState := .SeekingOuter
    innerLoadPC := inner_load_pc
    increment := loop_increment
    innerLanes := inner_lanes
    control := { inductionIncrement := loop_increment }
    counters := { m.counters with attempts := m.counters.attempts + 1 } }
  (m, m.snapshot .Started)

/-- An inner loop with few lanes opens a generation. -/
def start (cfg : Config) (m : Mode) (inner_load_pc : Addr) (loop_increment : BitVec 64)
    (inner_lanes : Nat) : Mode × Result :=
  if inner_load_pc = 0 ∨ inner_lanes = 0 ∨ cfg.laneThreshold ≤ inner_lanes then
    (m, m.snapshot .None)
  else if m.active ∧ m.currentState = .Vectorizing then
    if inner_load_pc ≠ m.innerLoadPC then m.opened inner_load_pc loop_increment inner_lanes
    else
      -- the next invocation of the same inner loop keeps the plan
      let m := { m with
        committedInstructions := 0
        innerLoadPC := inner_load_pc
        increment := loop_increment
        innerLanes := inner_lanes
        control := { inductionIncrement := loop_increment }
        counters := { m.counters with attempts := m.counters.attempts + 1 } }
      (m, m.snapshot .Started)
  else if m.active then (m, m.snapshot .None)
  else m.opened inner_load_pc loop_increment inner_lanes

/-- The induction and the bound register are noted. -/
def captureLoopRegisters (m : Mode) (induction_register bound_register : Int)
    (induction_value bound_value : RegVal) (remaining_iterations : Nat) : Mode :=
  if !m.active then m
  else
    let control := { m.control with
      inductionRegister := induction_register
      boundRegister := bound_register
      inductionValue := induction_value
      boundValue := bound_value
      remainingIterations := remaining_iterations
      inductionIncrement := m.increment }
    let counters := { m.counters with
      ilrCaptures := m.counters.ilrCaptures + if 0 ≤ induction_register then 1 else 0
      lcrCaptures := m.counters.lcrCaptures + if 0 ≤ bound_register then 1 else 0 }
    { m with control := control, counters := counters }

/-- The bits of the first lanes set in a mask. -/
def setLanes (mask : Mask) (lanes : Nat) : Mask :=
  (List.range lanes).foldl (fun mask lane =>
    update mask (lane / 64) (mask (lane / 64) ||| 1#64 <<< (lane % 64))) mask

/-- The value returned is whether the branch was taken for the inner back edge. -/
def observeInnerBranch (m : Mode) (branch_pc branch_target fallthrough_pc : Addr) (taken : Bool) :
    Mode × Bool :=
  if !m.active ∨ branch_pc ≤ m.innerLoadPC ∨ m.innerLoadPC < branch_target ∨
      branch_pc ≤ branch_target then (m, false)
  else if m.control.valid then (m, false)
  else
    let active_lanes := min m.innerLanes 128
    let control := { m.control with
      innerBranchPC := branch_pc
      innerBranchTarget := branch_target
      innerFallthrough := fallthrough_pc
      branchTaken := taken
      branchInverted := true
      reconvergencePC := fallthrough_pc
      takenMask := setLanes m.control.takenMask active_lanes
      fallthroughMask := setLanes m.control.fallthroughMask active_lanes
      valid := true }
    let counters := { m.counters with
      irCaptures := m.counters.irCaptures + 1
      branchInversions := m.counters.branchInversions + 1 }
    ({ m with control := control, counters := counters }, true)

/-- The invocation the plan entry `base` gives, from the first child. -/
def planned (seed : OuterInvocation) (base : Addr) : OuterInvocation :=
  { seed with outerBase := base, innerStart := seed.innerStart + (base - seed.outerBase) }

/-- The loop of `recordOuterInvocation` over the plan entries from `first` on. -/
def materialise (seed : OuterInvocation) (bases : Nat → Addr) (invocations : Nat → OuterInvocation)
    (first count : Nat) : Nat → OuterInvocation :=
  (List.range' first (count - first)).foldl (fun invocations i =>
    update invocations i (planned seed (bases i))) invocations

/-- The part of `recordOuterInvocation` that fills in invocations. -/
def record (m : Mode) (inner_start : Addr) (lanes : Nat) (inner_trigger_pc inner_flr_pc : Addr)
    (inner_stride : BitVec 64) : Mode :=
  let invocation : OuterInvocation :=
    { outerBase := m.pendingOuterBases m.pendingOuterConsumed
      innerStart := inner_start
      innerLanes := min lanes 128
      innerTriggerPC := inner_trigger_pc
      innerFLRPC := inner_flr_pc
      innerStride := inner_stride
      predicate := m.control.fallthroughMask
      reconvergencePC := m.control.reconvergencePC }
  let m := { m with
    invocations := update m.invocations m.invocationCount invocation
    pendingOuterConsumed := m.pendingOuterConsumed + 1
    invocationCount := m.invocationCount + 1 }
  if m.invocationCount = 1 ∧ 1 < m.pendingOuterCount then
    { m with
      invocations := materialise (m.invocations 0) m.pendingOuterBases m.invocations
        m.invocationCount m.pendingOuterCount
      invocationCount := m.pendingOuterCount
      pendingOuterConsumed := m.pendingOuterCount }
  else m

/-- An invocation of the inner loop fills in the plan. -/
def recordOuterInvocation (m : Mode) (inner_start : Addr) (lanes : Nat)
    (inner_trigger_pc inner_flr_pc : Addr) (inner_stride : BitVec 64) : Mode × Bool :=
  if (m.currentState ≠ .OuterFound ∧ m.currentState ≠ .Vectorizing) ∨
      m.pendingOuterCount ≤ m.pendingOuterConsumed ∨ inner_start = 0 ∨ lanes = 0 ∨
      inner_trigger_pc = 0 ∨ inner_flr_pc = 0 ∨ !m.control.valid then (m, false)
  else
    let m := { m with
      counters := { m.counters with outerInvocations := m.counters.outerInvocations + 1 } }
    let m := if m.invocationCount < MaxOuterInvocations then
        m.record inner_start lanes inner_trigger_pc inner_flr_pc inner_stride
      else m
    let m := if 1 ≤ m.invocationCount then { m with currentState := .Vectorizing } else m
    ({ m with committedInstructions := 0 }, true)

/-- The outer load is found. -/
def acceptOuter (m : Mode) (outer_load_pc outer_address : Addr) (outer_stride : BitVec 64) :
    Mode × Result :=
  if m.currentState ≠ .SeekingOuter ∨ !m.control.valid ∨ outer_load_pc = 0 ∨
      outer_load_pc = m.innerLoadPC ∨ outer_stride = 0 then (m, m.snapshot .None)
  else
    let m := { m with
      currentState := .OuterFound
      outerLoadPC := outer_load_pc
      outerAddress := outer_address
      outerStride := outer_stride
      committedInstructions := 0
      counters := { m.counters with outerFound := m.counters.outerFound + 1 } }
    (m, m.snapshot .OuterAccepted)

/-- The search for a probe: the one of this PC, else the first free one. -/
def findProbe (probes : Fin 8 → OuterProbe) (pc : Addr) :
    List (Fin 8) → Option (Fin 8) → Option (Fin 8)
  | [], probe => probe
  | i :: rest, probe =>
      if (probes i).pc = pc then some i
      else findProbe probes pc rest
        (if (probes i).pc = 0 ∧ probe = none then some i else probe)

/-- One plan entry more, if there is room. -/
def pushBase (m : Mode) (address : Addr) : Mode :=
  if m.pendingOuterCount < MaxOuterInvocations then
    { m with
      pendingOuterBases := update m.pendingOuterBases m.pendingOuterCount address
      pendingOuterCount := m.pendingOuterCount + 1 }
  else m

/-- One of the addresses of a probe, unless it is null. -/
def pushRecent (m : Mode) (address : Addr) : Mode := if address ≠ 0 then m.pushBase address else m

/-- The probe after a further address of its PC, its sample count apart. -/
def OuterProbe.shift (probe : OuterProbe) (address : Addr) : OuterProbe :=
  { probe with
    address := address, recent2 := probe.recent1, recent1 := probe.recent0, recent0 := address }

/-- The part of `observeOuterLoad` about a probe that knows its PC. -/
def sample (m : Mode) (i : Fin 8) (pc address : Addr) : Mode × Result :=
  let old := m.outerProbes i
  let delta := address - old.address
  let probe := OuterProbe.shift old address
  let put (probe : OuterProbe) : Mode :=
    { m with outerProbes := update m.outerProbes i probe }
  if delta = 0 then
    let m := put { probe with samples := 1, stride := 0 }
    (m, m.snapshot .None)
  else if probe.samples = 1 then
    let m := put { probe with stride := delta, samples := 2 }
    (m, m.snapshot .None)
  else if delta ≠ probe.stride then
    let m := put { probe with stride := delta, samples := 2 }
    (m, m.snapshot .None)
  else
    let m := put { probe with samples := probe.samples + 1 }
    let (m, result) := m.acceptOuter pc address probe.stride
    (((m.pushRecent probe.recent2).pushRecent probe.recent1).pushRecent probe.recent0, result)

/-- A load may be the outer one: its probe is asked. -/
def observeOuterLoad (m : Mode) (pc address : Addr) : Mode × Result :=
  if !m.control.valid ∨ pc = 0 ∨ pc = m.innerLoadPC ∨ address = 0 then (m, m.snapshot .None)
  else if m.currentState = .OuterFound then
    if pc = m.outerLoadPC ∧ address - m.outerAddress = m.outerStride then
      let m := { m with outerAddress := address, committedInstructions := 0 }
      let m := m.pushBase address
      (m, m.snapshot .None)
    else (m, m.snapshot .None)
  else if m.currentState ≠ .SeekingOuter then (m, m.snapshot .None)
  else
    match findProbe m.outerProbes pc (List.finRange 8) none with
    | none => (m, m.snapshot .None)
    | some i =>
        if (m.outerProbes i).pc = 0 then
          let probe := { m.outerProbes i with
            pc := pc, address := address, samples := 1, recent0 := address }
          let m := { m with outerProbes := update m.outerProbes i probe }
          (m, m.snapshot .None)
        else m.sample i pc address

/-- The plan has been used. -/
def finishVectorization (m : Mode) : Mode := if m.currentState = .Vectorizing then m.reset else m

/-- The number of commits the current phase may take. -/
def budget (cfg : Config) (m : Mode) : Nat :=
  if m.currentState = .SeekingOuter then cfg.outerSearchMaxInstructions
  else cfg.outerCollectionMaxInstructions

/-- An instruction commits; the window may be over. -/
def observeCommit (cfg : Config) (m : Mode) : Mode × Result :=
  if !m.active then (m, {})
  else
    let m := { m with committedInstructions := m.committedInstructions + 1 }
    if m.committedInstructions < m.budget cfg then (m, m.snapshot .None)
    else
      let counters := { m.counters with
        timeouts := m.counters.timeouts + 1, fallbacks := m.counters.fallbacks + 1 }
      ({ m with counters := counters }.reset, m.snapshot .TimedOut)

/-- The generation is given up. -/
def fallback (m : Mode) : Mode × Result :=
  if !m.active then (m, {})
  else
    let counters := { m.counters with fallbacks := m.counters.fallbacks + 1 }
    ({ m with counters := counters }.reset, m.snapshot .Fallback)

end Mode

/-! ## Calls -/

/-- One call on the mode. -/
inductive Call
  | start (inner_load_pc : Addr) (loop_increment : BitVec 64) (inner_lanes : Nat)
  | captureLoopRegisters (induction_register bound_register : Int)
      (induction_value bound_value : RegVal) (remaining_iterations : Nat)
  | observeInnerBranch (branch_pc branch_target fallthrough_pc : Addr) (taken : Bool)
  | observeOuterLoad (pc address : Addr)
  | acceptOuter (outer_load_pc outer_address : Addr) (outer_stride : BitVec 64)
  | recordOuterInvocation (inner_start : Addr) (lanes : Nat) (inner_trigger_pc inner_flr_pc : Addr)
      (inner_stride : BitVec 64)
  | observeCommit
  | fallback
  | finishVectorization
  | reset
  | clear
  deriving DecidableEq, Repr

/-- The mode after one call. -/
def step (cfg : Config) (m : Mode) : Call → Mode
  | .start inner_load_pc loop_increment inner_lanes =>
      (m.start cfg inner_load_pc loop_increment inner_lanes).1
  | .captureLoopRegisters induction_register bound_register induction_value bound_value remaining =>
      m.captureLoopRegisters induction_register bound_register induction_value bound_value remaining
  | .observeInnerBranch branch_pc branch_target fallthrough_pc taken =>
      (m.observeInnerBranch branch_pc branch_target fallthrough_pc taken).1
  | .observeOuterLoad pc address => (m.observeOuterLoad pc address).1
  | .acceptOuter outer_load_pc outer_address outer_stride =>
      (m.acceptOuter outer_load_pc outer_address outer_stride).1
  | .recordOuterInvocation inner_start lanes inner_trigger_pc inner_flr_pc inner_stride =>
      (m.recordOuterInvocation inner_start lanes inner_trigger_pc inner_flr_pc inner_stride).1
  | .observeCommit => (m.observeCommit cfg).1
  | .fallback => m.fallback.1
  | .finishVectorization => m.finishVectorization
  | .reset => m.reset
  | .clear => m.clear

/-- A fresh mode after a sequence of calls. -/
def run (cfg : Config) (calls : List Call) : Mode := calls.foldl (step cfg) {}

/-! ## The plan, state by state -/

/-- The plan is a progression. -/
def Progression (m : Mode) : Prop :=
  ∀ i, i + 1 < m.pendingOuterCount →
    m.pendingOuterBases (i + 1) = m.pendingOuterBases i + m.outerStride

/-- A probe in use holds its last address; with a stride, also the one before it. -/
structure ProbeOk (p : OuterProbe) : Prop where
  last : p.pc ≠ 0 → p.recent0 = p.address ∧ p.address ≠ 0
  stride : p.pc ≠ 0 → p.samples ≠ 1 →
    p.stride ≠ 0 ∧ p.recent1 ≠ 0 ∧ p.address = p.recent1 + p.stride

/-- What a mode has in each of its states. -/
def Shape (m : Mode) : Prop :=
  match m.currentState with
  | .Idle => m.pendingOuterCount = 0 ∧ m.pendingOuterConsumed = 0 ∧ m.invocationCount = 0
  | .SeekingOuter => (m.pendingOuterCount = 0 ∧ m.pendingOuterConsumed = 0 ∧ m.invocationCount = 0) ∧
      ∀ i, ProbeOk (m.outerProbes i)
  | .OuterFound => m.pendingOuterConsumed = 0 ∧ m.invocationCount = 0 ∧ m.outerStride ≠ 0 ∧
      (0 < m.pendingOuterCount → m.pendingOuterCount < MaxOuterInvocations →
        m.pendingOuterBases (m.pendingOuterCount - 1) = m.outerAddress)
  | .Vectorizing => m.pendingOuterConsumed = m.pendingOuterCount ∧
      m.invocationCount = m.pendingOuterCount ∧ 0 < m.pendingOuterCount ∧ m.outerStride ≠ 0 ∧
      ∀ i, i < m.invocationCount →
        (m.invocations i).outerBase = m.pendingOuterBases i ∧
        (m.invocations i).innerStart - (m.invocations 0).innerStart
          = (m.invocations i).outerBase - (m.invocations 0).outerBase

/-- What every reachable mode has. -/
structure Inv (cfg : Config) (m : Mode) : Prop where
  shape : Shape m
  count_le : m.pendingOuterCount ≤ MaxOuterInvocations
  progression : Progression m
  committed_lt : m.committedInstructions < m.budget cfg

variable {cfg : Config} {m : Mode}

theorem search_pos (cfg : Config) : 0 < cfg.outerSearchMaxInstructions :=
  Nat.lt_min.mpr ⟨cfg.instructions_pos, by decide⟩

theorem collection_pos (cfg : Config) : 0 < cfg.outerCollectionMaxInstructions :=
  Nat.lt_of_lt_of_le (search_pos cfg) cfg.collection_ge

theorem budget_pos (cfg : Config) (m : Mode) : 0 < m.budget cfg := by
  unfold Mode.budget
  split_ifs
  · exact search_pos cfg
  · exact collection_pos cfg

/-- A mode without a plan, such as a clean one. -/
theorem Inv.of_empty (hstate : m.currentState = .Idle ∨ m.currentState = .SeekingOuter)
    (hcount : m.pendingOuterCount = 0) (hconsumed : m.pendingOuterConsumed = 0)
    (hinv : m.invocationCount = 0) (hprobes : ∀ i, ProbeOk (m.outerProbes i))
    (hcommitted : m.committedInstructions < m.budget cfg) : Inv cfg m := by
  refine ⟨?_, by omega, ?_, hcommitted⟩
  · unfold Shape
    rcases hstate with h | h
    · rw [h]
      exact ⟨hcount, hconsumed, hinv⟩
    · rw [h]
      exact ⟨⟨hcount, hconsumed, hinv⟩, hprobes⟩
  · intro i hi
    omega

theorem probeOk_fresh : ProbeOk {} := ⟨fun h => absurd rfl h, fun h => absurd rfl h⟩

theorem inv_reset (m : Mode) : Inv cfg m.reset :=
  Inv.of_empty (Or.inl rfl) rfl rfl rfl (fun _ => probeOk_fresh) (budget_pos cfg _)

theorem inv_opened (m : Mode) (inner_load_pc : Addr) (loop_increment : BitVec 64)
    (inner_lanes : Nat) : Inv cfg (m.opened inner_load_pc loop_increment inner_lanes).1 :=
  Inv.of_empty (Or.inr rfl) rfl rfl rfl (fun _ => probeOk_fresh) (budget_pos cfg _)

/-! ## Calls keep it -/

/-- Changing what neither the plan nor the budget reads. -/
theorem Inv.of_same (h : Inv cfg m) {m' : Mode} (hstate : m'.currentState = m.currentState)
    (hcount : m'.pendingOuterCount = m.pendingOuterCount)
    (hconsumed : m'.pendingOuterConsumed = m.pendingOuterConsumed)
    (hbases : m'.pendingOuterBases = m.pendingOuterBases)
    (hic : m'.invocationCount = m.invocationCount) (hinv : m'.invocations = m.invocations)
    (hprobes : m'.outerProbes = m.outerProbes) (hstride : m'.outerStride = m.outerStride)
    (haddress : m'.outerAddress = m.outerAddress)
    (hcommitted : m'.committedInstructions < m'.budget cfg) : Inv cfg m' := by
  refine ⟨?_, hcount ▸ h.count_le, ?_, hcommitted⟩
  · have hshape := h.shape
    unfold Shape at hshape ⊢
    rw [hstate, hcount, hconsumed, hbases, hic, hinv, hprobes, hstride, haddress]
    exact hshape
  · intro i hi
    rw [hbases, hstride]
    exact h.progression i (hcount ▸ hi)

theorem Inv.start (h : Inv cfg m) (inner_load_pc : Addr) (loop_increment : BitVec 64)
    (inner_lanes : Nat) : Inv cfg (m.start cfg inner_load_pc loop_increment inner_lanes).1 := by
  unfold Mode.start
  split_ifs
  · exact h
  · exact inv_opened m inner_load_pc loop_increment inner_lanes
  · exact h.of_same rfl rfl rfl rfl rfl rfl rfl rfl rfl (budget_pos cfg _)
  · exact h
  · exact inv_opened m inner_load_pc loop_increment inner_lanes

theorem Inv.captureLoopRegisters (h : Inv cfg m) (induction_register bound_register : Int)
    (induction_value bound_value : RegVal) (remaining : Nat) :
    Inv cfg (m.captureLoopRegisters induction_register bound_register induction_value bound_value
      remaining) := by
  unfold Mode.captureLoopRegisters
  split_ifs
  · exact h
  all_goals exact h.of_same rfl rfl rfl rfl rfl rfl rfl rfl rfl h.committed_lt

theorem Inv.observeInnerBranch (h : Inv cfg m) (branch_pc branch_target fallthrough_pc : Addr)
    (taken : Bool) :
    Inv cfg (m.observeInnerBranch branch_pc branch_target fallthrough_pc taken).1 := by
  unfold Mode.observeInnerBranch
  split_ifs
  · exact h
  · exact h
  · exact h.of_same rfl rfl rfl rfl rfl rfl rfl rfl rfl h.committed_lt

theorem Inv.acceptOuter (h : Inv cfg m) (outer_load_pc outer_address : Addr)
    (outer_stride : BitVec 64) :
    Inv cfg (m.acceptOuter outer_load_pc outer_address outer_stride).1 := by
  unfold Mode.acceptOuter
  split_ifs with hno
  · exact h
  · push Not at hno
    obtain ⟨hstate, -, -, -, hstride⟩ := hno
    have hshape := h.shape
    unfold Shape at hshape
    rw [hstate] at hshape
    obtain ⟨⟨hcount, hconsumed, hinv⟩, -⟩ := hshape
    refine ⟨⟨hconsumed, hinv, hstride, ?_⟩, h.count_le, ?_, budget_pos cfg _⟩
    · intro hpos
      simp only at hpos
      omega
    · intro i hi
      simp only at hi
      omega

/-! ### Growing the plan -/

/-- A mode in `OuterFound` whose newest base is `last`, as long as there is room. -/
structure Growing (cfg : Config) (m : Mode) (last : Addr) : Prop where
  state : m.currentState = .OuterFound
  consumed : m.pendingOuterConsumed = 0
  invocations : m.invocationCount = 0
  stride : m.outerStride ≠ 0
  newest : 0 < m.pendingOuterCount → m.pendingOuterCount < MaxOuterInvocations →
    m.pendingOuterBases (m.pendingOuterCount - 1) = last
  count_le : m.pendingOuterCount ≤ MaxOuterInvocations
  progression : Progression m
  committed_lt : m.committedInstructions < m.budget cfg

theorem Inv.growing (h : Inv cfg m) (hstate : m.currentState = .OuterFound) :
    Growing cfg m m.outerAddress := by
  have hshape := h.shape
  unfold Shape at hshape
  rw [hstate] at hshape
  obtain ⟨hconsumed, hinv, hstride, hnewest⟩ := hshape
  exact ⟨hstate, hconsumed, hinv, hstride, hnewest, h.count_le, h.progression, h.committed_lt⟩

theorem Growing.inv {last : Addr} (h : Growing cfg m last) (hlast : last = m.outerAddress) :
    Inv cfg m := by
  refine ⟨?_, h.count_le, h.progression, h.committed_lt⟩
  unfold Shape
  rw [h.state]
  refine ⟨h.consumed, h.invocations, h.stride, ?_⟩
  rw [← hlast]
  exact h.newest

/-- The next address of the progression, or the first of an empty plan. -/
theorem Growing.pushBase {last address : Addr} (h : Growing cfg m last)
    (hnext : 0 < m.pendingOuterCount → address = last + m.outerStride) :
    Growing cfg (m.pushBase address) address := by
  unfold Mode.pushBase
  split_ifs with hroom
  · refine ⟨h.state, h.consumed, h.invocations, h.stride, ?_, hroom, ?_, h.committed_lt⟩
    · intro _ _
      simp only [Nat.add_sub_cancel, update_self]
    · intro i hi
      simp only at hi ⊢
      have hi' : i ≠ m.pendingOuterCount := by omega
      rw [update_of_ne hi']
      by_cases hlast : i + 1 = m.pendingOuterCount
      · have hpos : 0 < m.pendingOuterCount := by omega
        have hidx : m.pendingOuterCount - 1 = i := by omega
        have hold := h.newest hpos hroom
        rw [hidx] at hold
        rw [hlast, update_self, hnext hpos, hold]
      · rw [update_of_ne hlast]
        exact h.progression i (by omega)
  · exact ⟨h.state, h.consumed, h.invocations, h.stride, fun _ hlt => absurd hlt hroom, h.count_le,
      h.progression, h.committed_lt⟩

theorem Growing.pushRecent {last address : Addr} (h : Growing cfg m last) (hne : address ≠ 0)
    (hnext : 0 < m.pendingOuterCount → address = last + m.outerStride) :
    Growing cfg (m.pushRecent address) address := by
  rw [Mode.pushRecent, if_pos hne]
  exact h.pushBase hnext

@[simp] theorem pushRecent_outerStride (m : Mode) (address : Addr) :
    (m.pushRecent address).outerStride = m.outerStride := by
  unfold Mode.pushRecent Mode.pushBase
  split_ifs <;> rfl

@[simp] theorem pushRecent_outerAddress (m : Mode) (address : Addr) :
    (m.pushRecent address).outerAddress = m.outerAddress := by
  unfold Mode.pushRecent Mode.pushBase
  split_ifs <;> rfl

/-! ### Probes -/

theorem findProbe_pc {probes : Fin 8 → OuterProbe} {pc : Addr} {l : List (Fin 8)}
    {probe : Option (Fin 8)} (hprobe : ∀ i, probe = some i → (probes i).pc = 0) {i : Fin 8}
    (h : Mode.findProbe probes pc l probe = some i) : (probes i).pc = pc ∨ (probes i).pc = 0 := by
  induction l generalizing probe with
  | nil => exact Or.inr (hprobe i h)
  | cons j rest ih =>
    rw [Mode.findProbe] at h
    by_cases hj : (probes j).pc = pc
    · rw [if_pos hj] at h
      cases h
      exact Or.inl hj
    · rw [if_neg hj] at h
      refine ih ?_ h
      intro k hk
      split_ifs at hk with hfree
      · cases hk
        exact hfree.1
      · exact hprobe k hk

/-- A seeking mode with another probe. -/
theorem Inv.put (h : Inv cfg m) (hstate : m.currentState = .SeekingOuter) (i : Fin 8)
    {probe : OuterProbe} (hprobe : ProbeOk probe) :
    Inv cfg { m with outerProbes := update m.outerProbes i probe } := by
  have hshape := h.shape
  unfold Shape at hshape
  rw [hstate] at hshape
  obtain ⟨⟨hcount, hconsumed, hinv⟩, hprobes⟩ := hshape
  refine Inv.of_empty (Or.inr hstate) hcount hconsumed hinv ?_ h.committed_lt
  intro j
  by_cases hj : j = i
  · subst hj
    simpa using hprobe
  · simpa [hj] using hprobes j

theorem sub_add_self (a b : BitVec 64) : a = b + (a - b) := by ring

theorem Inv.sample (h : Inv cfg m) (hstate : m.currentState = .SeekingOuter)
    (hvalid : m.control.valid = true) {pc address : Addr} (hpc : pc ≠ 0)
    (hinner : pc ≠ m.innerLoadPC) (haddr : address ≠ 0) {i : Fin 8}
    (hi : (m.outerProbes i).pc = pc) : Inv cfg (m.sample i pc address).1 := by
  have hshape := h.shape
  unfold Shape at hshape
  rw [hstate] at hshape
  obtain ⟨⟨hcount, hconsumed, hinv⟩, hprobes⟩ := hshape
  have hpc' : (m.outerProbes i).pc ≠ 0 := hi ▸ hpc
  obtain ⟨hlast, hne⟩ := (hprobes i).last hpc'
  have hdelta : address = (m.outerProbes i).recent0 + (address - (m.outerProbes i).address) := by
    rw [hlast]
    exact sub_add_self _ _
  unfold Mode.sample
  simp only
  split_ifs with h0 h1 h2
  · -- the same address again: one sample
    refine h.put hstate i ⟨fun _ => ⟨rfl, haddr⟩, fun _ hs => absurd rfl hs⟩
  · exact h.put hstate i ⟨fun _ => ⟨rfl, haddr⟩, fun _ _ => ⟨h0, hlast ▸ hne, hdelta⟩⟩
  · exact h.put hstate i ⟨fun _ => ⟨rfl, haddr⟩, fun _ _ => ⟨h0, hlast ▸ hne, hdelta⟩⟩
  · -- the third sample at one stride
    have hsamples : (m.outerProbes i).samples ≠ 1 := h1
    obtain ⟨hstride, hrecent, hprev⟩ := (hprobes i).stride hpc' hsamples
    have heq : address - (m.outerProbes i).address = (m.outerProbes i).stride := not_not.mp h2
    rw [heq] at hdelta
    have haccept : ¬ (m.currentState ≠ .SeekingOuter ∨ (!m.control.valid) = true ∨ pc = 0 ∨
        pc = m.innerLoadPC ∨ (Mode.OuterProbe.shift (m.outerProbes i) address).stride = 0) := by
      simp only [hstate, hvalid, hpc, hinner, Mode.OuterProbe.shift, hstride]
      simp
    simp only [Mode.acceptOuter]
    rw [if_neg haccept]
    have hgrow : Growing cfg { m with
        outerProbes := update m.outerProbes i
          { Mode.OuterProbe.shift (m.outerProbes i) address with
            samples := (Mode.OuterProbe.shift (m.outerProbes i) address).samples + 1 }
        currentState := .OuterFound
        outerLoadPC := pc
        outerAddress := address
        outerStride := (Mode.OuterProbe.shift (m.outerProbes i) address).stride
        committedInstructions := 0
        counters := { m.counters with outerFound := m.counters.outerFound + 1 } } 0 := by
      refine ⟨rfl, hconsumed, hinv, hstride, ?_, h.count_le, ?_, budget_pos cfg _⟩
      · intro hpos
        simp only at hpos
        omega
      · intro k hk
        simp only at hk
        omega
    have h3 := hgrow.pushRecent hrecent (fun hpos => by simp only at hpos; omega)
    have hsecond : (m.outerProbes i).recent0 ≠ 0 := hlast ▸ hne
    have h4 := h3.pushRecent hsecond (fun _ => by
      rw [pushRecent_outerStride, hlast]
      exact hprev)
    have h5 := h4.pushRecent haddr (fun _ => by
      rw [pushRecent_outerStride, pushRecent_outerStride]
      exact hdelta)
    exact h5.inv (by simp)

theorem Inv.observeOuterLoad (h : Inv cfg m) (pc address : Addr) :
    Inv cfg (m.observeOuterLoad pc address).1 := by
  unfold Mode.observeOuterLoad
  split_ifs with hno hfound hnext hseek
  · exact h
  · -- the next outer address
    have hgrow := h.growing hfound
    have hnew : Growing cfg { m with outerAddress := address, committedInstructions := 0 }
        m.outerAddress :=
      ⟨hgrow.state, hgrow.consumed, hgrow.invocations, hgrow.stride, hgrow.newest, hgrow.count_le,
        hgrow.progression, budget_pos cfg _⟩
    have haddr : address = m.outerAddress + m.outerStride := by
      rw [← hnext.2]
      exact sub_add_self _ _
    have hpush := hnew.pushBase fun _ => haddr
    refine hpush.inv ?_
    unfold Mode.pushBase
    split_ifs <;> rfl
  · exact h
  · exact h
  · push Not at hno hseek
    obtain ⟨hvalid, hpc, hinner, haddr⟩ := hno
    cases hp : Mode.findProbe m.outerProbes pc (List.finRange 8) none with
    | none => exact h
    | some i =>
      simp only
      split_ifs with hfree
      · exact h.put hseek i ⟨fun _ => ⟨rfl, haddr⟩, fun _ hs => absurd rfl hs⟩
      · have hi := findProbe_pc (fun j hj => by cases hj) hp
        have hipc : (m.outerProbes i).pc = pc := hi.resolve_right hfree
        exact h.sample hseek (by simpa using hvalid) hpc hinner haddr hipc

/-! ### Consuming the plan -/

theorem materialise_apply (seed : OuterInvocation) (bases : Nat → Addr)
    (invocations : Nat → OuterInvocation) (first count i : Nat) :
    Mode.materialise seed bases invocations first count i
      = if first ≤ i ∧ i < count then Mode.planned seed (bases i) else invocations i := by
  have hmem : i ∈ List.range' first (count - first) ↔ first ≤ i ∧ i < count := by
    rw [List.mem_range'_1]
    omega
  rw [Mode.materialise, Fold.foldl_update (fun i => Mode.planned seed (bases i))]
  simp only [hmem]

/-- The first child consumes the whole plan. -/
theorem record_shape (inner_start : Addr) (lanes : Nat) (inner_trigger_pc inner_flr_pc : Addr)
    (inner_stride : BitVec 64) (hpos : 0 < m.pendingOuterCount) (hconsumed : m.pendingOuterConsumed = 0)
    (hinv : m.invocationCount = 0) {r : Mode}
    (hr : r = m.record inner_start lanes inner_trigger_pc inner_flr_pc inner_stride) :
    r.pendingOuterConsumed = m.pendingOuterCount ∧ r.invocationCount = m.pendingOuterCount ∧
      ∀ i, i < m.pendingOuterCount →
        (r.invocations i).outerBase = m.pendingOuterBases i ∧
        (r.invocations i).innerStart - (r.invocations 0).innerStart
          = (r.invocations i).outerBase - (r.invocations 0).outerBase := by
  rw [Mode.record] at hr
  simp only [hinv, hconsumed, Nat.zero_add, true_and] at hr
  split_ifs at hr with hone
  · subst hr
    refine ⟨rfl, rfl, ?_⟩
    intro i hi
    simp only [materialise_apply, update_self]
    by_cases h0 : i = 0
    · subst h0
      simp
    · have hin : 1 ≤ i ∧ i < m.pendingOuterCount := ⟨by omega, hi⟩
      simp only [hin, and_self, if_true, Mode.planned]
      refine ⟨trivial, ?_⟩
      simp only [show ¬ (1 ≤ 0 ∧ 0 < m.pendingOuterCount) by omega, if_false]
      ring
  · subst hr
    have hcount : m.pendingOuterCount = 1 := by omega
    refine ⟨hcount.symm, hcount.symm, ?_⟩
    intro i hi
    have h0 : i = 0 := by omega
    subst h0
    simp

theorem record_frame (m : Mode) (inner_start : Addr) (lanes : Nat)
    (inner_trigger_pc inner_flr_pc : Addr) (inner_stride : BitVec 64) {r : Mode}
    (hr : r = m.record inner_start lanes inner_trigger_pc inner_flr_pc inner_stride) :
    r.pendingOuterCount = m.pendingOuterCount ∧ r.pendingOuterBases = m.pendingOuterBases ∧
      r.outerStride = m.outerStride := by
  rw [Mode.record] at hr
  split_ifs at hr <;> subst hr <;> exact ⟨rfl, rfl, rfl⟩

theorem Inv.recordOuterInvocation (h : Inv cfg m) (inner_start : Addr) (lanes : Nat)
    (inner_trigger_pc inner_flr_pc : Addr) (inner_stride : BitVec 64) :
    Inv cfg (m.recordOuterInvocation inner_start lanes inner_trigger_pc inner_flr_pc
      inner_stride).1 := by
  by_cases hno : (m.currentState ≠ .OuterFound ∧ m.currentState ≠ .Vectorizing) ∨
      m.pendingOuterCount ≤ m.pendingOuterConsumed ∨ inner_start = 0 ∨ lanes = 0 ∨
      inner_trigger_pc = 0 ∨ inner_flr_pc = 0 ∨ (!m.control.valid) = true
  · rw [Mode.recordOuterInvocation, if_pos hno]
    exact h
  · rw [Mode.recordOuterInvocation, if_neg hno]
    push Not at hno
    obtain ⟨hstate, hroom, -⟩ := hno
    have hshape := h.shape
    unfold Shape at hshape
    -- in `Vectorizing` there is nothing left to consume
    have hfound : m.currentState = .OuterFound := by
      by_contra hne
      rw [hstate hne] at hshape
      omega
    rw [hfound] at hshape
    obtain ⟨hconsumed, hinv, hstride, -⟩ := hshape
    have hlt : m.invocationCount < MaxOuterInvocations := by rw [hinv]; decide
    have hpos : 0 < m.pendingOuterCount := by omega
    simp only [hlt, if_true]
    generalize hr : Mode.record _ inner_start lanes inner_trigger_pc inner_flr_pc inner_stride = r
    obtain ⟨hc, hi, hall⟩ := record_shape inner_start lanes inner_trigger_pc inner_flr_pc inner_stride
      (by exact hpos) (by exact hconsumed) (by exact hinv) hr.symm
    obtain ⟨hcount, hbases, hst⟩ := record_frame _ inner_start lanes inner_trigger_pc inner_flr_pc
      inner_stride hr.symm
    simp only at hc hi hall hcount hbases hst
    have hge : 1 ≤ r.invocationCount := by omega
    simp only [hge, if_true]
    refine ⟨?_, ?_, ?_, budget_pos cfg _⟩
    · unfold Shape
      simp only
      refine ⟨by omega, by omega, by omega, hst ▸ hstride, ?_⟩
      intro i hi'
      rw [hbases]
      exact hall i (by omega)
    · simp only
      rw [hcount]
      exact h.count_le
    · intro i hi'
      rw [hbases, hst]
      exact h.progression i (hcount ▸ hi')

/-! ### Time -/

theorem Inv.observeCommit (h : Inv cfg m) : Inv cfg (m.observeCommit cfg).1 := by
  unfold Mode.observeCommit
  simp only
  split_ifs with hidle hlt
  · exact h
  · exact h.of_same rfl rfl rfl rfl rfl rfl rfl rfl rfl hlt
  · exact inv_reset _

theorem Inv.step (h : Inv cfg m) (call : Call) : Inv cfg (step cfg m call) := by
  cases call with
  | start inner_load_pc loop_increment inner_lanes =>
    exact h.start inner_load_pc loop_increment inner_lanes
  | captureLoopRegisters induction_register bound_register induction_value bound_value remaining =>
    exact h.captureLoopRegisters induction_register bound_register induction_value bound_value remaining
  | observeInnerBranch branch_pc branch_target fallthrough_pc taken =>
    exact h.observeInnerBranch branch_pc branch_target fallthrough_pc taken
  | observeOuterLoad pc address => exact h.observeOuterLoad pc address
  | acceptOuter outer_load_pc outer_address outer_stride =>
    exact h.acceptOuter outer_load_pc outer_address outer_stride
  | recordOuterInvocation inner_start lanes inner_trigger_pc inner_flr_pc inner_stride =>
    exact h.recordOuterInvocation inner_start lanes inner_trigger_pc inner_flr_pc inner_stride
  | observeCommit => exact h.observeCommit
  | fallback =>
    simp only [Nested.step, Mode.fallback]
    split_ifs
    · exact h
    · exact inv_reset _
  | finishVectorization =>
    simp only [Nested.step, Mode.finishVectorization]
    split_ifs
    · exact inv_reset _
    · exact h
  | reset => exact inv_reset m
  | clear =>
    exact Inv.of_empty (Or.inl rfl) rfl rfl rfl (fun _ => probeOk_fresh) (budget_pos cfg _)

theorem inv_run (cfg : Config) (calls : List Call) : Inv cfg (run cfg calls) := by
  have h0 : Inv cfg {} :=
    Inv.of_empty (Or.inl rfl) rfl rfl rfl (fun _ => probeOk_fresh) (budget_pos cfg _)
  exact List.foldlRecOn calls _ h0 fun _ h call _ => h.step call

/-- In every state of the mode, whatever the order of calls: the counters stay within the arrays, the
    plan is a progression, the invocations follow it, and no phase outlives its budget. -/
theorem nested_mode_safe (cfg : Config) (calls : List Call) :
    let m := run cfg calls
    (m.pendingOuterConsumed ≤ m.pendingOuterCount ∧ m.pendingOuterCount ≤ 16 ∧
      m.invocationCount ≤ 16) ∧
    ((0 < m.pendingOuterCount → m.outerStride ≠ 0) ∧
      ∀ i, i + 1 < m.pendingOuterCount →
        m.pendingOuterBases (i + 1) - m.pendingOuterBases i = m.outerStride) ∧
    (∀ i, i < m.invocationCount →
      (m.invocations i).outerBase = m.pendingOuterBases i ∧
      (m.invocations i).innerStart - (m.invocations 0).innerStart
        = (m.invocations i).outerBase - (m.invocations 0).outerBase) ∧
    (m.readyToVectorize = true → 1 ≤ m.invocationCount) ∧
    m.committedInstructions < m.budget cfg := by
  intro m
  have h : Inv cfg m := inv_run cfg calls
  have hle : m.pendingOuterCount ≤ 16 := h.count_le
  have hshape := h.shape
  have hprog : ∀ i, i + 1 < m.pendingOuterCount →
      m.pendingOuterBases (i + 1) - m.pendingOuterBases i = m.outerStride := by
    intro i hi
    rw [h.progression i hi]
    ring
  unfold Shape at hshape
  cases hstate : m.currentState with
  | Idle =>
    rw [hstate] at hshape
    obtain ⟨hcount, hconsumed, hinv⟩ := hshape
    exact ⟨⟨by omega, hle, by omega⟩, ⟨fun hpos => by omega, hprog⟩, fun i hi => by omega,
      fun hready => by simp [Mode.readyToVectorize, hstate] at hready, h.committed_lt⟩
  | SeekingOuter =>
    rw [hstate] at hshape
    obtain ⟨⟨hcount, hconsumed, hinv⟩, -⟩ := hshape
    exact ⟨⟨by omega, hle, by omega⟩, ⟨fun hpos => by omega, hprog⟩, fun i hi => by omega,
      fun hready => by simp [Mode.readyToVectorize, hstate] at hready, h.committed_lt⟩
  | OuterFound =>
    rw [hstate] at hshape
    obtain ⟨hconsumed, hinv, hstride, -⟩ := hshape
    exact ⟨⟨by omega, hle, by omega⟩, ⟨fun _ => hstride, hprog⟩, fun i hi => by omega,
      fun hready => by simp [Mode.readyToVectorize, hstate] at hready, h.committed_lt⟩
  | Vectorizing =>
    rw [hstate] at hshape
    obtain ⟨hconsumed, hinv, hpos, hstride, hall⟩ := hshape
    exact ⟨⟨by omega, hle, by omega⟩, ⟨fun _ => hstride, hprog⟩, hall, fun _ => by omega,
      h.committed_lt⟩

/-- The parameters of the CPU by default. -/
def defaults : Config where
  laneThreshold := 2 ^ 6
  max_instructions := 512
  threshold_pos := by decide
  instructions_pos := by decide
  collection_ge := by decide

/-- An inner loop of eight lanes, three addresses of an outer load with one stride, and one child. -/
def outerLoop : List Call :=
  [.start 0x10 4 8, .observeInnerBranch 0x20 0x08 0x24 true, .observeOuterLoad 0x40 0x1000,
    .observeOuterLoad 0x40 0x1100, .observeOuterLoad 0x40 0x1200,
    .recordOuterInvocation 0x5000 8 0x10 0x14 8]

/-- The child gives three invocations, the third two outer strides on. -/
theorem nested_mode_safe_outerLoop :
    let m := run defaults outerLoop
    m.readyToVectorize = true ∧ m.invocationCount = 3 ∧ (m.invocations 2).outerBase = 0x1200 ∧
      (m.invocations 2).innerStart - (m.invocations 0).innerStart
        = (m.invocations 2).outerBase - (m.invocations 0).outerBase ∧
      m.committedInstructions < m.budget defaults := by
  obtain ⟨_, _, hinvocations, _, hbudget⟩ := nested_mode_safe defaults outerLoop
  exact ⟨by decide, by decide, by decide, (hinvocations 2 (by decide)).2, hbudget⟩

end Gem5Dvr.Nested
