/-
  The source continuation of the vector instruction register (`DVRVectorInstructionRegister`,
  `cpu/o3/pre.hh` 407-528, `pre.cc` 1708-2311).

  Every lane of a captured program waits for the value of its own trigger load.  When a value
  arrives the program after the trigger is resumed for that lane, in one of two ways:

    * `resumeSourceLane`  — SCALAR: the lane alone, uop by uop, to its end;
    * `resumeSourceLanes` — GROUPED: all lanes that have their value, in groups of equal PC.  A
      conditional branch that sends its group two ways keeps one side on a stack of at most eight
      frames, BLOCKED until the other side meets the reconvergence PC or dies.

  Both run the same per-lane code (`execute`) on the same per-lane context (`Lane`).

  What is kept of the source: every field that decides which uop a lane runs next.  `activeMask`
  repeats `laneActive`; `lanePendingReconvergence`, `laneStackDepth`, `alternatePath` and the
  counters of `Result` other than `helperUops` are statistics.  The index of a lane is a
  `Fin n` with `n = continuationLanes`, so the source's `lane >= continuationLanes` cannot happen.
-/
import Mathlib.Data.List.Basic
import Gem5Dvr.Uop

namespace Gem5Dvr.Continuation

open List Function

/-- `DVRInstructionRecorder::FrontEndBufferUops`. -/
def FrontEndBufferUops : Nat := 8

def ReconvergenceEntries : Nat := 8

/-- `laneWindowStart` and `laneWindowEnd` of one lane. -/
structure Window where
  laneWindowStart : Nat := 0
  laneWindowEnd : Nat := 0
  deriving DecidableEq, Repr

/-- The private context of one lane. -/
structure Lane where
  laneActive : Bool := false
  lanePC : Addr := 0
  window : Window := {}
  vectorRegs : Fin 32 → RegVal := fun _ => 0

structure ReconvergenceEntry (n : Nat) where
  deferredMask : Fin n → Bool
  deferredPC : Addr
  pc : Addr

/-- `DVRVectorInstructionRegister`; the TOP of the stack is the head of the list. -/
structure VIR (n : Nat) where
  continuationInitialized : Bool := false
  lanes : Fin n → Lane := fun _ => {}
  laneReady : Fin n → Bool := fun _ => false
  laneBlocked : Fin n → Bool := fun _ => false
  stack : List (ReconvergenceEntry n) := []

/-- What all calls of one continuation share: the captured program, the two arguments of
    `initializeSourceContinuation` that outlive it, the trigger's destination and the budget. -/
structure Context where
  source : List Uop
  scalar_count : Nat := 0
  continuationContinuePastFLR : Bool := false
  source_destination : Option (Fin 32) := none
  max_helper_uops : Nat

namespace Context

variable (c : Context)

def size : Nat := c.source.length

/-- `source[i]`. -/
def uop (i : Nat) : Uop := c.source.getD i {}

def continuationStopIndex : Nat := if 1 < c.scalar_count then c.scalar_count - 1 else 0

/-- `op_index + 1 < size ? source[op_index + 1].pc : 0`. -/
def successor (op_index : Nat) : Addr :=
  if op_index + 1 < c.size then (c.uop (op_index + 1)).pc else 0

/-- Where a lane finds the uop at `pc`: in its own window, or anywhere after the trigger, and then
    the window moves there. -/
def find (w : Window) (pc : Addr) : Option (Nat × Window) :=
  match (range' w.laneWindowStart (w.laneWindowEnd - w.laneWindowStart)).find?
      (fun candidate => (c.uop candidate).pc == pc) with
  | some candidate => some (candidate, w)
  | none =>
    ((range' 1 (c.size - 1)).find? fun candidate => (c.uop candidate).pc == pc).map
      fun candidate => (candidate, ⟨candidate, min (candidate + FrontEndBufferUops) c.size⟩)

end Context

/-! ## One uop on one lane -/

/-- `taken`: the captured outcome, recomputed when the branch depends on the trigger. -/
def branchOutcome (op : Uop) (regs : Fin 32 → RegVal) : Bool :=
  let lhs := Uop.operand regs op.source0
  let rhs := Uop.operand regs op.source1
  if op.tainted then (op.evaluateBranch lhs rhs).getD ((lhs != 0) == op.branchTaken)
  else op.branchTaken

/-- The PC after a conditional branch. -/
def branchNext (c : Context) (op_index : Nat) (taken : Bool) : Addr :=
  let op := c.uop op_index
  if taken then op.branchTargetPC
  else if op.fallthroughPC ≠ 0 then op.fallthroughPC else c.successor op_index

/-- An unconditional transfer with a known target. -/
def directJump (op : Uop) : Bool := !op.conditional && op.control && op.branchTargetPC != 0

/-- `source[op_index]` on one lane: the body of the loop of `resumeSourceLane` after the lookup, and
    of the lane loop of `resumeSourceLanes`. -/
def execute (c : Context) (op_index : Nat) (lane : Lane) : Lane :=
  let op := c.uop op_index
  let next := c.successor op_index
  if op.conditional then
    let next := branchNext c op_index (branchOutcome op lane.vectorRegs)
    { lane with lanePC := next, laneActive := next != 0 && next != (c.uop 0).pc }
  else if op.control && op.branchTargetPC != 0 then
    { lane with lanePC := op.branchTargetPC, laneActive := op.branchTargetPC != (c.uop 0).pc }
  else if op.control && op.intDestinations == 0 then { lane with laneActive := false }
  else if op.stateless then { lane with lanePC := next, laneActive := next != 0 }
  else
    match op.evaluate (Uop.operand lane.vectorRegs op.source0)
        (Uop.operand lane.vectorRegs op.source1) with
    | none => { lane with laneActive := false }
    | some value =>
      let regs := match op.destination with
        | some r => update lane.vectorRegs r value
        | none => lane.vectorRegs
      if next = 0 then { lane with vectorRegs := regs, lanePC := 0, laneActive := false }
      else if !c.continuationContinuePastFLR && op_index == c.continuationStopIndex then
        { lane with vectorRegs := regs, lanePC := 0, laneActive := false }
      else { lane with vectorRegs := regs, lanePC := next }

/-- The uop counts against the scalar budget: all but an indirect return and an operation that
    could not be evaluated. -/
def counted (c : Context) (op_index : Nat) (lane : Lane) : Bool :=
  let op := c.uop op_index
  op.conditional || (op.control && op.branchTargetPC != 0) ||
    (!(op.control && op.intDestinations == 0) &&
      (op.stateless || (op.evaluate (Uop.operand lane.vectorRegs op.source0)
        (Uop.operand lane.vectorRegs op.source1)).isSome))

/-! ## `initializeSourceContinuation` -/

/-- The context every lane starts from. -/
def entry (c : Context) (initial_regs : Fin 32 → RegVal) : Lane where
  laneActive := true
  lanePC := (c.uop 1).pc
  window := ⟨1, min (1 + FrontEndBufferUops) c.size⟩
  vectorRegs := initial_regs

/-- `n` is `continuationLanes`, that is `std::min(lanes, 128U)`: the per-lane arrays have 128
    entries and nothing below depends on that number. -/
def initializeSourceContinuation (c : Context) (n : Nat) (initial_regs : Fin 32 → RegVal) : VIR n :=
  if c.size ≤ 1 ∨ n = 0 then {}
  else { continuationInitialized := true, lanes := fun _ => entry c initial_regs }

/-- The fields of `Result` that say how a call ended, and the count behind `timedOut`. -/
structure Result where
  helperUops : Nat := 0
  timedOut : Bool := false
  stackOverflow : Bool := false
  deriving DecidableEq, Repr

variable {n : Nat}

/-- `vectorRegs[source_destination][lane] = source_value`. -/
def Lane.receive (l : Lane) (c : Context) (source_value : RegVal) : Lane :=
  match c.source_destination with
  | some r => { l with vectorRegs := update l.vectorRegs r source_value }
  | none => l

/-- The condition under which both calls return at once. -/
def VIR.refuses (v : VIR n) (c : Context) (lane : Fin n) : Bool :=
  !v.continuationInitialized || decide (c.size ≤ 1) || !(v.lanes lane).laneActive ||
    c.max_helper_uops == 0

/-! ## `resumeSourceLane` -/

/-- The loop; the second component is `helperUops`. -/
def resumeLaneLoop (c : Context) : Nat → Lane → Nat → Lane × Nat
  | 0, lane, helperUops => (lane, helperUops)
  | steps + 1, lane, helperUops =>
    match c.find lane.window lane.lanePC with
    | none => ({ lane with laneActive := false }, helperUops)
    | some (op_index, w) =>
      let lane' := execute c op_index { lane with window := w }
      let helperUops' := helperUops + (counted c op_index lane).toNat
      if lane'.laneActive then resumeLaneLoop c steps lane' helperUops' else (lane', helperUops')

def resumeSourceLane (c : Context) (v : VIR n) (lane : Fin n) (source_value : RegVal) :
    VIR n × Result :=
  if v.refuses c lane then (v, {})
  else
    let (l, helperUops) :=
      resumeLaneLoop c c.max_helper_uops ((v.lanes lane).receive c source_value) 0
    ({ v with lanes := update v.lanes lane l },
      { helperUops, timedOut := decide (c.max_helper_uops ≤ helperUops) && l.laneActive })

/-! ## `resumeSourceLanes` -/

namespace VIR

variable (v : VIR n)

/-- The lane may be chosen to issue. -/
def runnable (k : Fin n) : Bool := (v.lanes k).laneActive && v.laneReady k && !v.laneBlocked k

/-- The top frame is popped when the selected path has met its reconvergence PC, or when nothing of
    that path is left. -/
def pops (top : ReconvergenceEntry n) : Bool :=
  let selected := (finRange n).filter v.runnable
  selected.any (fun k => (v.lanes k).lanePC == top.pc) || selected.isEmpty

/-- The frame pop, at the head of every turn. -/
def popFrame : VIR n :=
  match v.stack with
  | [] => v
  | top :: rest =>
    if v.pops top then
      { v with
        lanes := fun k =>
          if top.deferredMask k then { v.lanes k with lanePC := top.deferredPC } else v.lanes k
        laneBlocked := fun k => v.laneBlocked k && !top.deferredMask k
        stack := rest }
    else v

/-- The lane whose PC names the group.  The source has one loop for a path just resumed and one for
    any other turn; both stop at the first lane that may issue. -/
def leader : Option (Fin n) := (finRange n).find? v.runnable

/-- No uop for the leader: EVERY lane that may issue is terminated. -/
def terminate : VIR n :=
  { v with
    lanes := fun k => if v.runnable k then { v.lanes k with laneActive := false } else v.lanes k
    laneReady := fun k => v.laneReady k && !v.runnable k }

/-- The window of the leader moves to where its uop was found. -/
def slide (k : Fin n) (w : Window) : VIR n :=
  { v with lanes := update v.lanes k { v.lanes k with window := w } }

/-- A branch of the group is not split while an active lane at the same PC waits for its value. -/
def branchReady (group_pc : Addr) : Bool :=
  let lanes := (finRange n).filter fun k =>
    (v.lanes k).laneActive && !v.laneBlocked k && (v.lanes k).lanePC == group_pc
  !lanes.isEmpty && lanes.all v.laneReady

/-- The lanes the group's uop is executed on; `laneBlocked` is not asked here. -/
def member (group_pc : Addr) (k : Fin n) : Bool :=
  (v.lanes k).laneActive && v.laneReady k && (v.lanes k).lanePC == group_pc

def group (group_pc : Addr) : List (Fin n) := (finRange n).filter (v.member group_pc)

/-- The uop on every lane of the group. -/
def issue (c : Context) (op_index : Nat) (group_pc : Addr) : VIR n :=
  let lanes := fun k =>
    if v.member group_pc k then execute c op_index (v.lanes k) else v.lanes k
  { v with
    lanes := lanes
    laneReady := fun k =>
      if v.member group_pc k then v.laneReady k && (lanes k).laneActive else v.laneReady k }

/-- `taken_lanes`: false for the lanes outside the group. -/
def taken (op : Uop) (group_pc : Addr) (k : Fin n) : Bool :=
  v.member group_pc k && branchOutcome op (v.lanes k).vectorRegs

/-- `has_taken && has_fallthrough`. -/
def diverges (op : Uop) (group_pc : Addr) : Bool :=
  op.conditional && (v.group group_pc).any (v.taken op group_pc) &&
    (v.group group_pc).any fun k => !v.taken op group_pc k

/-- `first_path_taken`: the outcome of the first lane of the group. -/
def firstPathTaken (op : Uop) (group_pc : Addr) : Bool :=
  ((v.group group_pc).head?.map (v.taken op group_pc)).getD false

/-- The push, on the state after the group has issued: `taken_lanes` is compared for EVERY lane
    that is active and ready, in the group or not. -/
def split (op : Uop) (taken_lanes : Fin n → Bool) (first_path_taken : Bool) : VIR n :=
  let deferred := fun k =>
    (v.lanes k).laneActive && v.laneReady k && (v.lanes k).lanePC != 0 &&
      taken_lanes k != first_path_taken
  let deferred_pc :=
    (((finRange n).filter deferred).getLast?.map fun k => (v.lanes k).lanePC).getD 0
  { v with
    laneBlocked := fun k => v.laneBlocked k || deferred k
    stack :=
      { deferredMask := deferred, deferredPC := deferred_pc
        pc := if op.reconvergencePC ≠ 0 then op.reconvergencePC else op.fallthroughPC } :: v.stack }

end VIR

/-- How one turn of the loop ends. -/
inductive Turn (n : Nat)
  | next (v : VIR n) (uops : Nat)
  | wait (v : VIR n)
  | overflow (v : VIR n)
  | leave (v : VIR n)

/-- The register after the turn. -/
def Turn.state : Turn n → VIR n
  | .next v _ | .wait v | .overflow v | .leave v => v

/-- The uop at `op_index` for the group at `group_pc`: one turn after the lookup.  The leader is in
    the group, so the source's `!any_active` exit is never taken. -/
def issueGroup (c : Context) (v : VIR n) (op_index : Nat) (group_pc : Addr) : Turn n :=
  let op := c.uop op_index
  let v' := v.issue c op_index group_pc
  if v.diverges op group_pc then
    if ReconvergenceEntries ≤ v.stack.length then .overflow v'
    else .next (v'.split op (v.taken op group_pc) (v.firstPathTaken op group_pc)) 1
  else
    -- Jumps and skipped uops are counted once per lane AND once per group.
    .next v' (if directJump op || (!op.conditional && op.stateless)
      then (v.group group_pc).length + 1 else 1)

/-- One turn of the loop of `resumeSourceLanes`. -/
def turn (c : Context) (v₀ : VIR n) : Turn n :=
  let v := v₀.popFrame
  match v.leader with
  | none => .leave v
  | some k =>
    let group_pc := (v.lanes k).lanePC
    match c.find (v.lanes k).window group_pc with
    | none => .leave v.terminate
    | some (op_index, w) =>
      let v := v.slide k w
      if (c.uop op_index).conditional && !v.branchReady group_pc then .wait v
      else issueGroup c v op_index group_pc

/-- After the loop: the budget is spent and a lane could still issue. -/
def timedOut (c : Context) (v : VIR n) (helperUops : Nat) : Bool :=
  decide (c.max_helper_uops ≤ helperUops) && (finRange n).any v.runnable

/-- The loop.  A wait and an overflow RETURN, past the test for the time-out. -/
def resumeLoop (c : Context) : Nat → VIR n → Nat → VIR n × Result
  | 0, v, helperUops => (v, { helperUops, timedOut := timedOut c v helperUops })
  | steps + 1, v, helperUops =>
    match turn c v with
    | .next v' uops => resumeLoop c steps v' (helperUops + uops)
    | .wait v' => (v', { helperUops })
    | .overflow v' => (v', { helperUops, stackOverflow := true })
    | .leave v' => (v', { helperUops, timedOut := timedOut c v' helperUops })

/-- The value is stored and the lane may issue. -/
def VIR.arrive (v : VIR n) (c : Context) (lane : Fin n) (source_value : RegVal) : VIR n :=
  { v with
    lanes := update v.lanes lane ((v.lanes lane).receive c source_value)
    laneReady := update v.laneReady lane true }

def resumeSourceLanes (c : Context) (v : VIR n) (lane : Fin n) (source_value : RegVal) :
    VIR n × Result :=
  if v.refuses c lane then (v, {})
  else resumeLoop c c.max_helper_uops (v.arrive c lane source_value) 0

end Gem5Dvr.Continuation
