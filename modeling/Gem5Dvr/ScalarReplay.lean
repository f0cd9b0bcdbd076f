/-
  Scalar replay of a dependent chain (`CPU::replayDVRSource`, `cpu/o3/cpu.cc` 5672-5876): the way out
  when a source response does not become a lane of the live helper.

    1. **Program** — one uop a turn, until the first load, which is the request.  A branch or a jump
       goes to the first uop at its next PC; anything else goes to the next ARRAY slot.
    2. **Reference** — `Machine.step`: both operands are read, and every uop goes to the first uop at
       its successor PC.  A cached suffix ends at its `alternateResumePC`.
    3. `Met`: the uops that a call executes before it gives up, along the reference.
    4. The run of the program is the run of the reference (`Met.loop`) as long as every uop met is
       `Honest`.

  The crux: the list of semantics that read `source1` is not the evaluator's.  `evaluate_source1` says
  which five it misses: for these the second operand is taken as 0.

  What is kept of the request: its address, its PC and whether its line goes to
  `dvrAlternateDependentLines`.  `alternate_active` and `alternate_reconvergence` only count.
-/
import Mathlib.Logic.Function.Iterate
import Gem5Dvr.ReplayLanes

namespace Gem5Dvr.ScalarReplay

open Function

open ReplayLanes (Template Relation)

scoped instance lawfulBEqAddr : LawfulBEq Addr := inferInstance

/-! ## The template -/

/-- `scalarCount`: the prefix up to the last load. -/
def scalarCount (p : Template) : Nat :=
  (List.range' 1 (p.count - 1)).foldl (fun n index => if (p.uop index).load then index + 1 else n) 0

/-- A uop that a template may hold.  Only an ordinary launch takes an indirect transfer. -/
def replayable (nested : Bool) (op : Uop) : Bool :=
  let direct_jump := op.control && !op.conditional && op.branchTargetPC != 0 &&
    op.intDestinations == 0
  let terminal_indirect := op.control && !op.conditional && op.branchTargetPC == 0 &&
    op.intDestinations == 0
  op.semantic != .Unsupported || op.stateless || direct_jump || (!nested && terminal_indirect)

/-- What a launch stores in `valid`. -/
def checked (nested : Bool) (p : Template) : Bool :=
  decide (1 < scalarCount p) && p.triggerDestination.any (fun r => r != 0) &&
    (List.range' 1 (scalarCount p - 1)).all fun index => replayable nested (p.uop index)

/-- The first uop at `next_pc`. -/
def find (p : Template) (next_pc : Addr) : Option Nat :=
  (List.range' 1 (p.count - 1)).find? fun candidate => (p.uop candidate).pc == next_pc

/-- Register 0 stays 0. -/
def writeReg (regs : Fin 32 → RegVal) (r : Fin 32) (value : RegVal) : Fin 32 → RegVal :=
  update (update regs r value) 0 0

/-- The registers when the value of the trigger has arrived. -/
def initial (p : Template) (source_value : RegVal) : Fin 32 → RegVal :=
  match p.triggerDestination with
  | some r => update (update p.initialRegs 0 0) r source_value
  | none => update p.initialRegs 0 0

def is_replayed_load (op : Uop) : Bool :=
  match op.semantic with
  | .LoadAddress | .LoadByteSigned | .LoadByteUnsigned | .LoadHalfSigned | .LoadHalfUnsigned
  | .LoadWordSigned | .LoadWordUnsigned | .LoadDouble => true
  | _ => false

/-- An unconditional transfer with a known target. -/
def jumps (op : Uop) : Bool := op.control && !op.conditional && op.branchTargetPC != 0

/-! ## The program -/

/-- The state of the CPU that a call reads. -/
structure Env where
  relation : Addr → Addr → Option Relation := fun _ _ => none
  cacheLineSize : Nat := 64
  dvrQueuedDependentLines : List Addr := []
  dvrDependentOutstandingLines : List Addr := []
  dvrDependentCompletedLines : List Addr := []
  queueSize : Nat := 0

def Env.dvrPrefetchLine (env : Env) (address : Addr) : Addr :=
  address &&& ~~~ (BitVec.ofNat 64 env.cacheLineSize - 1)

def DvrMaxQueuedPrefetches : Nat := 256

/-- How a call ends; it returns `false` only when it is `refused`. -/
inductive Outcome
  | refused | deduplicated | dropped
  | queued (pc address : Addr) (alternate : Bool)
  deriving DecidableEq, Repr

/-- What the loop carries from turn to turn. -/
structure State where
  index : Nat
  regs : Fin 32 → RegVal
  alternate_selected : Bool := false

inductive Turn
  | stop (outcome : Outcome)
  | go (s : State)

def uses_source1 (op : Uop) : Bool :=
  match op.semantic with
  | .Add | .Sub | .And | .Or | .Xor | .ShiftLeft | .ShiftRightLogical | .ShiftRightArithmetic
  | .Multiply | .AddWord | .SubWord => true
  | _ => op.conditional

/-- `source1`, or `none` if the call gives up. -/
def source1 (op : Uop) (regs : Fin 32 → RegVal) : Option RegVal :=
  if uses_source1 op then
    match op.source1 with
    | some r => some (regs r)
    | none => if op.conditional then some 0 else none
  else some 0

/-- A trained relation does not predict the address. -/
def unstable (env : Env) (p : Template) (source_value : RegVal) (pc result : Addr) : Bool :=
  match env.relation p.triggerPC pc with
  | none => false
  | some relation =>
    let expected := relation.scale * source_value + relation.offset
    expected.msb || expected != result || decide (result < relation.minAddress) ||
      decide (relation.maxAddress < result)

/-- The first load: its request, if nothing speaks against it. -/
def request (env : Env) (p : Template) (source_value : RegVal) (op : Uop) (result : Addr)
    (alternate_selected : Bool) : Outcome :=
  if unstable env p source_value op.pc result then .refused
  else if result < 4096#64 ∨ 0x800000000000#64 ≤ result then .refused
  else
    let line := env.dvrPrefetchLine result
    if line ∈ env.dvrQueuedDependentLines ∨ line ∈ env.dvrDependentOutstandingLines ∨
        line ∈ env.dvrDependentCompletedLines then .deduplicated
    else if DvrMaxQueuedPrefetches ≤ env.queueSize then .dropped
    else .queued op.pc result (op.alternatePath || alternate_selected)

/-- The loop goes on at the first uop at `next_pc`, or the call gives up. -/
def State.goto (s : State) (p : Template) (next_pc : Addr) : Turn :=
  match find p next_pc with
  | some index => .go { s with index }
  | none => .stop .refused

/-- A conditional branch: the captured outcome, recomputed when it depends on the trigger. -/
def State.branch (s : State) (p : Template) (op : Uop) (source0 source1 : RegVal) : Turn :=
  match if op.tainted then op.evaluateBranch source0 source1 else some op.branchTaken with
  | none => .stop .refused
  | some taken =>
    let next_pc := if taken then op.branchTargetPC else op.fallthroughPC
    let captured_target := if op.branchTaken then op.branchTargetPC else op.fallthroughPC
    if next_pc = 0 then .stop .refused
    else
      { s with alternate_selected := s.alternate_selected || next_pc != captured_target }.goto p next_pc

/-- One turn of the loop.  No first source is -1, which compared with the unsigned number of registers
    is not below it. -/
def turn (env : Env) (p : Template) (source_value : RegVal) (s : State) : Turn :=
  let op := p.uop s.index
  let source0 := Uop.operand s.regs op.source0
  match if op.source0.isNone then none else source1 op s.regs with
  | none => .stop .refused
  | some source1 =>
    if op.conditional then s.branch p op source0 source1
    else if jumps op then
      if op.intDestinations ≠ 0 then .stop .refused else s.goto p op.branchTargetPC
    else if op.stateless then .go { s with index := s.index + 1 }
    else
      match op.evaluate source0 source1 with
      | none => .stop .refused
      | some result =>
        if is_replayed_load op then
          .stop (request env p source_value op result s.alternate_selected)
        else
          match op.destination with
          | none => .stop .refused
          | some r =>
            if r = 0 then .stop .refused
            else .go { s with index := s.index + 1, regs := writeReg s.regs r result }

/-- The loop; also the number of its turns.  `budget` is `count * 2 - steps`. -/
def loop (env : Env) (p : Template) (source_value : RegVal) : Nat → State → Outcome × Nat
  | 0, _ => (.refused, 0)
  | budget + 1, s =>
    if s.index < scalarCount p then
      match turn env p source_value s with
      | .stop outcome => (outcome, 1)
      | .go s =>
        let (outcome, steps) := loop env p source_value budget s
        (outcome, steps + 1)
    else (.refused, 0)

def replayDVRSource (env : Env) (p : Template) (source_value : RegVal) : Outcome × Nat :=
  if !p.valid || decide (scalarCount p ≤ 1) then (.refused, 0)
  else loop env p source_value (p.count * 2) { index := 1, regs := initial p source_value }

/-! ## The reference -/

/-- The template as a program. -/
inductive Machine
  | run (index : Nat) (regs : Fin 32 → RegVal)
  | load (pc address : Addr)
  | ended

/-- The PC after a uop that is neither a branch nor a jump. -/
def successorPC (p : Template) (index : Nat) : Addr :=
  let op := p.uop index
  if op.alternatePath && op.alternateResumePC != 0 then op.alternateResumePC else p.successor index

/-- Control passes to the first uop at `pc`. -/
def Machine.goto (p : Template) (pc : Addr) (regs : Fin 32 → RegVal) : Machine :=
  match find p pc with
  | some index => .run index regs
  | none => .ended

/-- `op.destination` receives `value`. -/
def writeBack (op : Uop) (regs : Fin 32 → RegVal) (value : RegVal) : Fin 32 → RegVal :=
  match op.destination with
  | some r => writeReg regs r value
  | none => regs

/-- The uop at `index`. -/
def Machine.uop (p : Template) (index : Nat) (regs : Fin 32 → RegVal) : Machine :=
  let op := p.uop index
  let source0 := Uop.operand regs op.source0
  let source1 := Uop.operand regs op.source1
  if op.conditional then
    match if op.tainted then op.evaluateBranch source0 source1 else some op.branchTaken with
    | none => .ended
    | some taken => .goto p (if taken then op.branchTargetPC else op.fallthroughPC) regs
  else if jumps op then
    .goto p op.branchTargetPC (if op.intDestinations = 0 then regs
      else (op.evaluate source0 source1).elim regs (writeBack op regs))
  else if op.stateless then .goto p (successorPC p index) regs
  else
    match op.evaluate source0 source1 with
    | none => .ended
    | some result =>
      if is_replayed_load op then .load op.pc result
      else .goto p (successorPC p index) (writeBack op regs result)

/-- One uop; the first load is where it stops. -/
def Machine.step (p : Template) : Machine → Machine
  | .run index regs => .uop p index regs
  | m => m

/-- The template is executed from index 1. -/
def Machine.start (p : Template) (source_value : RegVal) : Machine := .run 1 (initial p source_value)

/-- Execution comes to `m`. -/
def Machine.Reaches (p : Template) (source_value : RegVal) (m : Machine) : Prop :=
  ∃ j, (Machine.step p)^[j] (.start p source_value) = m

/-- A call queues nothing but the request of the first load. -/
def Replays (env : Env) (p : Template) (source_value : RegVal) : Prop :=
  ∀ pc address alternate, (replayDVRSource env p source_value).1 = .queued pc address alternate →
    Machine.Reaches p source_value (.load pc address)

/-! ## Where the program is the reference -/

/-- The semantics that read a second operand which is missing in `uses_source1`. -/
def forgotten : Semantic → Bool
  | .MultiplyWord | .Remainder | .RemainderUnsigned | .RemainderWord | .RemainderUnsignedWord => true
  | _ => false

/-- A uop at which a call gives up, whatever its operands: a source is missing, a jump links, there is
    no semantic, or a result has no register to go to. -/
def givesUp (op : Uop) : Bool :=
  op.source0.isNone || (uses_source1 op && !op.conditional && op.source1.isNone) ||
    (!op.conditional && if jumps op then op.intDestinations != 0 else
      !op.stateless && ((op.evaluate 0 0).isNone ||
        (!is_replayed_load op && op.destination.all fun r => r == 0)))

/-- The call executes the uop at `index` after `n` others. -/
structure Executes (p : Template) (n index : Nat) : Prop where
  below : index < scalarCount p
  turns : n < p.count * 2
  goes : givesUp (p.uop index) = false

/-- The uops that a call meets on the way to the first load, with their number.  A branch to PC 0 is
    where a call gives up. -/
inductive Met (p : Template) (source_value : RegVal) : Nat → Nat → (Fin 32 → RegVal) → Prop
  | start : Met p source_value 0 1 (initial p source_value)
  | next {n index index' : Nat} {regs regs' : Fin 32 → RegVal} (h : Met p source_value n index regs)
      (hexec : Executes p n index) (hstep : Machine.uop p index regs = .run index' regs')
      (hpc : (p.uop index).conditional = true → (p.uop index').pc ≠ 0) :
      Met p source_value (n + 1) index' regs'

/-- A uop that the program treats as the reference does: the second operand is read or makes no
    difference, and the next slot, if the loop goes there, is the first at the successor PC. -/
structure Honest (p : Template) (index : Nat) (regs : Fin 32 → RegVal) : Prop where
  reads : (p.uop index).conditional = false → jumps (p.uop index) = false →
    forgotten (p.uop index).semantic = true →
      (p.uop index).evaluate (Uop.operand regs (p.uop index).source0)
        (Uop.operand regs (p.uop index).source1) =
          (p.uop index).evaluate (Uop.operand regs (p.uop index).source0) 0
  follows : (p.uop index).conditional = false → jumps (p.uop index) = false →
    is_replayed_load (p.uop index) = false → index + 1 < scalarCount p →
      find p (successorPC p index) = some (index + 1)

/-- Every uop that is executed on the way to the first load is honest. -/
def Clean (p : Template) (source_value : RegVal) : Prop :=
  ∀ n index regs, Met p source_value n index regs → Executes p n index → Honest p index regs

/-- Of the semantics outside the list only five read a second operand. -/
theorem evaluate_source1 {op : Uop} (huses : uses_source1 op = false)
    (hforgotten : forgotten op.semantic = false) (a b : RegVal) : op.evaluate a b = op.evaluate a 0 := by
  unfold uses_source1 at huses
  unfold Uop.evaluate
  cases hsem : op.semantic <;> rw [hsem] at huses hforgotten
  all_goals first
    | rfl
    | exact Bool.noConfusion huses
    | exact Bool.noConfusion hforgotten

/-- Whether a semantic has a result does not depend on the operands. -/
theorem evaluate_isNone (op : Uop) (a b : RegVal) :
    (op.evaluate a b).isNone = (op.evaluate 0 0).isNone := by
  unfold Uop.evaluate
  cases op.semantic with
  | Remainder =>
    dsimp only
    rw [apply_ite Option.isNone, apply_ite Option.isNone]
    simp
  | _ => simp only [Option.isNone_some, Option.isNone_none]

section

variable {env : Env} {p : Template} {source_value : RegVal} {n index : Nat} {regs : Fin 32 → RegVal}

/-- The operand that is passed on evaluates as the one that is there. -/
theorem Honest.evaluate {value : RegVal} (h : Honest p index regs)
    (hcond : (p.uop index).conditional = false) (hjumps : jumps (p.uop index) = false)
    (hsource : source1 (p.uop index) regs = some value) (a : RegVal)
    (ha : a = Uop.operand regs (p.uop index).source0) :
    (p.uop index).evaluate a value =
      (p.uop index).evaluate a (Uop.operand regs (p.uop index).source1) := by
  unfold source1 at hsource
  by_cases huses : uses_source1 (p.uop index) = true
  · rw [if_pos huses] at hsource
    cases hreg : (p.uop index).source1 with
    | some r =>
      rw [hreg] at hsource
      obtain rfl := Option.some.inj hsource
      rfl
    | none =>
      rw [hreg] at hsource
      by_cases hcond : (p.uop index).conditional = true
      · rw [if_pos hcond] at hsource
        obtain rfl := Option.some.inj hsource
        rfl
      · rw [if_neg hcond] at hsource
        cases hsource
  · rw [if_neg huses] at hsource
    obtain rfl := Option.some.inj hsource
    rw [Bool.not_eq_true] at huses
    cases hforgotten : forgotten (p.uop index).semantic with
    | true =>
      rw [ha]
      exact (h.reads hcond hjumps hforgotten).symm
    | false => exact (evaluate_source1 huses hforgotten _ _).symm

/-- A conditional always reads its second operand. -/
theorem source1_conditional {value : RegVal} {op : Uop} (hcond : op.conditional = true)
    (hsource : source1 op regs = some value) : value = Uop.operand regs op.source1 := by
  have huses : uses_source1 op = true := by
    unfold uses_source1
    split
    all_goals first
      | rfl
      | exact hcond
  unfold source1 at hsource
  rw [if_pos huses] at hsource
  cases hreg : op.source1 with
  | some r =>
    rw [hreg] at hsource
    exact (Option.some.inj hsource).symm
  | none =>
    rw [hreg] at hsource
    rw [if_pos hcond] at hsource
    exact (Option.some.inj hsource).symm

theorem Machine.Reaches.next (h : Machine.Reaches p source_value (.run index regs)) :
    Machine.Reaches p source_value (.uop p index regs) := by
  obtain ⟨j, hj⟩ := h
  refine ⟨j + 1, ?_⟩
  rw [iterate_succ_apply', hj]
  rfl

theorem Met.reaches (h : Met p source_value n index regs) :
    Machine.Reaches p source_value (.run index regs) := by
  induction h with
  | start => exact ⟨0, rfl⟩
  | next _ _ hstep _ ih =>
    rw [← hstep]
    exact ih.next

/-- The outcome of the first load names that load. -/
theorem request_queued {op : Uop} {result pc address : Addr} {selected alternate : Bool}
    (h : request env p source_value op result selected = .queued pc address alternate) :
    pc = op.pc ∧ address = result := by
  unfold request at h
  split at h
  · cases h
  split at h
  · cases h
  dsimp only at h
  split at h
  · cases h
  split at h
  · cases h
  cases h
  exact ⟨rfl, rfl⟩

/-- What a turn has to do with one step of the reference. -/
def Turn.Follows (p : Template) (m : Machine) : Turn → Prop
  | .stop (.queued pc address _) => m = .load pc address
  | .stop _ => True
  | .go s => s.index < scalarCount p → m = .run s.index s.regs

theorem State.goto_follows (s : State) (pc : Addr) :
    (s.goto p pc).Follows p (.goto p pc s.regs) := by
  unfold State.goto Machine.goto
  cases find p pc with
  | none => exact trivial
  | some index => exact fun _ => rfl

theorem Honest.goto {regs' : Fin 32 → RegVal} (h : Honest p index regs)
    (hcond : (p.uop index).conditional = false) (hjumps : jumps (p.uop index) = false)
    (hload : is_replayed_load (p.uop index) = false) (hlt : index + 1 < scalarCount p) :
    Machine.goto p (successorPC p index) regs' = .run (index + 1) regs' := by
  unfold Machine.goto
  rw [h.follows hcond hjumps hload hlt]

/-- A branch decides as the reference does. -/
theorem State.branch_follows (s : State) (hcond : (p.uop s.index).conditional = true) {value : RegVal}
    (hsource : source1 (p.uop s.index) s.regs = some value) :
    (s.branch p (p.uop s.index) (Uop.operand s.regs (p.uop s.index).source0) value).Follows p
      (.uop p s.index s.regs) := by
  obtain rfl := source1_conditional hcond hsource
  unfold State.branch Machine.uop
  rw [if_pos hcond]
  cases if (p.uop s.index).tainted then
      (p.uop s.index).evaluateBranch (Uop.operand s.regs (p.uop s.index).source0)
        (Uop.operand s.regs (p.uop s.index).source1)
    else some (p.uop s.index).branchTaken with
  | none => exact trivial
  | some taken =>
    dsimp only
    generalize (if taken then (p.uop s.index).branchTargetPC else (p.uop s.index).fallthroughPC) = next
    by_cases hzero : next = 0
    · rw [if_pos hzero]
      exact trivial
    · rw [if_neg hzero]
      exact State.goto_follows { s with alternate_selected := _ } next

/-- A branch goes to a uop that has a PC. -/
theorem State.branch_pc {s s' : State} {op : Uop} {a b : RegVal} (h : s.branch p op a b = .go s') :
    (p.uop s'.index).pc ≠ 0 := by
  unfold State.branch at h
  cases hdecided : (if op.tainted then op.evaluateBranch a b else some op.branchTaken) with
  | none =>
    rw [hdecided] at h
    cases h
  | some taken =>
    rw [hdecided] at h
    dsimp only at h
    generalize (if taken then op.branchTargetPC else op.fallthroughPC) = next at h
    by_cases hzero : next = 0
    · rw [if_pos hzero] at h
      cases h
    · rw [if_neg hzero] at h
      unfold State.goto at h
      cases hfind : find p next with
      | none =>
        rw [hfind] at h
        cases h
      | some index =>
        rw [hfind] at h
        cases h
        unfold find at hfind
        have hpc : ((p.uop index).pc == next) = true := by
          simpa using List.find?_some hfind
        rw [beq_iff_eq.mp hpc]
        exact hzero

theorem turn_pc {s s' : State} (hcond : (p.uop s.index).conditional = true)
    (h : turn env p source_value s = .go s') : (p.uop s'.index).pc ≠ 0 := by
  unfold turn at h
  dsimp only at h
  split at h
  · cases h
  · rw [if_pos hcond] at h
    exact State.branch_pc h

/-- Where a call gives up, it does. -/
theorem turn_givesUp {s : State} (h : givesUp (p.uop s.index) = true) :
    turn env p source_value s = .stop .refused := by
  unfold turn
  generalize p.uop s.index = op at h ⊢
  dsimp only
  by_cases hsource0 : op.source0.isNone = true
  · rw [if_pos hsource0]
  rw [if_neg hsource0]
  cases hsource : source1 op s.regs with
  | none => rfl
  | some value =>
    have hread : (uses_source1 op && !op.conditional && op.source1.isNone) = false := by
      unfold source1 at hsource
      cases huses : uses_source1 op with
      | false => rfl
      | true =>
        rw [huses, if_pos rfl] at hsource
        cases hreg : op.source1 with
        | some r => simp
        | none =>
          cases hcond : op.conditional with
          | true => rfl
          | false =>
            rw [hreg, hcond] at hsource
            cases hsource
    have hrest : (!op.conditional && if jumps op then op.intDestinations != 0 else
        !op.stateless && ((op.evaluate 0 0).isNone ||
          (!is_replayed_load op && op.destination.all fun r => r == 0))) = true := by
      unfold givesUp at h
      rw [Bool.not_eq_true] at hsource0
      rw [hsource0, hread, Bool.false_or, Bool.false_or] at h
      exact h
    rw [Bool.and_eq_true, Bool.not_eq_true'] at hrest
    obtain ⟨hcond, hrest⟩ := hrest
    dsimp only
    rw [hcond, if_neg Bool.false_ne_true]
    by_cases hjumps : jumps op = true
    · rw [if_pos hjumps] at hrest ⊢
      rw [if_pos (bne_iff_ne.mp hrest)]
    rw [if_neg hjumps] at hrest ⊢
    rw [Bool.and_eq_true, Bool.not_eq_true', Bool.or_eq_true] at hrest
    obtain ⟨hstate, hrest⟩ := hrest
    rw [hstate, if_neg Bool.false_ne_true]
    rcases hrest with hnone | hnowhere
    · rw [← evaluate_isNone op (Uop.operand s.regs op.source0) value, Option.isNone_iff_eq_none]
        at hnone
      rw [hnone]
    · rw [Bool.and_eq_true, Bool.not_eq_true'] at hnowhere
      cases op.evaluate (Uop.operand s.regs op.source0) value with
      | none => rfl
      | some result =>
        dsimp only
        rw [hnowhere.1, if_neg Bool.false_ne_true]
        cases hdest : op.destination with
        | none => rfl
        | some r =>
          have hzero : (r == 0) = true := by
            have hall := hnowhere.2
            rw [hdest] at hall
            exact hall
          dsimp only
          rw [if_pos (beq_iff_eq.mp hzero)]

/-- An honest turn is one step of the reference. -/
theorem Honest.turn {s : State} (h : Honest p s.index s.regs) :
    (turn env p source_value s).Follows p (.uop p s.index s.regs) := by
  unfold ScalarReplay.turn
  dsimp only
  by_cases hsource0 : (p.uop s.index).source0.isNone = true
  · rw [if_pos hsource0]
    exact trivial
  rw [if_neg hsource0]
  cases hsource : source1 (p.uop s.index) s.regs with
  | none => exact trivial
  | some value =>
    dsimp only
    by_cases hcond : (p.uop s.index).conditional = true
    · rw [if_pos hcond]
      exact s.branch_follows hcond hsource
    rw [if_neg hcond]
    rw [Bool.not_eq_true] at hcond
    by_cases hjumps : jumps (p.uop s.index) = true
    · rw [if_pos hjumps]
      by_cases hlink : (p.uop s.index).intDestinations ≠ 0
      · rw [if_pos hlink]
        exact trivial
      · have hstep : Machine.uop p s.index s.regs =
            .goto p (p.uop s.index).branchTargetPC s.regs := by
          unfold Machine.uop
          dsimp only
          rw [hcond, if_neg Bool.false_ne_true, if_pos hjumps, if_pos (not_not.mp hlink)]
        rw [if_neg hlink, hstep]
        exact s.goto_follows _
    rw [if_neg hjumps]
    have hjumps' := hjumps
    rw [Bool.not_eq_true] at hjumps'
    unfold Machine.uop
    dsimp only
    rw [hcond, if_neg Bool.false_ne_true, if_neg hjumps]
    by_cases hstate : (p.uop s.index).stateless = true
    · rw [if_pos hstate, if_pos hstate]
      have hload : is_replayed_load (p.uop s.index) = false := by
        unfold Uop.stateless at hstate
        simp only [Bool.and_eq_true, beq_iff_eq] at hstate
        unfold is_replayed_load
        rw [hstate.1.1]
      exact h.goto hcond hjumps' hload
    rw [if_neg hstate, if_neg hstate, h.evaluate hcond hjumps' hsource _ rfl]
    cases (p.uop s.index).evaluate (Uop.operand s.regs (p.uop s.index).source0)
        (Uop.operand s.regs (p.uop s.index).source1) with
    | none => exact trivial
    | some result =>
      dsimp only
      by_cases hload : is_replayed_load (p.uop s.index) = true
      · rw [if_pos hload, if_pos hload]
        cases hreq : request env p source_value (p.uop s.index) result s.alternate_selected with
        | queued pc address alternate =>
          obtain ⟨rfl, rfl⟩ := request_queued hreq
          rfl
        | refused => exact trivial
        | deduplicated => exact trivial
        | dropped => exact trivial
      · rw [if_neg hload, if_neg hload]
        rw [Bool.not_eq_true] at hload
        unfold writeBack
        cases (p.uop s.index).destination with
        | none => exact trivial
        | some r =>
          dsimp only
          by_cases hr : r = 0
          · rw [if_pos hr]
            exact trivial
          · rw [if_neg hr]
            exact h.goto hcond hjumps' hload

/-- The loop runs along the reference until it stops. -/
theorem Met.loop (hclean : Clean p source_value) (budget : Nat) {n : Nat} {s : State}
    (hturns : n + budget = p.count * 2)
    (hmet : s.index < scalarCount p → Met p source_value n s.index s.regs)
    {pc address : Addr} {alternate : Bool}
    (hqueued : (ScalarReplay.loop env p source_value budget s).1 = .queued pc address alternate) :
    Machine.Reaches p source_value (.load pc address) := by
  induction budget generalizing n s with
  | zero => cases hqueued
  | succ budget ih =>
    unfold ScalarReplay.loop at hqueued
    by_cases hindex : s.index < scalarCount p
    · rw [if_pos hindex] at hqueued
      cases hgoes : givesUp (p.uop s.index) with
      | true =>
        rw [turn_givesUp hgoes] at hqueued
        cases hqueued
      | false =>
        have hexec : Executes p n s.index := ⟨hindex, by omega, hgoes⟩
        have hnext := (hmet hindex).reaches.next
        have hturn : (ScalarReplay.turn env p source_value s).Follows p (.uop p s.index s.regs) :=
          (hclean n _ _ (hmet hindex) hexec).turn
        cases hstep : ScalarReplay.turn env p source_value s with
        | stop outcome =>
          rw [hstep] at hqueued hturn
          obtain rfl : outcome = .queued pc address alternate := hqueued
          rw [show Machine.uop p s.index s.regs = .load pc address from hturn] at hnext
          exact hnext
        | go s' =>
          rw [hstep] at hqueued hturn
          refine ih (n := n + 1) (by omega) (fun hlt => ?_) hqueued
          exact (hmet hindex).next hexec (hturn hlt) fun hcond => turn_pc hcond hstep
    · rw [if_neg hindex] at hqueued
      cases hqueued

theorem loop_steps (budget : Nat) (s : State) : (loop env p source_value budget s).2 ≤ budget := by
  induction budget generalizing s with
  | zero => exact Nat.le_refl 0
  | succ budget ih =>
    unfold loop
    by_cases hindex : s.index < scalarCount p
    · rw [if_pos hindex]
      cases turn env p source_value s with
      | stop outcome => exact Nat.succ_le_succ (Nat.zero_le budget)
      | go s' => exact Nat.succ_le_succ (ih s')
    · rw [if_neg hindex]
      exact Nat.zero_le _

end

/-- **The first load**: for every state of the CPU, template and source value, along a clean chain a
    queued request is for the effective address of the first load, and the loop makes at most
    `2 * count` turns. -/
theorem replayDVRSource_first_load (env : Env) (p : Template) (source_value : RegVal)
    (hclean : Clean p source_value) :
    Replays env p source_value ∧ (replayDVRSource env p source_value).2 ≤ 2 * p.count := by
  unfold Replays replayDVRSource
  by_cases hvalid : (!p.valid || decide (scalarCount p ≤ 1)) = true
  · rw [if_pos hvalid]
    exact ⟨fun _ _ _ hqueued => Outcome.noConfusion hqueued, Nat.zero_le _⟩
  · rw [if_neg hvalid]
    constructor
    · intro pc address alternate hqueued
      exact Met.loop hclean (p.count * 2) (Nat.zero_add _) (fun _ => .start) hqueued
    · exact Nat.le_trans (loop_steps (p.count * 2) _) (Nat.le_of_eq (Nat.mul_comm p.count 2))

/-! ## Chains -/

/-- `ld x5`, the trigger; `remu x6, x5, x7`; `ld x8, (x6)`, with `x7 = modulus`. -/
def remainderChain (modulus : RegVal) : Template where
  triggerPC := 0x10
  triggerDestination := some 5
  uops :=
    [{ pc := 0x10, load := true, semantic := .LoadDouble, source0 := some 9, destination := some 5,
       intDestinations := 0x20 },
     { pc := 0x14, semantic := .RemainderUnsigned, source0 := some 5, source1 := some 7,
       destination := some 6, intDestinations := 0x40 },
     { pc := 0x18, load := true, semantic := .LoadDouble, source0 := some 6, destination := some 8,
       intDestinations := 0x100 }]
  initialRegs := update (fun _ => 0) 7 modulus
  valid := true

/-- A modulus that leaves the value as it is. -/
theorem clean_remainderChain : Clean (remainderChain 0x10000) 0x5000 := by
  intro n index regs hmet hexec
  obtain ⟨j, hj⟩ := hmet.reaches
  match j with
  | 0 =>
    cases hj
    exact ⟨fun _ _ _ => by decide, fun _ _ _ _ => by decide⟩
  | 1 =>
    cases hj
    exact ⟨fun _ _ hforgotten => absurd hforgotten (by decide),
      fun _ _ hload => absurd hload (by decide)⟩
  | j + 2 =>
    rw [iterate_add_apply, iterate_fixed
      (show Machine.step _ ((Machine.step (remainderChain 0x10000))^[2] (.start _ 0x5000)) =
        (Machine.step (remainderChain 0x10000))^[2] (.start _ 0x5000) from rfl)] at hj
    cases hj

/-- The operand that is not read does not change this remainder. -/
theorem replayDVRSource_first_load_remainder : Replays {} (remainderChain 0x10000) 0x5000 ∧
      (replayDVRSource {} (remainderChain 0x10000) 0x5000).2 ≤ 2 * (remainderChain 0x10000).count :=
  replayDVRSource_first_load {} (remainderChain 0x10000) 0x5000 clean_remainderChain

/-- `beqz x5` past `addi x6, x10, 0x8000` to a load, and a cached suffix for it that is followed by
    another one: the first suffix ends at the load, the second has a load of its own. -/
def suffixChain : Template where
  triggerPC := 0x10
  triggerDestination := some 5
  uops :=
    [{ pc := 0x10, load := true, semantic := .LoadDouble, source0 := some 9, destination := some 5,
       intDestinations := 0x20 },
     { pc := 0x14, control := true, conditional := true, semantic := .BranchEqual, source0 := some 5,
       branchTargetPC := 0x40, fallthroughPC := 0x18, reconvergencePC := 0x1c, tainted := true },
     { pc := 0x18, semantic := .AddImmediate, source0 := some 10, immediate := 0x8000,
       destination := some 6, intDestinations := 0x40 },
     { pc := 0x1c, load := true, semantic := .LoadDouble, source0 := some 6, destination := some 7,
       intDestinations := 0x80 },
     { pc := 0x40, semantic := .AddImmediate, source0 := some 10, immediate := 0x9000,
       destination := some 6, intDestinations := 0x40, alternatePath := true,
       alternateResumePC := 0x1c },
     { pc := 0x60, load := true, semantic := .LoadDouble, source0 := some 6, immediate := 8,
       destination := some 8, intDestinations := 0x100, alternatePath := true }]
  valid := true

/-- A chain that has come to a load has come to its only one. -/
theorem Machine.Reaches.load_unique {p : Template} {source_value : RegVal} {pc pc' address address' : Addr}
    (h : Machine.Reaches p source_value (.load pc address))
    (h' : Machine.Reaches p source_value (.load pc' address')) : pc' = pc ∧ address' = address := by
  obtain ⟨i, hi⟩ := h
  obtain ⟨j, hj⟩ := h'
  have hlater : ∀ {a b : Nat} {m : Machine}, m.step p = m → a ≤ b →
      (Machine.step p)^[a] (.start p source_value) = m →
        (Machine.step p)^[b] (.start p source_value) = m := by
    intro a b m hfixed hab ha
    obtain ⟨d, rfl⟩ := Nat.exists_eq_add_of_le' hab
    rw [iterate_add_apply, ha]
    exact iterate_fixed hfixed d
  rcases Nat.le_total i j with hij | hji
  · have hlate := hlater (m := .load pc address) rfl hij hi
    rw [hj] at hlate
    cases hlate
    exact ⟨rfl, rfl⟩
  · have hlate := hlater (m := .load pc' address') rfl hji hj
    rw [hi] at hlate
    cases hlate
    exact ⟨rfl, rfl⟩

/-- Both chains are valid templates.  In the first the modulus is read as 0 and the value itself is
    taken for the address, 0x5000 and not 0x2000; in the second control runs from the one suffix into
    the other. -/
theorem replays_not_always :
    (checked false (remainderChain 0x3000) = true ∧ ¬ Replays {} (remainderChain 0x3000) 0x5000) ∧
      (checked false suffixChain = true ∧ ¬ Replays {} suffixChain 0) := by
  refine ⟨⟨by decide, fun h => ?_⟩, ⟨by decide, fun h => ?_⟩⟩
  · have hload : Machine.Reaches (remainderChain 0x3000) 0x5000 (.load 0x18 0x2000) := ⟨2, rfl⟩
    have hcode := h 0x18 0x5000 false (by decide)
    exact absurd (hload.load_unique hcode).2 (by decide)
  · have hload : Machine.Reaches suffixChain 0 (.load 0x1c 0x9000) := ⟨3, rfl⟩
    have hcode := h 0x60 0x9008 true (by decide)
    exact absurd (hload.load_unique hcode).1 (by decide)

end Gem5Dvr.ScalarReplay
