/-
  The loop-bound detector (`DVRLoopBoundDetector`, `cpu/o3/pre.hh` 528-596, `pre.cc` 2370-2530).

    1. An instruction as the detector sees it.  An operand that names `x0` is no integer register
       (`operands.isa`: `IntReg.regId` is `RegId()` for it), so it is not among the sources.
    2. **Program** — `begin`, `updateFinalLoad`, `observe`.
    3. A compare, then a branch on its result against `x0`: what is captured.

  The crux: a branch against `x0` has ONE integer source, and both rules for a backward branch ask for
  two; so such a branch changes nothing, and what counts is the last instruction the compare rule
  took.  That rule looks at the opcode and `funct3` only, and takes MULHSU and MULHU too.

  `asBytes` gives the eight bytes of an `ExtMachInst`, so `encoded_size >= 4` always holds.
-/
import Gem5Dvr.Uop

namespace Gem5Dvr.LoopBound

open List

/-! ## Instructions -/

/-- An integer register: any but `x0`. -/
abbrev IntReg := { index : Nat // index ≠ 0 }

/-- `regId` of an integer operand. -/
def regId (r : BitVec 5) : Option IntReg :=
  if h : r.toNat ≠ 0 then some ⟨r.toNat, h⟩ else none

/-- What `observe` reads of an instruction; a register of another class is `none`. -/
structure Inst where
  pc : Addr
  encoded : BitVec 64
  srcRegs : List (Option IntReg)
  destRegs : List (Option IntReg) := []
  isCondCtrl : Bool := false
  isDirectCtrl : Bool := false
  branchTarget : Option Addr := none

namespace Inst

variable (i : Inst)

def opcode : BitVec 64 := i.encoded &&& 0x7f#64

def funct3 : BitVec 64 := (i.encoded >>> 12) &&& 0x7#64

def funct7 : BitVec 64 := (i.encoded >>> 25) &&& 0x7f#64

/-- The first two integer sources, if there are two. -/
def sources : Option (IntReg × IntReg) :=
  match i.srcRegs.reduceOption with
  | a :: b :: _ => some (a, b)
  | _ => none

/-- The first integer destination. -/
def destination : Option IntReg := i.destRegs.reduceOption.head?

end Inst

/-! ## The detector -/

inductive Comparison
  | Unknown | Equal | NotEqual
  | SignedLess | SignedGreaterEqual | UnsignedLess | UnsignedGreaterEqual
  deriving DecidableEq, Repr

/-- `RegisterSnapshot`. -/
abbrev Snapshot := Nat → RegVal

/-- `DVRLoopBoundDetector`; `-1` is `none`. -/
structure Detector where
  triggerPC : Addr := 0
  finalLoadPC : Addr := 0
  lastComparePC : Addr := 0
  loopBranchPC : Addr := 0
  loopTargetPC : Addr := 0
  boundSource0 : Option IntReg := none
  boundSource1 : Option IntReg := none
  compareDestination : Option IntReg := none
  branchValue0 : RegVal := 0
  branchValue1 : RegVal := 0
  branchValuesValid : Bool := false
  comparison : Comparison := .Unknown
  seenBranch : Bool := false
  earlyExitSeen : Bool := false

structure Observation where
  backwardBranch : Bool := false
  boundFound : Bool := false
  deriving DecidableEq, Repr

def begin (trigger_pc : Addr) : Detector := { triggerPC := trigger_pc }

namespace Detector

variable (d : Detector)

def updateFinalLoad (final_load_pc : Addr) : Detector :=
  { triggerPC := d.triggerPC, finalLoadPC := final_load_pc }

/-- The instruction goes for a register-register SLT or SLTU. -/
def isCompare (i : Inst) : Bool := i.opcode == 0x33 && (i.funct3 == 2 || i.funct3 == 3)

/-- The compare that an instruction is recorded as. -/
def compareOf (i : Inst) : Option (IntReg × IntReg × IntReg × Comparison) :=
  match i.sources, i.destination with
  | some (a, b), some c =>
    some (a, b, c, if i.funct3 = 2 then .SignedLess else .UnsignedLess)
  | _, _ => none

/-- The compare rule. -/
def observeCompare (i : Inst) : Detector :=
  match compareOf i with
  | some (a, b, c, k) =>
    { d with
      lastComparePC := i.pc
      boundSource0 := some a
      boundSource1 := some b
      compareDestination := some c
      comparison := k
      branchValuesValid := false }
  | none => d

/-- The branch tests the recorded result against `x0`. -/
def consumesCompare (i : Inst) : Bool := i.opcode == 0x63 && (i.funct3 == 0 || i.funct3 == 1) &&
    match d.compareDestination, i.sources with
    | some c, some (a, b) =>
      (decide (a = c) && b.val == 0) || (decide (b = c) && a.val == 0)
    | _, _ => false

/-- The comparison of a fused branch. -/
def fusedComparison (i : Inst) : Option Comparison :=
  if i.opcode ≠ 0x63 then none
  else if i.funct3 = 1 then some .NotEqual
  else if i.funct3 = 4 then some .SignedLess
  else if i.funct3 = 5 then some .SignedGreaterEqual
  else if i.funct3 = 6 then some .UnsignedLess
  else if i.funct3 = 7 then some .UnsignedGreaterEqual
  else none

/-- The branch is recorded as its own compare. -/
def observeFused (i : Inst) : Option Detector :=
  if d.seenBranch = true then none
  else
    match fusedComparison i, i.sources with
    | some k, some (a, b) =>
      some { d with
        comparison := k
        lastComparePC := i.pc
        boundSource0 := some a
        boundSource1 := some b
        compareDestination := none }
    | _, _ => none

/-- The loop goes from the target, at or before the trigger, to the branch, at or after the final
    load. -/
def enclosesChain (pc target : Addr) : Bool :=
  d.finalLoadPC != 0 && decide (target ≤ d.triggerPC) && decide (d.finalLoadPC ≤ pc)

/-- The value of a recorded source. -/
def sourceValue (regs : Snapshot) : Option IntReg → RegVal
  | some r => regs r.val
  | none => 0

/-- The loop branch is found. -/
def close (i : Inst) (target : Addr) (regs : Option Snapshot) : Detector :=
  let comparison :=
    if i.funct3 = 0 then
      match d.comparison with
      | .SignedLess => .SignedGreaterEqual
      | .UnsignedLess => .UnsignedGreaterEqual
      | k => k
    else d.comparison
  let d := { d with comparison := comparison, loopBranchPC := i.pc, loopTargetPC := target }
  match regs with
  | some regs =>
    { d with
      branchValue0 := sourceValue regs d.boundSource0
      branchValue1 := sourceValue regs d.boundSource1
      branchValuesValid := true
      seenBranch := true }
  | none => { d with seenBranch := true }

/-- A backward conditional branch. -/
def observeBackward (i : Inst) (target : Addr) (regs : Option Snapshot) : Detector × Observation :=
  let consumes := d.consumesCompare i
  let fused := d.observeFused i
  let encloses := d.enclosesChain i.pc target
  let found := encloses && (consumes || fused.isSome)
  let d := fused.getD d
  let d := if d.seenBranch = false ∧ found = true then d.close i target regs else d
  (d, { backwardBranch := true, boundFound := d.seenBranch && found })

def observe (i : Inst) (regs : Option Snapshot) : Detector × Observation :=
  if d.seenBranch = false ∧ d.finalLoadPC ≠ 0 ∧ isCompare i = true then (d.observeCompare i, {})
  else if i.isCondCtrl = false ∨ i.isDirectCtrl = false then (d, {})
  else
    match i.branchTarget with
    | none => (d, {})
    | some target =>
      let d := { d with
        earlyExitSeen := d.earlyExitSeen ||
          (d.seenBranch && decide (i.pc < target) && decide (d.loopBranchPC < target)) }
      if i.pc < target then (d, {}) else d.observeBackward i target regs

/-- A stream of committed instructions, some with a snapshot. -/
def observeAll (stream : List (Inst × Option Snapshot)) : Detector :=
  stream.foldl (fun d x => (d.observe x.1 x.2).1) d

end Detector

/-! ## A compare and its branch -/

/-- `SLT c, a, b`, or `SLTU`. -/
structure IsSetLess (i : Inst) (unsigned : Bool) (c a b : BitVec 5) : Prop where
  opcode : i.opcode = 0x33
  funct3 : i.funct3 = if unsigned then 3 else 2
  funct7 : i.funct7 = 0
  srcRegs : i.srcRegs = [regId a, regId b]
  destRegs : i.destRegs = [regId c]
  isCondCtrl : i.isCondCtrl = false

/-- `BEQ c, x0`, or `BNE`. -/
structure IsZeroBranch (i : Inst) (equal : Bool) (c : BitVec 5) (target : Addr) : Prop where
  opcode : i.opcode = 0x63
  funct3 : i.funct3 = if equal then 0 else 1
  srcRegs : i.srcRegs = [regId c, regId 0]
  isCondCtrl : i.isCondCtrl = true
  isDirectCtrl : i.isDirectCtrl = true
  branchTarget : i.branchTarget = some target

/-- A conditional branch to itself or to what comes before. -/
def isBackwardBranch (i : Inst) : Bool :=
  i.isCondCtrl && i.isDirectCtrl && i.branchTarget.any fun target => decide (target ≤ i.pc)

/-- The comparison that holds just when the branch is taken. -/
def takenComparison (unsigned equal : Bool) : Comparison :=
  match unsigned, equal with
  | false, false => .SignedLess
  | true, false => .UnsignedLess
  | false, true => .SignedGreaterEqual
  | true, true => .UnsignedGreaterEqual

/-- The detector holds these operands and this comparison. -/
def Detector.Captured (d : Detector) (a b : BitVec 5) (k : Comparison) : Prop :=
  d.boundSource0.map Subtype.val = some a.toNat ∧ d.boundSource1.map Subtype.val = some b.toNat ∧
    d.comparison = k

/-- What the compare rule takes last of some instructions. -/
def lastCompare (is : List Inst) : Option (IntReg × IntReg × IntReg × Comparison) :=
  ((is.filter Detector.isCompare).filterMap Detector.compareOf).getLast?

/-- No branch has closed the pair, the branch is BNE, no operand is `x0`, and the last compare taken
    has these operands and this comparison; or a branch has, and has recorded just these. -/
def Detector.Captures (d : Detector) (unsigned equal : Bool) (a b : BitVec 5)
    (cmp : Inst) (mid : List Inst) : Prop :=
  if d.seenBranch = true then d.Captured a b (takenComparison unsigned equal)
  else equal = false ∧ a ≠ 0 ∧ b ≠ 0 ∧ ∃ x ∈ lastCompare (cmp :: mid),
    x.1.val = a.toNat ∧ x.2.1.val = b.toNat ∧ x.2.2.2 = takenComparison unsigned false

/-! ### One instruction -/

theorem regId_of_ne {r : BitVec 5} (h : r ≠ 0) : ∃ x, regId r = some x ∧ x.val = r.toNat := by
  have hn : r.toNat ≠ 0 := fun hz => h (BitVec.eq_of_toNat_eq hz)
  exact ⟨⟨r.toNat, hn⟩, dif_pos hn, rfl⟩

theorem regId_zero : regId 0 = none := rfl

/-- No operand of a recorded pair is `x0`. -/
theorem ne_zero_of_val {x : Option IntReg} {r : BitVec 5}
    (h : x.map Subtype.val = some r.toNat) : r ≠ 0 := by
  rintro rfl
  obtain ⟨y, _, hy⟩ := Option.map_eq_some_iff.mp h
  exact y.2 hy

namespace Detector

variable {d : Detector} {i : Inst} {regs : Option Snapshot}

/-- Once a branch is found only `earlyExitSeen` changes. -/
theorem observe_of_seen (h : d.seenBranch = true) :
    ∃ b, (d.observe i regs).1 = { d with earlyExitSeen := b } := by
  have hnot : ¬ (d.seenBranch = false ∧ d.finalLoadPC ≠ 0 ∧ isCompare i = true) := by
    rintro ⟨hno, _⟩
    rw [h] at hno
    exact Bool.noConfusion hno
  unfold observe
  rw [if_neg hnot]
  by_cases hctrl : i.isCondCtrl = false ∨ i.isDirectCtrl = false
  · rw [if_pos hctrl]
    exact ⟨d.earlyExitSeen, rfl⟩
  rw [if_neg hctrl]
  cases i.branchTarget with
  | none => exact ⟨d.earlyExitSeen, rfl⟩
  | some target =>
    dsimp only
    by_cases hfwd : i.pc < target
    · rw [if_pos hfwd]
      exact ⟨_, rfl⟩
    · rw [if_neg hfwd]
      unfold observeBackward observeFused
      dsimp only
      rw [if_pos h, Option.getD_none, if_neg (by simp [h])]
      exact ⟨_, rfl⟩

/-- Before that, what is no backward branch is a compare or changes nothing. -/
theorem observe_of_forward (h : d.seenBranch = false) (hfinal : d.finalLoadPC ≠ 0)
    (hback : isBackwardBranch i = false) :
    (d.observe i regs).1 = if isCompare i = true then d.observeCompare i else d := by
  unfold observe
  by_cases hcmp : isCompare i = true
  · rw [if_pos ⟨h, hfinal, hcmp⟩, if_pos hcmp]
  rw [if_neg fun hand => hcmp hand.2.2, if_neg hcmp]
  by_cases hctrl : i.isCondCtrl = false ∨ i.isDirectCtrl = false
  · rw [if_pos hctrl]
  rw [if_neg hctrl]
  cases htarget : i.branchTarget with
  | none => rfl
  | some target =>
    have hfwd : i.pc < target := by
      by_contra hno
      have hboth : i.isCondCtrl = true ∧ i.isDirectCtrl = true := by
        constructor
        · by_contra hn
          exact hctrl (.inl (by simpa using hn))
        · by_contra hn
          exact hctrl (.inr (by simpa using hn))
      unfold isBackwardBranch at hback
      rw [hboth.1, hboth.2, htarget] at hback
      simp [BitVec.not_lt.mp hno] at hback
    have hsame : (d.earlyExitSeen ||
        (d.seenBranch && decide (i.pc < target) && decide (d.loopBranchPC < target))) =
          d.earlyExitSeen := by
      rw [h, Bool.false_and, Bool.false_and, Bool.or_false]
    dsimp only
    rw [if_pos hfwd, hsame]

theorem observeCompare_seenBranch (d : Detector) (i : Inst) :
    (d.observeCompare i).seenBranch = d.seenBranch ∧
      (d.observeCompare i).finalLoadPC = d.finalLoadPC := by
  unfold observeCompare
  split <;> exact ⟨rfl, rfl⟩

/-- A branch against `x0` has one integer source, and changes nothing. -/
theorem observe_zeroBranch {equal : Bool} {c : BitVec 5} {target : Addr}
    (h : IsZeroBranch i equal c target) (hback : target ≤ i.pc) : (d.observe i regs).1 = d := by
  have hcmp : isCompare i = false := by
    unfold isCompare
    rw [h.opcode]
    rfl
  have hsources : i.sources = none := by
    unfold Inst.sources
    rw [h.srcRegs, regId_zero]
    cases regId c <;> rfl
  have hfwd : ¬ i.pc < target := BitVec.not_lt.mpr hback
  have hconsumes : ∀ d : Detector, d.consumesCompare i = false := by
    intro d
    unfold consumesCompare
    rw [hsources]
    cases d.compareDestination <;> exact Bool.and_false _
  have hfused : ∀ d : Detector, d.observeFused i = none := by
    intro d
    unfold observeFused
    rw [hsources]
    split
    · rfl
    · cases fusedComparison i <;> rfl
  unfold observe
  rw [if_neg (by simp [hcmp]), if_neg (by simp [h.isCondCtrl, h.isDirectCtrl]), h.branchTarget]
  dsimp only
  rw [if_neg hfwd, decide_eq_false hfwd, Bool.and_false, Bool.false_and, Bool.or_false]
  unfold observeBackward
  rw [hconsumes, hfused]
  simp

theorem observe_finalLoadPC (d : Detector) (i : Inst) (regs : Option Snapshot) :
    (d.observe i regs).1.finalLoadPC = d.finalLoadPC := by
  unfold observe
  split
  · exact (observeCompare_seenBranch d i).2
  split
  · rfl
  cases i.branchTarget with
  | none => rfl
  | some target =>
    dsimp only
    split
    · rfl
    · unfold observeBackward
      dsimp only
      generalize hd : ({ d with earlyExitSeen := _ } : Detector) = d₁
      have hpc : d₁.finalLoadPC = d.finalLoadPC := by rw [← hd]
      have hfused : ((d₁.observeFused i).getD d₁).finalLoadPC = d₁.finalLoadPC := by
        unfold observeFused
        split
        · rfl
        · cases fusedComparison i with
          | none => rfl
          | some k =>
            cases i.sources with
            | none => rfl
            | some x => rfl
      have hclose : ∀ d₂ : Detector, (d₂.close i target regs).finalLoadPC = d₂.finalLoadPC := by
        intro d₂
        cases regs <;> rfl
      split
      · rw [hclose, hfused, hpc]
      · rw [hfused, hpc]

/-! ### Streams -/

theorem observeAll_append (d : Detector) (xs ys : List (Inst × Option Snapshot)) :
    d.observeAll (xs ++ ys) = (d.observeAll xs).observeAll ys := foldl_append

theorem observeAll_finalLoadPC (d : Detector) (xs : List (Inst × Option Snapshot)) :
    (d.observeAll xs).finalLoadPC = d.finalLoadPC := by
  induction xs generalizing d with
  | nil => rfl
  | cons x xs ih => exact (ih _).trans (observe_finalLoadPC d x.1 x.2)

theorem observeAll_of_seen (h : d.seenBranch = true) (xs : List (Inst × Option Snapshot)) :
    ∃ b, d.observeAll xs = { d with earlyExitSeen := b } := by
  induction xs generalizing d with
  | nil => exact ⟨d.earlyExitSeen, rfl⟩
  | cons x xs ih =>
    have hstep : ∃ b, (d.observe x.1 x.2).1 = { d with earlyExitSeen := b } := observe_of_seen h
    obtain ⟨b, hb⟩ := hstep
    have hseen : (d.observe x.1 x.2).1.seenBranch = true := by
      rw [hb]
      exact h
    obtain ⟨b', hb'⟩ := ih hseen
    refine ⟨b', hb'.trans ?_⟩
    rw [hb]

/-- The operands and the comparison are those of the last compare. -/
def Holds (d : Detector) : Option (IntReg × IntReg × IntReg × Comparison) → Prop
  | some (a, b, _, k) => d.boundSource0 = some a ∧ d.boundSource1 = some b ∧ d.comparison = k
  | none => True

theorem lastCompare_concat (is : List Inst) (i : Inst) : lastCompare (is ++ [i]) =
      if isCompare i = true then (compareOf i).or (lastCompare is) else lastCompare is := by
  unfold lastCompare
  rw [filter_append, filterMap_append, getLast?_append]
  by_cases h : isCompare i = true
  · rw [if_pos h, filter_cons_of_pos h]
    cases hc : compareOf i with
    | none => simp [hc]
    | some x => simp [hc]
  · rw [if_neg h, filter_cons_of_neg h]
    rfl

theorem observeAll_forward (h : d.seenBranch = false) (hfinal : d.finalLoadPC ≠ 0)
    {xs : List (Inst × Option Snapshot)} (hback : ∀ x ∈ xs, isBackwardBranch x.1 = false) :
    (d.observeAll xs).seenBranch = false ∧ (d.observeAll xs).Holds (lastCompare (xs.map Prod.fst)) := by
  induction xs using reverseRecOn with
  | nil => exact ⟨h, trivial⟩
  | append_singleton xs x ih =>
    obtain ⟨hseen, hholds⟩ := ih fun y hy => hback y (mem_append_left _ hy)
    have hpc : (d.observeAll xs).finalLoadPC ≠ 0 := by
      rw [observeAll_finalLoadPC]
      exact hfinal
    have hstep : d.observeAll (xs ++ [x]) = ((d.observeAll xs).observe x.1 x.2).1 :=
      observeAll_append d xs [x]
    rw [hstep, observe_of_forward hseen hpc (hback x (by simp)), map_append, map_singleton,
      lastCompare_concat]
    by_cases hcmp : isCompare x.1 = true
    · rw [if_pos hcmp, if_pos hcmp]
      refine ⟨(observeCompare_seenBranch _ _).1.trans hseen, ?_⟩
      unfold observeCompare
      cases compareOf x.1 with
      | none => exact hholds
      | some y => exact ⟨rfl, rfl, rfl⟩
    · rw [if_neg hcmp, if_neg hcmp]
      exact ⟨hseen, hholds⟩

end Detector

/-! ### What is captured -/

/-- What the compare rule records is a signed or unsigned less. -/
theorem comparison_of_compareOf {i : Inst} {x : IntReg × IntReg × IntReg × Comparison}
    (h : Detector.compareOf i = some x) : x.2.2.2 = .SignedLess ∨ x.2.2.2 = .UnsignedLess := by
  unfold Detector.compareOf at h
  split at h
  · obtain rfl := Option.some.inj h
    split
    · exact .inl rfl
    · exact .inr rfl
  · exact nomatch h

theorem compareOf_isSetLess {i : Inst} {unsigned : Bool} {c a b : BitVec 5}
    (h : IsSetLess i unsigned c a b) (hc : c ≠ 0) (ha : a ≠ 0) (hb : b ≠ 0) :
    Detector.isCompare i = true ∧ (Detector.compareOf i).isSome := by
  obtain ⟨x, hx, _⟩ := regId_of_ne ha
  obtain ⟨y, hy, _⟩ := regId_of_ne hb
  obtain ⟨z, hz, _⟩ := regId_of_ne hc
  constructor
  · unfold Detector.isCompare
    rw [h.opcode, h.funct3]
    cases unsigned <;> rfl
  · have hsources : i.sources = some (x, y) := by
      unfold Inst.sources
      rw [h.srcRegs, hx, hy]
      rfl
    have hdest : i.destination = some z := by
      unfold Inst.destination
      rw [h.destRegs, hz]
      rfl
    unfold Detector.compareOf
    rw [hsources, hdest]
    rfl

/-- The compare itself is among those taken. -/
theorem lastCompare_isSome {cmp : Inst} (hcmp : Detector.isCompare cmp = true)
    (hsome : (Detector.compareOf cmp).isSome) (mid : List Inst) :
    (lastCompare (cmp :: mid)).isSome := by
  obtain ⟨x, hx⟩ := Option.isSome_iff_exists.mp hsome
  unfold lastCompare
  rw [filter_cons_of_pos hcmp, filterMap_cons_some hx, getLast?_isSome]
  exact cons_ne_nil _ _

theorem isBackwardBranch_isSetLess {i : Inst} {unsigned : Bool} {c a b : BitVec 5}
    (h : IsSetLess i unsigned c a b) : isBackwardBranch i = false := by
  unfold isBackwardBranch
  rw [h.isCondCtrl]
  rfl

theorem Detector.captured_of_holds {d : Detector} {x : IntReg × IntReg × IntReg × Comparison}
    (h : d.Holds (some x)) (a b : BitVec 5) (k : Comparison) :
    d.Captured a b k ↔ x.1.val = a.toNat ∧ x.2.1.val = b.toNat ∧ x.2.2.2 = k := by
  obtain ⟨h0, h1, hk⟩ := h
  unfold Captured
  rw [h0, h1, hk]
  simp

/-- After a compare of `a` and `b` into `c` and, with no backward branch between (another compare may
    be there), a backward branch on `c` against `x0` that encloses the chain: the detector holds `a`, `b` and the
    comparison that tells whether the branch is taken, if and only if no branch was found before,
    the branch is BNE, `a` and `b` are not `x0` and no MULHSU or MULHU was taken for the compare;
    or a branch was, with just these operands and comparison. -/
theorem compare_captured_iff (d : Detector) (final : Addr)
    (pre mid : List (Inst × Option Snapshot)) (cmp br : Inst × Option Snapshot)
    (unsigned equal : Bool) (c a b : BitVec 5) (target : Addr)
    (hcmp : IsSetLess cmp.1 unsigned c a b) (hc : c ≠ 0)
    (hmid : ∀ x ∈ mid, isBackwardBranch x.1 = false)
    (hbr : IsZeroBranch br.1 equal c target) (hback : target ≤ br.1.pc)
    (hencloses : (d.updateFinalLoad final).enclosesChain br.1.pc target = true) :
    ((d.updateFinalLoad final).observeAll (pre ++ cmp :: mid ++ [br])).Captured a b
        (takenComparison unsigned equal) ↔
      ((d.updateFinalLoad final).observeAll pre).Captures unsigned equal a b cmp.1
        (mid.map Prod.fst) := by
  have hfinal : ((d.updateFinalLoad final).observeAll pre).finalLoadPC ≠ 0 := by
    rw [Detector.observeAll_finalLoadPC]
    intro hz
    unfold Detector.enclosesChain at hencloses
    rw [hz] at hencloses
    exact Bool.noConfusion hencloses
  have hlast : (d.updateFinalLoad final).observeAll (pre ++ cmp :: mid ++ [br]) =
      ((d.updateFinalLoad final).observeAll pre).observeAll (cmp :: mid) := by
    rw [Detector.observeAll_append, Detector.observeAll_append]
    exact Detector.observe_zeroBranch hbr hback
  rw [hlast]
  generalize (d.updateFinalLoad final).observeAll pre = s at hfinal
  unfold Detector.Captures
  by_cases hseen : s.seenBranch = true
  · obtain ⟨e, he⟩ := Detector.observeAll_of_seen hseen (cmp :: mid)
    rw [if_pos hseen, he]
    exact Iff.rfl
  · have hunseen : s.seenBranch = false := by simpa using hseen
    have hforward : ∀ x ∈ cmp :: mid, isBackwardBranch x.1 = false := by
      intro x hx
      rcases mem_cons.mp hx with rfl | hx
      · exact isBackwardBranch_isSetLess hcmp
      · exact hmid x hx
    obtain ⟨_, hholds⟩ := Detector.observeAll_forward hunseen hfinal hforward
    rw [map_cons] at hholds
    rw [if_neg hseen]
    constructor
    · intro hcaptured
      have ha := ne_zero_of_val hcaptured.1
      have hb := ne_zero_of_val hcaptured.2.1
      obtain ⟨htaken, hsome⟩ := compareOf_isSetLess hcmp hc ha hb
      obtain ⟨x, hx⟩ := Option.isSome_iff_exists.mp
        (lastCompare_isSome htaken hsome (mid.map Prod.fst))
      rw [hx] at hholds
      obtain ⟨hxa, hxb, hxk⟩ := (Detector.captured_of_holds hholds a b _).mp hcaptured
      -- the compare rule records no negation
      have hequal : equal = false := by
        have hmem := mem_of_getLast? hx
        obtain ⟨i, _, hi⟩ := mem_filterMap.mp hmem
        cases equal with
        | false => rfl
        | true =>
          rcases comparison_of_compareOf hi with hk | hk <;> rw [hk] at hxk <;>
            cases unsigned <;> exact nomatch hxk
      subst hequal
      exact ⟨rfl, ha, hb, x, hx, hxa, hxb, hxk⟩
    · rintro ⟨rfl, _, _, x, hx, hxa, hxb, hxk⟩
      rw [Option.mem_def.mp hx] at hholds
      exact (Detector.captured_of_holds hholds a b _).mpr ⟨hxa, hxb, hxk⟩

/-- `SLT x7, x5, x6` at `0x20`. -/
def slt : Inst where
  pc := 0x20#64
  encoded := 0x0062a3b3#64
  srcRegs := [regId 5, regId 6]
  destRegs := [regId 7]

/-- `BNE x7, x0` or `BEQ x7, x0` at `0x24`, back to `0x10`. -/
def branchOnSlt (equal : Bool) : Inst where
  pc := 0x24#64
  encoded := if equal then 0xfe0386e3#64 else 0xfe0396e3#64
  srcRegs := [regId 7, regId 0]
  isCondCtrl := true
  isDirectCtrl := true
  branchTarget := some 0x10#64

theorem isSetLess_slt : IsSetLess slt false 7 5 6 := ⟨rfl, rfl, rfl, rfl, rfl, rfl⟩

theorem isZeroBranch_branchOnSlt : ∀ equal, IsZeroBranch (branchOnSlt equal) equal 7 0x10#64
  | false => ⟨rfl, rfl, rfl, rfl, rfl, rfl⟩
  | true => ⟨rfl, rfl, rfl, rfl, rfl, rfl⟩

/-- The BNE form, in a loop from `0x10` around the trigger at `0x14` and the load at `0x18`. -/
theorem compare_captured_bne : (((begin 0x14#64).updateFinalLoad 0x18#64).observeAll
      [(slt, none), (branchOnSlt false, none)]).Captured 5 6 .SignedLess :=
  (compare_captured_iff (begin 0x14#64) 0x18#64 [] [] (slt, none) (branchOnSlt false, none) false false
    7 5 6 0x10#64 isSetLess_slt (by decide) nofun (isZeroBranch_branchOnSlt false) (by decide)
    (by decide)).mpr ⟨rfl, by decide, by decide, (⟨5, by decide⟩, ⟨6, by decide⟩, ⟨7, by decide⟩,
      .SignedLess), rfl, rfl, rfl, rfl⟩

/-- The BEQ form: the comparison is not negated. -/
theorem compare_not_captured_beq : ¬ (((begin 0x14#64).updateFinalLoad 0x18#64).observeAll
      [(slt, none), (branchOnSlt true, none)]).Captured 5 6 (takenComparison false true) := by
  rintro ⟨_, _, hk⟩
  exact nomatch hk

end Gem5Dvr.LoopBound
