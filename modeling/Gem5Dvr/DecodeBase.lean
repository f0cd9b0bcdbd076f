/-
  The 32-bit half of the replay decoder recovers the instruction.

  1. **Specification** — `Riscv.decode` says which RV64IM instruction an encoding is and
     `Instr.outcome` what it hands on.  `outcome` is what an executor gets out of a decoded uop:
     `evaluateBranch` where that answers, else `evaluate`, read as an address for the loads.
     `named` lists the instructions the decoder has a `Semantic` for.

  2. **One lemma per operation** — `outcome_of_named`: a uop with the right semantic and the right
     immediate has the right outcome for ALL operand values.  This is where word truncation, shift
     masking and the remainder corner cases are settled.

  3. **The encoding space** — each opcode's table is compared with the manual's
     (`opSemantic_eq` and its siblings), then `decodeBase_settles` walks the opcodes.

  `decodeBase_faithful` is the result: an encoding gets a semantic only if it is one of the named
  RV64IM instructions, and then its replay is exact.
-/
import Gem5Dvr.Decode
import Gem5Dvr.Riscv

namespace Gem5Dvr.Decode

open Option (bind_some map_none map_some some_ne_none)

open Gem5Dvr.Riscv (Outcome Instr)

/-! ## Specification -/

/-- The semantics whose value is an effective address. -/
def isLoadSemantic : Semantic → Bool
  | .LoadAddress | .LoadByteSigned | .LoadByteUnsigned | .LoadHalfSigned | .LoadHalfUnsigned
  | .LoadWordSigned | .LoadWordUnsigned | .LoadDouble => true
  | _ => false

/-- What an executor gets out of a decoded uop: a branch outcome, an address or a value. -/
def outcome (u : Uop) (a b : RegVal) : Option Outcome :=
  match u.evaluateBranch a b with
  | some t => some (.taken t)
  | none => (u.evaluate a b).map fun v =>
      if isLoadSemantic u.semantic then .address v else .value v

/-- The `Semantic` of a register operation. -/
def aluSemantic : Riscv.AluOp → Option Semantic
  | .add => some .Add
  | .sub => some .Sub
  | .sll => some .ShiftLeft
  | .xor => some .Xor
  | .srl => some .ShiftRightLogical
  | .sra => some .ShiftRightArithmetic
  | .or => some .Or
  | .and => some .And
  | .mul => some .Multiply
  | .rem => some .Remainder
  | .remu => some .RemainderUnsigned
  | _ => none

/-- The `Semantic` of a word operation. -/
def wordSemantic : Riscv.WordOp → Option Semantic
  | .addw => some .AddWord
  | .subw => some .SubWord
  | .mulw => some .MultiplyWord
  | .remw => some .RemainderWord
  | .remuw => some .RemainderUnsignedWord
  | _ => none

/-- The `Semantic` of an operation on an immediate. -/
def immSemantic : Riscv.ImmOp → Option Semantic
  | .addi => some .AddImmediate
  | .xori => some .XorImmediate
  | .ori => some .OrImmediate
  | .andi => some .AndImmediate
  | _ => none

/-- The `Semantic` of a shift by an immediate. -/
def shiftSemantic : Riscv.ShiftOp → Semantic
  | .sll => .ShiftLeftImmediate
  | .srl => .ShiftRightLogicalImmediate
  | .sra => .ShiftRightArithmeticImmediate

/-- The `Semantic` of a word shift by an immediate. -/
def shiftwSemantic : Riscv.ShiftOp → Semantic
  | .sll => .ShiftLeftWordImmediate
  | .srl => .ShiftRightLogicalWordImmediate
  | .sra => .ShiftRightArithmeticWordImmediate

/-- The `Semantic` of a load, and its bytes. -/
def loadOpSemantic : Riscv.LoadOp → Option (Semantic × Nat)
  | .lb => some (.LoadByteSigned, 1)
  | .lh => some (.LoadHalfSigned, 2)
  | .lw => some (.LoadWordSigned, 4)
  | .ld => some (.LoadDouble, 8)
  | .lbu => some (.LoadByteUnsigned, 1)
  | .lhu => some (.LoadHalfUnsigned, 2)
  | .lwu => none

/-- The `Semantic` of a branch. -/
def branchOpSemantic : Riscv.BranchOp → Semantic
  | .beq => .BranchEqual
  | .bne => .BranchNotEqual
  | .blt => .BranchSignedLess
  | .bge => .BranchSignedGreaterEqual
  | .bltu => .BranchUnsignedLess
  | .bgeu => .BranchUnsignedGreaterEqual

/-- The `Semantic` of an instruction the decoder names; `none` for the RV64IM instructions it
    leaves out. -/
def named : Instr → Option Semantic
  | .lui _ | .auipc _ | .jal => some .AddImmediate
  | .op o => aluSemantic o
  | .opw o => wordSemantic o
  | .opImm o _ => immSemantic o
  | .shift o _ => some (shiftSemantic o)
  | .addiw _ => some .AddWordImmediate
  | .shiftw o _ => some (shiftwSemantic o)
  | .load k _ => (loadOpSemantic k).map Prod.fst
  | .branch k => some (branchOpSemantic k)

/-- The immediate operand of an instruction at `pc`, for the forms that have one. -/
def immediateOf (pc : Addr) : Instr → Option (BitVec 64)
  | .lui imm => some ((imm ++ 0#12).signExtend 64)
  | .auipc imm => some (pc + (imm ++ 0#12).signExtend 64)
  | .jal => some (pc + 4)
  | .opImm _ imm | .addiw imm | .load _ imm => some (imm.signExtend 64)
  | .shift _ shamt => some (shamt.setWidth 64)
  | .shiftw _ shamt => some (shamt.setWidth 64)
  | .op _ | .opw _ | .branch _ => none

/-- The forms whose value does not depend on a register: replayed as `x0 + immediate`. -/
def fromZero : Instr → Bool
  | .lui _ | .auipc _ | .jal => true
  | _ => false

/-- The uop `v` computes the instruction `i` of the architectural sources `rs1`, `rs2`, for every
    register file. -/
def Computes (v : Uop) (pc : Addr) (i : Instr) (rs1 rs2 : Option (Fin 32)) : Prop :=
  ∀ regs : Fin 32 → RegVal, regs 0 = 0 →
    outcome v (Uop.operand regs v.source0) (Uop.operand regs v.source1)
      = some (i.outcome pc (Uop.operand regs rs1) (Uop.operand regs rs2))

variable {w : Nat} {u : Uop} {i : Instr}

/-! ## Sign extension -/

theorem xor_eq_add_of_and_eq_zero {x y : BitVec w} (h : x &&& y = 0#w) : x ^^^ y = x + y := by
  rw [BitVec.add_eq_or_of_and_eq_zero x y h]
  ext i hi
  have hi := congrArg (fun z => z.getLsbD i) h
  simp only [BitVec.getLsbD_and, BitVec.getLsbD_zero] at hi
  simp only [← BitVec.getLsbD_eq_getElem, BitVec.getLsbD_xor, BitVec.getLsbD_or]
  revert hi
  cases x.getLsbD i <;> cases y.getLsbD i <;> simp

/-- `(v ^ sign) - sign` is sign extension at every width. -/
theorem dvrSignExtend_eq (hw : 0 < w) (hw64 : w ≤ 64) (x : BitVec w) :
    dvrSignExtend (x.setWidth 64) w = x.signExtend 64 := by
  have hsign : ∀ i, (1#64 <<< (w - 1)).getLsbD i = decide (i = w - 1) := by
    intro i
    by_cases h : i = w - 1 <;> simp [h] <;> omega
  have hmsb : x.getLsbD (w - 1) = x.msb := (BitVec.msb_eq_getLsbD_last x).symm
  simp only [dvrSignExtend]
  by_cases h : x.msb
  · -- the sign bit is set: xor clears it, so two sign weights are taken off in all
    have hand : (x.setWidth 64 ^^^ (1#64 <<< (w - 1))) &&& (1#64 <<< (w - 1)) = 0#64 := by
      ext i hi
      rw [← BitVec.getLsbD_eq_getElem, BitVec.getLsbD_and, BitVec.getLsbD_xor, hsign]
      by_cases hi' : i = w - 1
      · subst hi'; simp [hmsb, h]; omega
      · simp [hi']
    have hv := xor_eq_add_of_and_eq_zero hand
    rw [BitVec.xor_assoc, BitVec.xor_self, BitVec.xor_zero] at hv
    rw [BitVec.eq_sub_iff_add_eq.mpr hv.symm]
    have hk : 2 ^ w = 2 * 2 ^ (w - 1) := by
      rw [← Nat.pow_succ', Nat.succ_eq_add_one, Nat.sub_add_cancel hw]
    have hle : 2 ^ w ≤ 2 ^ 64 := Nat.pow_le_pow_right (by omega) hw64
    have hs : (1#64 <<< (w - 1)).toNat = 2 ^ (w - 1) := by
      simp; omega
    apply BitVec.eq_of_toNat_eq
    rw [BitVec.toNat_signExtend, if_pos h, BitVec.toNat_sub, BitVec.toNat_sub, hs,
      BitVec.toNat_setWidth, Nat.mod_eq_of_lt (by omega : x.toNat < 2 ^ 64)]
    omega
  · have hand : x.setWidth 64 &&& (1#64 <<< (w - 1)) = 0#64 := by
      ext i hi
      rw [← BitVec.getLsbD_eq_getElem, BitVec.getLsbD_and, hsign]
      by_cases hi' : i = w - 1
      · subst hi'; simp [hmsb, h]
      · simp [hi']
    rw [xor_eq_add_of_and_eq_zero hand, BitVec.add_sub_cancel,
      BitVec.signExtend_eq_setWidth_of_msb_false (by simpa using h)]

/-! ## One lemma per operation -/

theorem toNat_and_mask (b : BitVec 64) : (b &&& 0x3f#64).toNat = (b.extractLsb' 0 6).toNat := by
  exact Nat.and_two_pow_sub_one_eq_mod b.toNat 6

/-- The source's three-way remainder is the architectural one: on the overflow pair the truncating
    remainder is `0` anyway. -/
theorem remainder_eq (a b : BitVec w) :
    (if b = 0#w then a else if a = BitVec.intMin w ∧ b = -1#w then 0#w else signedMod a b)
      = Riscv.srem a b := by
  unfold Riscv.srem signedMod
  by_cases hb : b = 0#w
  · rw [if_pos hb, if_pos hb]
  · rw [if_neg hb, if_neg hb]
    by_cases ho : a = BitVec.intMin w ∧ b = -1#w
    · rw [if_pos ho]
      have hw : 0 < w := by
        rcases Nat.eq_zero_or_pos w with rfl | h
        · exact absurd (Subsingleton.elim b 0#0) hb
        · exact h
      have hb1 : b.toInt = -1 := by
        rw [ho.2, BitVec.neg_one_eq_allOnes, BitVec.toInt_allOnes, if_pos hw]
      rw [hb1, Int.tmod_neg, Int.tmod_one]
      exact (BitVec.ofInt_ofNat w 0).symm
    · rw [if_neg ho]

theorem op_outcome {o : Riscv.AluOp} (h : aluSemantic o = some u.semantic)
    (a b : RegVal) : outcome u a b = some (.value (o.eval a b)) := by
  cases o <;> simp only [aluSemantic, Option.some.injEq, reduceCtorEq] at h
  all_goals
    simp only [outcome, Uop.evaluateBranch, Uop.evaluate, ← h, isLoadSemantic, Riscv.AluOp.eval,
      map_some, toNat_and_mask, Bool.false_eq_true, if_false]
  · rw [← remainder_eq]
    split_ifs <;> rfl
  · rfl

theorem opw_outcome {o : Riscv.WordOp} (h : wordSemantic o = some u.semantic)
    (a b : RegVal) : outcome u a b = some (.value (o.eval a b)) := by
  cases o <;> simp only [wordSemantic, Option.some.injEq, reduceCtorEq] at h
  all_goals
    simp only [outcome, Uop.evaluateBranch, Uop.evaluate, ← h, isLoadSemantic, Riscv.WordOp.eval,
      Riscv.WordOp.eval32, map_some, Bool.false_eq_true, if_false, wordResult,
      remainder_eq, Riscv.urem]

theorem opImm_outcome {o : Riscv.ImmOp} (h : immSemantic o = some u.semantic)
    (a b : RegVal) : outcome u a b = some (.value (o.eval a u.immediate)) := by
  cases o <;> simp only [immSemantic, Option.some.injEq, reduceCtorEq] at h
  all_goals
    simp only [outcome, Uop.evaluateBranch, Uop.evaluate, ← h, isLoadSemantic, Riscv.ImmOp.eval,
      map_some, Bool.false_eq_true, if_false]

theorem shift_outcome {o : Riscv.ShiftOp} {shamt : BitVec 6}
    (h : shiftSemantic o = u.semantic) (him : u.immediate = shamt.setWidth 64) (a b : RegVal) :
    outcome u a b = some (.value (o.eval a shamt.toNat)) := by
  have hmask : ∀ s : BitVec 6, ((s.setWidth 64).setWidth 32 &&& 0x3f#32).toNat = s.toNat := by
    decide
  cases o <;>
    simp only [outcome, Uop.evaluateBranch, Uop.evaluate, ← h, shiftSemantic, isLoadSemantic,
      Riscv.ShiftOp.eval, map_some, Bool.false_eq_true, if_false, him, hmask]

theorem shiftw_outcome {o : Riscv.ShiftOp} {shamt : BitVec 5}
    (h : shiftwSemantic o = u.semantic) (him : u.immediate = shamt.setWidth 64) (a b : RegVal) :
    outcome u a b = some (.value ((o.eval (a.setWidth 32) shamt.toNat).signExtend 64)) := by
  have hmask : ∀ s : BitVec 5, ((s.setWidth 64).setWidth 32 &&& 0x1f#32).toNat = s.toNat := by
    decide
  cases o <;>
    simp only [outcome, Uop.evaluateBranch, Uop.evaluate, ← h, shiftwSemantic, isLoadSemantic,
      Riscv.ShiftOp.eval, map_some, Bool.false_eq_true, if_false, him, hmask, wordResult]

theorem load_outcome (h : isLoadSemantic u.semantic = true) (a b : RegVal) :
    outcome u a b = some (.address (a + u.immediate)) := by
  cases hs : u.semantic <;> simp only [hs, isLoadSemantic, Bool.false_eq_true] at h
  all_goals
    simp only [outcome, Uop.evaluateBranch, Uop.evaluate, hs, isLoadSemantic, map_some,
      if_true]

theorem branch_outcome {k : Riscv.BranchOp} (h : branchOpSemantic k = u.semantic)
    (a b : RegVal) : outcome u a b = some (.taken (k.eval a b)) := by
  cases k <;>
    simp only [outcome, Uop.evaluateBranch, ← h, branchOpSemantic, Riscv.BranchOp.eval]

theorem addiw_outcome (h : u.semantic = .AddWordImmediate) (a b : RegVal) :
    outcome u a b = some (.value ((a + u.immediate).setWidth 32 |>.signExtend 64)) := by
  simp only [outcome, Uop.evaluateBranch, Uop.evaluate, h, isLoadSemantic, map_some,
    Bool.false_eq_true, if_false, wordResult, BitVec.setWidth_add _ _ (by decide : 32 ≤ 64)]

theorem isLoad_of_loadOp {k : Riscv.LoadOp} {s : Semantic}
    (h : (loadOpSemantic k).map Prod.fst = some s) : isLoadSemantic s = true := by
  cases k <;> simp only [loadOpSemantic, map_some, map_none, Option.some.injEq,
    reduceCtorEq] at h <;> subst h <;> rfl

/-- A uop with the right semantic and the right immediate has the right outcome. -/
theorem outcome_of_named {v : Uop} {pc : Addr} (hs : named i = some v.semantic)
    (him : ∀ x, immediateOf pc i = some x → v.immediate = x) (a b : RegVal)
    (ha : fromZero i = true → a = 0) : outcome v a b = some (i.outcome pc a b) := by
  cases i with
  | lui imm =>
    rw [opImm_outcome (o := .addi) (by rw [← hs]; rfl), him _ rfl, ha rfl]
    simp [Riscv.ImmOp.eval, Instr.outcome]
  | auipc imm =>
    rw [opImm_outcome (o := .addi) (by rw [← hs]; rfl), him _ rfl, ha rfl]
    simp [Riscv.ImmOp.eval, Instr.outcome]
  | jal =>
    rw [opImm_outcome (o := .addi) (by rw [← hs]; rfl), him _ rfl, ha rfl]
    simp [Riscv.ImmOp.eval, Instr.outcome]
  | op o => exact op_outcome hs a b
  | opw o => exact opw_outcome hs a b
  | opImm o imm =>
    rw [opImm_outcome hs, him _ rfl]
    rfl
  | shift o shamt => exact shift_outcome (Option.some.inj hs) (him _ rfl) a b
  | addiw imm =>
    rw [addiw_outcome (Option.some.inj hs).symm, him _ rfl]
    rfl
  | shiftw o shamt => exact shiftw_outcome (Option.some.inj hs) (him _ rfl) a b
  | load k imm =>
    rw [load_outcome (isLoad_of_loadOp hs), him _ rfl]
    rfl
  | branch k => exact branch_outcome (Option.some.inj hs) a b

/-! ## The 32-bit half -/

theorem opSemantic_eq : ∀ (f3 : BitVec 3) (f7 : BitVec 7),
    opSemantic f3 f7 = (Riscv.decodeOp f3 f7).bind aluSemantic := by
  decide

theorem op32Semantic_eq : ∀ (f3 : BitVec 3) (f7 : BitVec 7),
    op32Semantic f3 f7 = (Riscv.decodeOpw f3 f7).bind wordSemantic := by
  decide

theorem loadSemantic_eq : ∀ f3 : BitVec 3,
    loadSemantic f3 = (Riscv.decodeLoad f3).bind loadOpSemantic := by
  decide

theorem branchSemantic_eq : ∀ f3 : BitVec 3,
    branchSemantic f3 = (Riscv.decodeBranch f3).map branchOpSemantic := by
  decide

theorem upper_mask (e : BitVec 32) : e &&& 0xfffff000#32 = e.extractLsb' 12 20 ++ 0#12 := by
  ext i hi
  have hm : (0xfffff000#32).getLsbD i = decide (12 ≤ i) := by
    revert hi; revert i; decide
  rw [BitVec.getElem_and, BitVec.getElem_append,
    ← BitVec.getLsbD_eq_getElem (x := 0xfffff000#32), hm]
  by_cases h : i < 12
  · simp [h]
  · simp [h, show 12 + (i - 12) = i by omega, show 12 ≤ i by omega, BitVec.getLsbD_eq_getElem hi]

theorem funct3_cases : ∀ f : BitVec 3,
    f = 0#3 ∨ f = 1#3 ∨ f = 2#3 ∨ f = 3#3 ∨ f = 4#3 ∨ f = 5#3 ∨ f = 6#3 ∨ f = 7#3 := by
  decide

/-- The twelve-bit I-type immediate. -/
theorem iImmediate_eq (e : BitVec 32) :
    dvrSignExtend (field e 20 12) 12 = (e.extractLsb' 20 12).signExtend 64 :=
  dvrSignExtend_eq (by decide) (by decide) _

/-- What the decoder makes of an instruction: its semantic and its immediate. -/
def replayForm (i : Instr) : Option (Semantic × BitVec 64) :=
  (named i).bind fun s => (immediateOf 0 i).map fun imm => (s, imm)

theorem opImmSemantic_eq (e : BitVec 32) : opImmSemantic e =
      (Riscv.decodeOpImm (e.extractLsb' 12 3) (e.extractLsb' 26 6) (e.extractLsb' 20 12)
        (e.extractLsb' 20 6)).bind replayForm := by
  unfold opImmSemantic
  rw [iImmediate_eq]
  generalize e.extractLsb' 20 12 = imm
  by_cases h0 : e.extractLsb' 26 6 = 0#6
  · rcases funct3_cases (e.extractLsb' 12 3) with h | h | h | h | h | h | h | h <;>
      simp [h, h0, Riscv.decodeOpImm, replayForm, named, immediateOf, immSemantic, shiftSemantic,
        field]
  · by_cases h16 : e.extractLsb' 26 6 = 16#6 <;>
    rcases funct3_cases (e.extractLsb' 12 3) with h | h | h | h | h | h | h | h <;>
      simp [h, h0, h16, Riscv.decodeOpImm, replayForm, named, immediateOf, immSemantic,
        shiftSemantic, field]

theorem opImm32Semantic_eq (e : BitVec 32) : opImm32Semantic e =
      (Riscv.decodeOpImm32 (e.extractLsb' 12 3) (e.extractLsb' 25 7) (e.extractLsb' 20 12)
        (e.extractLsb' 20 5)).bind replayForm := by
  unfold opImm32Semantic
  rw [iImmediate_eq]
  generalize e.extractLsb' 20 12 = imm
  by_cases h0 : e.extractLsb' 25 7 = 0#7
  · rcases funct3_cases (e.extractLsb' 12 3) with h | h | h | h | h | h | h | h <;>
      simp [h, h0, Riscv.decodeOpImm32, replayForm, named, immediateOf, shiftwSemantic, field]
  · by_cases h16 : e.extractLsb' 25 7 = 32#7 <;>
    rcases funct3_cases (e.extractLsb' 12 3) with h | h | h | h | h | h | h | h <;>
      simp [h, h0, h16, Riscv.decodeOpImm32, replayForm, named, immediateOf, shiftwSemantic, field]

/-- `v` is `u` with the semantic, immediate and first source of the instruction `i`. -/
structure Translates (u v : Uop) (i : Instr) : Prop where
  semantic : named i = some v.semantic
  immediate : ∀ x, immediateOf u.pc i = some x → v.immediate = x
  source0 : v.source0 = if fromZero i then some 0 else u.source0
  source1 : v.source1 = u.source1

theorem outcome_fromZero (h : fromZero i = true) (pc a b a' b' : BitVec 64) :
    i.outcome pc a b = i.outcome pc a' b' := by
  cases i <;> first | rfl | cases h

theorem Translates.computes {v : Uop} (h : Translates u v i) :
    Computes v u.pc i u.source0 u.source1 := by
  intro regs h0
  rw [h.source0, h.source1]
  by_cases hz : fromZero i = true
  · have hz0 : Uop.operand regs (some 0) = 0 := h0
    rw [if_pos hz, outcome_of_named h.semantic h.immediate _ _ (fun _ => hz0), outcome_fromZero hz]
  · rw [if_neg hz]
    exact outcome_of_named h.semantic h.immediate _ _ (fun h => absurd h hz)

/-- The decoder translates the instruction `o`, or leaves the uop unsupported when there is no
    instruction it names. -/
def Settles (u v : Uop) (o : Option Instr) : Prop := (∃ i, o = some i ∧ Translates u v i) ∨
    ((∀ i, o = some i → named i = none) ∧ v.semantic = .Unsupported)

theorem settles_semantic {α : Type} (hu : u.semantic = .Unsupported) {o : Option α}
    {f : α → Instr} {g : α → Option Semantic} (hg : ∀ x, named (f x) = g x)
    (himm : ∀ x, immediateOf u.pc (f x) = none) (hz : ∀ x, fromZero (f x) = false) :
    Settles u { u with semantic := (o.bind g).getD u.semantic } (o.map f) := by
  cases o with
  | none => exact Or.inr ⟨fun i h => by simp at h, hu⟩
  | some x =>
    cases hx : g x with
    | none =>
      refine Or.inr ⟨fun i h => ?_, ?_⟩
      · rw [← Option.some.inj h, hg, hx]
      · simp [hx, hu]
    | some s =>
      refine Or.inl ⟨f x, rfl, ?_, ?_, ?_, rfl⟩
      · simp [hg, hx]
      · simp [himm]
      · simp [hz]

theorem settles_immediate (hu : u.semantic = .Unsupported) {o : Option Instr}
    (hpc : ∀ i, o = some i → immediateOf u.pc i = immediateOf 0 i ∧ fromZero i = false ∧
      immediateOf 0 i ≠ none) :
    Settles u (match o.bind replayForm with
      | some (semantic, immediate) => { u with semantic, immediate }
      | none => u) o := by
  cases o with
  | none => exact Or.inr ⟨fun i h => by simp at h, hu⟩
  | some i =>
    obtain ⟨hp, hz, hne⟩ := hpc i rfl
    obtain ⟨imm, him⟩ := Option.ne_none_iff_exists'.mp hne
    cases hs : named i with
    | none =>
      refine Or.inr ⟨fun j h => ?_, ?_⟩
      · rw [← Option.some.inj h, hs]
      · simp [replayForm, hs, hu]
    | some s =>
      refine Or.inl ⟨i, rfl, ?_⟩
      simp only [bind_some, replayForm, hs, him, map_some]
      exact ⟨hs, fun x h => Option.some.inj (him ▸ hp ▸ h), by simp [hz], rfl⟩

/-- Every OP-IMM and OP-IMM-32 instruction has an immediate that does not depend on the PC. -/
theorem decodeOpImm_immediate {f3 : BitVec 3} {f6 : BitVec 6} {imm : BitVec 12} {shamt : BitVec 6}
    (h : Riscv.decodeOpImm f3 f6 imm shamt = some i) (pc : Addr) :
    immediateOf pc i = immediateOf 0 i ∧ fromZero i = false ∧ immediateOf 0 i ≠ none := by
  rcases funct3_cases f3 with rfl | rfl | rfl | rfl | rfl | rfl | rfl | rfl <;>
    simp only [Riscv.decodeOpImm] at h <;> (try split_ifs at h) <;> cases h <;>
    exact ⟨rfl, rfl, some_ne_none _⟩

theorem decodeOpImm32_immediate {f3 : BitVec 3} {f7 : BitVec 7} {imm : BitVec 12}
    {shamt : BitVec 5} (h : Riscv.decodeOpImm32 f3 f7 imm shamt = some i) (pc : Addr) :
    immediateOf pc i = immediateOf 0 i ∧ fromZero i = false ∧ immediateOf 0 i ≠ none := by
  rcases funct3_cases f3 with rfl | rfl | rfl | rfl | rfl | rfl | rfl | rfl <;>
    simp only [Riscv.decodeOpImm32] at h <;> (try split_ifs at h) <;> cases h <;>
    exact ⟨rfl, rfl, some_ne_none _⟩

theorem settles_load (o : Option Riscv.LoadOp) (imm : BitVec 12) :
    Settles u (match o.bind loadOpSemantic with
      | some (semantic, loadBytes) =>
          { u with semantic, loadBytes, immediate := imm.signExtend 64 }
      | none => { u with semantic := .Unsupported }) (o.map (Instr.load · imm)) := by
  cases o with
  | none => exact Or.inr ⟨fun i h => by simp at h, rfl⟩
  | some k =>
    cases hk : loadOpSemantic k with
    | none =>
      refine Or.inr ⟨fun i h => ?_, ?_⟩
      · rw [← Option.some.inj h, named, hk, map_none]
      · simp [hk]
    | some p =>
      refine Or.inl ⟨.load k imm, rfl, ?_⟩
      simp only [bind_some, hk]
      exact ⟨by simp [named, hk], fun x h => Option.some.inj h, rfl, rfl⟩

theorem upper_immediate (e : BitVec 32) : dvrSignExtend ((e &&& 0xfffff000#32).setWidth 64) 32
      = (e.extractLsb' 12 20 ++ 0#12).signExtend 64 := by
  rw [dvrSignExtend_eq (by decide) (by decide), upper_mask]

theorem decodeBase_settles (hu : u.semantic = .Unsupported) (e : BitVec 32) :
    Settles u (decodeBase u e) (Riscv.decode e) := by
  unfold decodeBase Riscv.decode
  simp only [opSemantic_eq, op32Semantic_eq, opImmSemantic_eq, opImm32Semantic_eq,
    branchSemantic_eq, loadSemantic_eq, iImmediate_eq, upper_immediate]
  split_ifs with h1 h2 h3 h4 h5 h6 h7 h8 h9
  · exact Or.inl ⟨_, rfl, rfl, fun x h => Option.some.inj h, rfl, rfl⟩
  · exact Or.inl ⟨_, rfl, rfl, fun x h => Option.some.inj h, rfl, rfl⟩
  · exact Or.inl ⟨_, rfl, rfl, fun x h => Option.some.inj h, rfl, rfl⟩
  · exact settles_semantic hu (fun _ => rfl) (fun _ => rfl) (fun _ => rfl)
  · exact settles_semantic hu (fun _ => rfl) (fun _ => rfl) (fun _ => rfl)
  · exact settles_immediate hu fun i hi => decodeOpImm_immediate hi u.pc
  · exact settles_immediate hu fun i hi => decodeOpImm32_immediate hi u.pc
  · exact settles_load _ _
  · rw [Option.map_eq_bind]
    exact settles_semantic hu (fun _ => rfl) (fun _ => rfl) (fun _ => rfl)
  · exact Or.inr ⟨fun i h => by simp at h, hu⟩

/-- THE 32-BIT HALF.  The decoder assigns a semantic exactly to the RV64IM instructions it names,
    and what it assigns computes the architectural outcome for every PC and register file. -/
theorem decodeBase_faithful (u : Uop) (hu : u.semantic = .Unsupported) (encoded : BitVec 64)
    (size : Nat) (hsize : 0 < size ∧ size ≤ 8) (hbase : encoded.setWidth 32 &&& 0x3#32 = 0x3#32) :
    ((dvrDecodeRiscvSemantic u encoded size).semantic ≠ .Unsupported →
      ∃ i, Riscv.decode (encoded.setWidth 32) = some i ∧
        named i = some (dvrDecodeRiscvSemantic u encoded size).semantic ∧
        Computes (dvrDecodeRiscvSemantic u encoded size) u.pc i u.source0 u.source1) ∧
    ((∀ i, Riscv.decode (encoded.setWidth 32) = some i → named i = none) →
      (dvrDecodeRiscvSemantic u encoded size).semantic = .Unsupported) := by
  have hdec : dvrDecodeRiscvSemantic u encoded size =
      decodeBase { u with encoding := encoded.setWidth 32, encodingValid := true }
        (encoded.setWidth 32) := by
    unfold dvrDecodeRiscvSemantic
    rw [if_neg (by omega)]
    simp only [hbase, ne_eq, not_true_eq_false, if_false]
  rw [hdec]
  rcases decodeBase_settles
    (u := { u with encoding := encoded.setWidth 32, encodingValid := true }) hu
    (encoded.setWidth 32) with ⟨i, hi, ht⟩ | ⟨hn, hs⟩
  · refine ⟨fun _ => ⟨i, hi, ht.semantic, ht.computes⟩, fun h => ?_⟩
    have := ht.semantic
    rw [h i hi] at this
    cases this
  · exact ⟨fun h => absurd hs h, fun _ => hs⟩

/-- `remw` of the overflow pair's word operands, decoded and replayed. -/
theorem decodeBase_faithful_remw :
    (dvrDecodeRiscvSemantic { pc := 0x80000000, source0 := some 10, source1 := some 11 }
        0x02b5653b 8).semantic = .RemainderWord ∧
      ∃ i, Riscv.decode ((0x02b5653b : BitVec 64).setWidth 32) = some i ∧
        Computes (dvrDecodeRiscvSemantic
          { pc := 0x80000000, source0 := some 10, source1 := some 11 } 0x02b5653b 8)
          0x80000000 i (some 10) (some 11) := by
  have hs : (dvrDecodeRiscvSemantic { pc := 0x80000000, source0 := some 10, source1 := some 11 }
      0x02b5653b 8).semantic = .RemainderWord := by decide
  have hne : (dvrDecodeRiscvSemantic { pc := 0x80000000, source0 := some 10, source1 := some 11 }
      0x02b5653b 8).semantic ≠ .Unsupported := by rw [hs]; decide
  obtain ⟨i, hi, -, hc⟩ := (decodeBase_faithful
    { pc := 0x80000000, source0 := some 10, source1 := some 11 } rfl 0x02b5653b 8 (by decide)
    (by decide)).1 hne
  exact ⟨hs, i, hi, hc⟩

end Gem5Dvr.Decode
