/-
  The compressed half of the replay decoder, and the two formats it gets wrong.

  Every RV64C format scrambles its immediate differently.  The comparison is made field by field:
  both sides are functions of the same few extracted fields, so each identity is a finite check
  over at most ten bits (`decide`), stated once per format.

  Two formats LOSE an offset bit:
    * `C.LW` never reads encoding bit 5 (offset bit 6);
    * `C.LDSP` is decoded with the immediate layout of `C.LWSP`, so encoding bit 4 lands in offset
      bit 2 instead of offset bit 8.
  `decodeCompressed_faithful_iff` says that these are the ONLY defects: an encoding that gets a
  semantic is replayed exactly, for all operand values, iff it is neither of the two with the
  offending bit set (`losesOffsetBit`).
-/
import Gem5Dvr.DecodeBase

namespace Gem5Dvr.Decode

open Gem5Dvr.Riscv (Instr CInstr)

/-! ## The immediates -/

/-- The CI immediate as the six bits of the manual. -/
theorem ciImmediate_eq (c : BitVec 16) :
    ciImmediate c = (c.extractLsb' 12 1 ++ c.extractLsb' 2 5).setWidth 64 := by
  have h : ∀ (a : BitVec 1) (b : BitVec 5),
      (a.setWidth 64 <<< 5) ||| b.setWidth 64 = (a ++ b).setWidth 64 := by
    decide
  exact h _ _

theorem ciImmediate_signed (c : BitVec 16) : dvrSignExtend (ciImmediate c) 6
      = ((c.extractLsb' 12 1 ++ c.extractLsb' 2 5).signExtend 12).signExtend 64 := by
  have h : ∀ x : BitVec 6, x.signExtend 64 = (x.signExtend 12).signExtend 64 := by
    decide
  rw [ciImmediate_eq, dvrSignExtend_eq (by decide) (by decide), h]

theorem ciImmediate_upper (c : BitVec 16) : dvrSignExtend (ciImmediate c) 6 <<< 12
      = ((c.extractLsb' 12 1 ++ c.extractLsb' 2 5).signExtend 20 ++ 0#12).signExtend 64 := by
  have h : ∀ x : BitVec 6, x.signExtend 64 <<< 12 = (x.signExtend 20 ++ 0#12).signExtend 64 := by
    decide
  rw [ciImmediate_eq, dvrSignExtend_eq (by decide) (by decide), h]

theorem addi4spn_immediate (c : BitVec 16) :
    (field c 11 2 <<< 4) ||| (field c 7 4 <<< 6) ||| (field c 6 1 <<< 2) ||| (field c 5 1 <<< 3)
      = ((c.extractLsb' 7 4 ++ c.extractLsb' 11 2 ++ c.extractLsb' 5 1 ++ c.extractLsb' 6 1 ++ 0#2 :
          BitVec 10).setWidth 12).signExtend 64 := by
  have h : ∀ (x : BitVec 2) (y : BitVec 4) (z w : BitVec 1),
      (x.setWidth 64 <<< 4) ||| (y.setWidth 64 <<< 6) ||| (z.setWidth 64 <<< 2) |||
        (w.setWidth 64 <<< 3)
      = ((y ++ x ++ w ++ z ++ 0#2 : BitVec 10).setWidth 12).signExtend 64 := by
    decide
  exact h _ _ _ _

theorem addi16sp_immediate (c : BitVec 16) :
    dvrSignExtend ((field c 12 1 <<< 9) ||| (field c 6 1 <<< 4) |||
        (field c 5 1 <<< 6) ||| (field c 3 2 <<< 7) ||| (field c 2 1 <<< 5)) 10
      = ((c.extractLsb' 12 1 ++ c.extractLsb' 3 2 ++ c.extractLsb' 5 1 ++ c.extractLsb' 2 1 ++
          c.extractLsb' 6 1 ++ 0#4 : BitVec 10).signExtend 12).signExtend 64 := by
  have h : ∀ (x : BitVec 1) (y z : BitVec 1) (w : BitVec 2) (v : BitVec 1),
      dvrSignExtend ((x.setWidth 64 <<< 9) ||| (y.setWidth 64 <<< 4) ||| (z.setWidth 64 <<< 6) |||
        (w.setWidth 64 <<< 7) ||| (v.setWidth 64 <<< 5)) 10
      = ((x ++ w ++ z ++ v ++ y ++ 0#4 : BitVec 10).signExtend 12).signExtend 64 := by
    decide
  exact h _ _ _ _ _

theorem ld_immediate (c : BitVec 16) : (field c 10 3 <<< 3) ||| (field c 5 2 <<< 6)
      = ((c.extractLsb' 5 2 ++ c.extractLsb' 10 3 ++ 0#3 :
          BitVec 8).setWidth 12).signExtend 64 := by
  have h : ∀ (x : BitVec 3) (y : BitVec 2), (x.setWidth 64 <<< 3) ||| (y.setWidth 64 <<< 6)
      = ((y ++ x ++ 0#3 : BitVec 8).setWidth 12).signExtend 64 := by
    decide
  exact h _ _

theorem lwsp_immediate (c : BitVec 16) :
    (field c 12 1 <<< 5) ||| (field c 4 3 <<< 2) ||| (field c 2 2 <<< 6)
      = ((c.extractLsb' 2 2 ++ c.extractLsb' 12 1 ++ c.extractLsb' 4 3 ++ 0#2 :
          BitVec 8).setWidth 12).signExtend 64 := by
  have h : ∀ (x : BitVec 1) (y : BitVec 3) (z : BitVec 2),
      (x.setWidth 64 <<< 5) ||| (y.setWidth 64 <<< 2) ||| (z.setWidth 64 <<< 6)
      = ((z ++ x ++ y ++ 0#2 : BitVec 8).setWidth 12).signExtend 64 := by
    decide
  exact h _ _ _

/-- `C.LW`: the offset is right exactly when its bit 6 (encoding bit 5) is clear. -/
theorem lw_immediate_iff (c : BitVec 16) : (field c 10 3 <<< 3) ||| (field c 6 1 <<< 2)
      = ((c.extractLsb' 5 1 ++ c.extractLsb' 10 3 ++ c.extractLsb' 6 1 ++ 0#2 :
          BitVec 7).setWidth 12).signExtend 64 ↔ c.extractLsb' 5 1 = 0#1 := by
  have h : ∀ (x : BitVec 3) (y z : BitVec 1), (x.setWidth 64 <<< 3) ||| (y.setWidth 64 <<< 2)
      = ((z ++ x ++ y ++ 0#2 : BitVec 7).setWidth 12).signExtend 64 ↔ z = 0#1 := by
    decide
  exact h _ _ _

/-- `C.LDSP`: encoding bit 4 is offset bit 8, the shared expression puts it at bit 2. -/
theorem ldsp_immediate_iff (c : BitVec 16) :
    (field c 12 1 <<< 5) ||| (field c 4 3 <<< 2) ||| (field c 2 2 <<< 6)
      = ((c.extractLsb' 2 3 ++ c.extractLsb' 12 1 ++ c.extractLsb' 5 2 ++ 0#3 :
          BitVec 9).setWidth 12).signExtend 64 ↔ c.extractLsb' 4 1 = 0#1 := by
  have h43 : c.extractLsb' 5 2 ++ c.extractLsb' 4 1 = c.extractLsb' 4 (2 + 1) :=
    BitVec.extractLsb'_append_extractLsb'_eq_extractLsb' rfl
  have h23 : c.extractLsb' 4 1 ++ c.extractLsb' 2 2 = c.extractLsb' 2 (1 + 2) :=
    BitVec.extractLsb'_append_extractLsb'_eq_extractLsb' rfl
  have h : ∀ (x : BitVec 1) (y : BitVec 2) (z : BitVec 2) (w : BitVec 1),
      (x.setWidth 64 <<< 5) ||| ((y ++ w).setWidth 64 <<< 2) ||| (z.setWidth 64 <<< 6)
      = (((w ++ z : BitVec 3) ++ x ++ y ++ 0#3 : BitVec 9).setWidth 12).signExtend 64 ↔
        w = 0#1 := by
    decide
  unfold field
  rw [show c.extractLsb' 4 3 = _ from h43.symm, show c.extractLsb' 2 3 = _ from h23.symm]
  exact h _ _ _ _

/-! ## The formats -/

/-- `v` computes the compressed instruction `i`: a base instruction from the registers its encoding
    names; a form without a result asks nothing; a form whose result is elsewhere must not be given
    a semantic at all. -/
def ComputesCompressed (v : Uop) (pc : Addr) (i : CInstr) : Prop :=
  match i.kind with
  | .base j => Computes v pc j i.rs1 i.rs2
  | .noResult => True
  | .other => False

/-- The two formats whose immediate the decoder gets wrong, with the offending bit set. -/
def losesOffsetBit (c : BitVec 16) : Bool :=
  (c.extractLsb' 0 2 == 0 && c.extractLsb' 13 3 == 2 && c.extractLsb' 5 1 == 1) ||
  (c.extractLsb' 0 2 == 2 && c.extractLsb' 13 3 == 3 && c.extractLsb' 4 1 == 1)

/-- A uop with the semantic, immediate and sources of a base instruction. -/
theorem computes_of_named {v : Uop} {pc : Addr} {j : Instr} {i : CInstr} (hk : i.kind = .base j)
    (hs : named j = some v.semantic) (him : ∀ x, immediateOf pc j = some x → v.immediate = x)
    (h0 : v.source0 = i.rs1 ∨ v.source0 = some 0 ∧ i.rs1 = none) (h1 : v.source1 = i.rs2)
    (hz : fromZero j = true → i.rs1 = none) : ComputesCompressed v pc i := by
  rw [ComputesCompressed, hk]
  intro regs hx0
  have hop : Uop.operand regs v.source0 = Uop.operand regs i.rs1 := by
    rcases h0 with h | ⟨h, h'⟩
    · rw [h]
    · rw [h, h']
      exact hx0
  rw [hop, h1]
  refine outcome_of_named hs him _ _ fun h => ?_
  rw [hz h]
  rfl

/-- A load computes its address iff its immediate is the offset. -/
theorem computes_load_iff {v : Uop} {pc : Addr} {i : CInstr} {k : Riscv.LoadOp} {imm : BitVec 12}
    (hk : i.kind = .base (.load k imm)) (hs : isLoadSemantic v.semantic = true)
    (h0 : v.source0 = i.rs1) :
    ComputesCompressed v pc i ↔ v.immediate = imm.signExtend 64 := by
  rw [ComputesCompressed, hk]
  constructor
  · intro h
    have := h (fun _ => 0) rfl
    rw [load_outcome hs, h0] at this
    simpa [Instr.outcome] using this
  · intro h regs _
    rw [load_outcome hs, h0, h]
    rfl

/-- `C.MV` is `add rd, x0, rs2`, but its only integer source is recorded as `source0`. -/
theorem computes_move {v : Uop} {pc : Addr} {r : Fin 32} (hs : v.semantic = .Move)
    (h0 : v.source0 = some r) :
    ComputesCompressed v pc { kind := .base (.op .add), rs2 := some r } := by
  intro regs _
  rw [h0]
  simp [outcome, Uop.evaluateBranch, Uop.evaluate, hs, isLoadSemantic, Instr.outcome,
    Riscv.AluOp.eval, Uop.operand]

theorem two_bit_cases : ∀ f : BitVec 2, f = 0#2 ∨ f = 1#2 ∨ f = 2#2 ∨ f = 3#2 := by
  decide

theorem bit_eq_one_iff : ∀ b : BitVec 1, b = 1#1 ↔ ¬ b = 0#1 := by
  decide

/-- The uop as the recorder hands it to the decoder: nothing decoded yet, and the two source
    numbers taken from the decoded instruction in architectural order. -/
structure Recorded (u : Uop) (i : CInstr) : Prop where
  semantic : u.semantic = .Unsupported
  source0 : u.source0 = i.sources[0]?
  source1 : u.source1 = i.sources[1]?

section Quadrants

variable {u : Uop} {c : BitVec 16} {i : CInstr}

theorem unsupported_absurd {P : Prop} (hr : Recorded u i)
    (hv : (decodeCompressed u c).semantic ≠ .Unsupported) (h : decodeCompressed u c = u) : P := by
  rw [h] at hv
  exact absurd hr.semantic hv

theorem quadrant0 (hr : Recorded u i) (hq : c.extractLsb' 0 2 = 0#2)
    (hi : Riscv.expand0 c = some i) (hv : (decodeCompressed u c).semantic ≠ .Unsupported) :
    ComputesCompressed (decodeCompressed u c) u.pc i ↔ losesOffsetBit c = false := by
  rcases funct3_cases (c.extractLsb' 13 3) with h | h | h | h | h | h | h | h <;>
    simp only [Riscv.expand0, h] at hi
  · -- C.ADDI4SPN
    split_ifs at hi
    cases hi
    by_cases h2 : c.extractLsb' 2 5 = 0#5
    · exact unsupported_absurd hr hv (by simp [decodeCompressed, hq, h, h2])
    · have hd : decodeCompressed u c = { u with
          semantic := .AddImmediate, source0 := some 2,
          immediate := (field c 11 2 <<< 4) ||| (field c 7 4 <<< 6) ||| (field c 6 1 <<< 2) |||
            (field c 5 1 <<< 3) } := by
        simp [decodeCompressed, hq, h, h2]
      refine iff_of_true ?_ (by simp [losesOffsetBit, hq, h])
      rw [hd, addi4spn_immediate]
      exact computes_of_named rfl rfl (fun _ => Option.some.inj) (Or.inl rfl) hr.source1 nofun
  · exact unsupported_absurd hr hv (by simp [decodeCompressed, hq, h])
  · -- C.LW
    cases hi
    have hd : decodeCompressed u c = { u with
        semantic := .LoadWordSigned, loadBytes := 4,
        immediate := (field c 10 3 <<< 3) ||| (field c 6 1 <<< 2) } := by
      simp [decodeCompressed, hq, h]
    have hlw : losesOffsetBit c = false ↔ c.extractLsb' 5 1 = 0#1 := by
      simp [losesOffsetBit, hq, h, bit_eq_one_iff]
    rw [hd, hlw, ← lw_immediate_iff]
    exact computes_load_iff rfl rfl hr.source0
  · -- C.LD
    cases hi
    have hd : decodeCompressed u c = { u with
        semantic := .LoadDouble, loadBytes := 8,
        immediate := (field c 10 3 <<< 3) ||| (field c 5 2 <<< 6) } := by
      simp [decodeCompressed, hq, h]
    refine iff_of_true ?_ (by simp [losesOffsetBit, hq, h])
    rw [hd, ld_immediate]
    exact computes_of_named rfl rfl (fun _ => Option.some.inj) (Or.inl hr.source0) hr.source1 nofun
  all_goals exact unsupported_absurd hr hv (by simp [decodeCompressed, hq, h])

/-- Quadrant 1, `funct3 = 100`: shifts, `C.ANDI` and the register-register group. -/
theorem quadrant1_misc (hr : Recorded u i) (hq : c.extractLsb' 0 2 = 1#2)
    (h : c.extractLsb' 13 3 = 4#3) (hi : Riscv.expand1 c = some i) :
    ComputesCompressed (decodeCompressed u c) u.pc i := by
  simp only [Riscv.expand1, h] at hi
  rcases two_bit_cases (c.extractLsb' 10 2) with hs | hs | hs | hs <;> simp only [hs] at hi
  · -- C.SRLI
    cases hi
    have hd : decodeCompressed u c = { u with
        semantic := .ShiftRightLogicalImmediate, immediate := ciImmediate c } := by
      simp [decodeCompressed, hq, h, hs]
    rw [hd, ciImmediate_eq]
    exact computes_of_named rfl rfl (fun _ => Option.some.inj) (Or.inl hr.source0) hr.source1 nofun
  · -- C.SRAI
    cases hi
    have hd : decodeCompressed u c = { u with
        semantic := .ShiftRightArithmeticImmediate, immediate := ciImmediate c } := by
      simp [decodeCompressed, hq, h, hs]
    rw [hd, ciImmediate_eq]
    exact computes_of_named rfl rfl (fun _ => Option.some.inj) (Or.inl hr.source0) hr.source1 nofun
  · -- C.ANDI
    cases hi
    have hd : decodeCompressed u c = { u with
        semantic := .AndImmediate, immediate := dvrSignExtend (ciImmediate c) 6 } := by
      simp [decodeCompressed, hq, h, hs]
    rw [hd, ciImmediate_signed]
    exact computes_of_named rfl rfl (fun _ => Option.some.inj) (Or.inl hr.source0) hr.source1 nofun
  · -- the register-register forms have no immediate, only the operation is chosen
    have hreg : ∀ (s : Semantic) (j : Instr), decodeCompressed u c = { u with semantic := s } →
        some (CInstr.mk (.base j) (some (Riscv.reg' (c.extractLsb' 7 3)))
          (some (Riscv.reg' (c.extractLsb' 2 3)))) = some i →
        named j = some s → immediateOf u.pc j = none → fromZero j = false →
        ComputesCompressed (decodeCompressed u c) u.pc i := by
      intro s j hd hij hn hnone hz
      cases hij
      rw [hd]
      exact computes_of_named rfl hn (fun x hx => by rw [hnone] at hx; cases hx)
        (Or.inl hr.source0) hr.source1 (fun h => by rw [hz] at h; cases h)
    have hi : (if c.extractLsb' 12 1 = 0#1 then _ else _) = some i := hi
    by_cases h12 : c.extractLsb' 12 1 = 0#1
    · rw [if_pos h12] at hi
      simp only [Riscv.expandMisc] at hi
      rcases two_bit_cases (c.extractLsb' 5 2) with h5 | h5 | h5 | h5 <;> simp only [h5] at hi
      · exact hreg .Sub _ (by simp [decodeCompressed, hq, h, hs, h12, h5]) hi rfl rfl rfl
      · exact hreg .Xor _ (by simp [decodeCompressed, hq, h, hs, h12, h5]) hi rfl rfl rfl
      · exact hreg .Or _ (by simp [decodeCompressed, hq, h, hs, h12, h5]) hi rfl rfl rfl
      · exact hreg .And (.op .and) (by simp [decodeCompressed, hq, h, hs, h12, h5]) hi rfl rfl rfl
    · rw [if_neg h12] at hi
      simp only [Riscv.expandMiscW] at hi
      rcases two_bit_cases (c.extractLsb' 5 2) with h5 | h5 | h5 | h5 <;> simp only [h5] at hi
      · exact hreg .SubWord _ (by simp [decodeCompressed, hq, h, hs, h12, h5]) hi rfl rfl rfl
      · exact hreg .AddWord _ (by simp [decodeCompressed, hq, h, hs, h12, h5]) hi rfl rfl rfl
      · cases hi
      · cases hi

theorem quadrant1 (hr : Recorded u i) (hq : c.extractLsb' 0 2 = 1#2)
    (hi : Riscv.expand1 c = some i) (hv : (decodeCompressed u c).semantic ≠ .Unsupported) :
    ComputesCompressed (decodeCompressed u c) u.pc i := by
  rcases funct3_cases (c.extractLsb' 13 3) with h | h | h | h | h | h | h | h
  case inr.inr.inr.inr.inl => exact quadrant1_misc hr hq h hi
  all_goals simp only [Riscv.expand1, h] at hi
  · -- C.ADDI; `rd = x0` is C.NOP
    by_cases hrd : c.extractLsb' 7 5 = 0#5
    · exact unsupported_absurd hr hv (by simp [decodeCompressed, hq, h, hrd])
    · have hd : decodeCompressed u c = { u with
          semantic := .AddImmediate, immediate := dvrSignExtend (ciImmediate c) 6 } := by
        simp [decodeCompressed, hq, h, hrd]
      rw [if_neg hrd] at hi
      cases hi
      rw [hd, ciImmediate_signed]
      exact computes_of_named rfl rfl (fun _ => Option.some.inj) (Or.inl hr.source0) hr.source1
        nofun
  · -- C.ADDIW
    by_cases hrd : c.extractLsb' 7 5 = 0#5
    · exact unsupported_absurd hr hv (by simp [decodeCompressed, hq, h, hrd])
    · have hd : decodeCompressed u c = { u with
          semantic := .AddWordImmediate, immediate := dvrSignExtend (ciImmediate c) 6 } := by
        simp [decodeCompressed, hq, h, hrd]
      rw [if_neg hrd] at hi
      cases hi
      rw [hd, ciImmediate_signed]
      exact computes_of_named rfl rfl (fun _ => Option.some.inj) (Or.inl hr.source0) hr.source1
        nofun
  · -- C.LI
    by_cases hrd : c.extractLsb' 7 5 = 0#5
    · exact unsupported_absurd hr hv (by simp [decodeCompressed, hq, h, hrd])
    · have hd : decodeCompressed u c = { u with
          semantic := .AddImmediate, source0 := some 0,
          immediate := dvrSignExtend (ciImmediate c) 6 } := by
        simp [decodeCompressed, hq, h, hrd]
      rw [if_neg hrd] at hi
      cases hi
      rw [hd, ciImmediate_signed]
      exact computes_of_named rfl rfl (fun _ => Option.some.inj) (Or.inr ⟨rfl, rfl⟩) hr.source1
        nofun
  · -- C.ADDI16SP and C.LUI
    by_cases hz : c.extractLsb' 12 1 ++ c.extractLsb' 2 5 = 0#6
    · rw [if_pos hz] at hi
      cases hi
    rw [if_neg hz] at hi
    by_cases h2 : c.extractLsb' 7 5 = 2#5
    · have hd : decodeCompressed u c = { u with
          semantic := .AddImmediate, source0 := some 2,
          immediate := dvrSignExtend ((field c 12 1 <<< 9) ||| (field c 6 1 <<< 4) |||
            (field c 5 1 <<< 6) ||| (field c 3 2 <<< 7) ||| (field c 2 1 <<< 5)) 10 } := by
        simp [decodeCompressed, hq, h, h2]
      rw [if_pos h2] at hi
      cases hi
      rw [hd, addi16sp_immediate]
      exact computes_of_named rfl rfl (fun _ => Option.some.inj) (Or.inl rfl) hr.source1 nofun
    · rw [if_neg h2] at hi
      by_cases hrd : c.extractLsb' 7 5 = 0#5
      · exact unsupported_absurd hr hv (by simp [decodeCompressed, hq, h, hrd])
      · have hd : decodeCompressed u c = { u with
            semantic := .AddImmediate, source0 := some 0,
            immediate := dvrSignExtend (ciImmediate c) 6 <<< 12 } := by
          simp [decodeCompressed, hq, h, h2, hrd]
        rw [if_neg hrd] at hi
        cases hi
        rw [hd, ciImmediate_upper]
        exact computes_of_named rfl rfl (fun _ => Option.some.inj) (Or.inr ⟨rfl, rfl⟩) hr.source1
          (fun _ => rfl)
  · -- C.J leaves no integer result
    cases hi
    trivial
  · -- C.BEQZ
    cases hi
    have hd : decodeCompressed u c = { u with semantic := .BranchEqual } := by
      simp [decodeCompressed, hq, h]
    rw [hd]
    exact computes_of_named rfl rfl nofun (Or.inl hr.source0) hr.source1 nofun
  · -- C.BNEZ
    cases hi
    have hd : decodeCompressed u c = { u with semantic := .BranchNotEqual } := by
      simp [decodeCompressed, hq, h]
    rw [hd]
    exact computes_of_named (j := .branch .bne) rfl rfl nofun (Or.inl hr.source0) hr.source1 nofun

theorem quadrant2 (hr : Recorded u i) (hq : c.extractLsb' 0 2 = 2#2)
    (hi : Riscv.expand2 c = some i) (hv : (decodeCompressed u c).semantic ≠ .Unsupported) :
    ComputesCompressed (decodeCompressed u c) u.pc i ↔ losesOffsetBit c = false := by
  rcases funct3_cases (c.extractLsb' 13 3) with h | h | h | h | h | h | h | h <;>
    simp only [Riscv.expand2, h] at hi
  · -- C.SLLI
    refine iff_of_true ?_ (by simp [losesOffsetBit, hq, h])
    by_cases hrd : c.extractLsb' 7 5 = 0#5
    · exact unsupported_absurd hr hv (by simp [decodeCompressed, hq, h, hrd])
    · have hd : decodeCompressed u c = { u with
          semantic := .ShiftLeftImmediate, immediate := ciImmediate c } := by
        simp [decodeCompressed, hq, h, hrd]
      rw [if_neg hrd] at hi
      cases hi
      rw [hd, ciImmediate_eq]
      exact computes_of_named rfl rfl (fun _ => Option.some.inj) (Or.inl hr.source0) hr.source1
        nofun
  · exact unsupported_absurd hr hv (by simp [decodeCompressed, hq, h])
  · -- C.LWSP
    refine iff_of_true ?_ (by simp [losesOffsetBit, hq, h])
    by_cases hrd : c.extractLsb' 7 5 = 0#5
    · exact unsupported_absurd hr hv (by simp [decodeCompressed, hq, h, hrd])
    · have hd : decodeCompressed u c = { u with
          semantic := .LoadWordSigned, loadBytes := 4, source0 := some 2,
          immediate := (field c 12 1 <<< 5) ||| (field c 4 3 <<< 2) ||| (field c 2 2 <<< 6) } := by
        simp [decodeCompressed, hq, h, hrd]
      rw [if_neg hrd] at hi
      cases hi
      rw [hd, lwsp_immediate]
      exact computes_of_named rfl rfl (fun _ => Option.some.inj) (Or.inl rfl) hr.source1 nofun
  · -- C.LDSP
    by_cases hrd : c.extractLsb' 7 5 = 0#5
    · exact unsupported_absurd hr hv (by simp [decodeCompressed, hq, h, hrd])
    · have hd : decodeCompressed u c = { u with
          semantic := .LoadDouble, loadBytes := 8, source0 := some 2,
          immediate := (field c 12 1 <<< 5) ||| (field c 4 3 <<< 2) ||| (field c 2 2 <<< 6) } := by
        simp [decodeCompressed, hq, h, hrd]
      rw [if_neg hrd] at hi
      cases hi
      have hldsp : losesOffsetBit c = false ↔ c.extractLsb' 4 1 = 0#1 := by
        simp [losesOffsetBit, hq, h, bit_eq_one_iff]
      rw [hd, hldsp, ← ldsp_immediate_iff]
      exact computes_load_iff rfl rfl rfl
  · -- C.JR, C.MV, C.JALR, C.EBREAK and C.ADD share the major encoding
    refine iff_of_true ?_ (by simp [losesOffsetBit, hq, h])
    by_cases hrd : c.extractLsb' 7 5 = 0#5
    · exact unsupported_absurd hr hv (by simp [decodeCompressed, hq, h, hrd])
    by_cases hrs : c.extractLsb' 2 5 = 0#5
    · exact unsupported_absurd hr hv (by simp [decodeCompressed, hq, h, hrs])
    by_cases h12 : c.extractLsb' 12 1 = 0#1
    · rw [if_pos h12, if_neg hrs, if_neg hrd] at hi
      cases hi
      have hd : decodeCompressed u c = { u with semantic := .Move } := by
        simp [decodeCompressed, hq, h, hrd, hrs, h12]
      rw [hd]
      exact computes_move rfl hr.source0
    · rw [if_neg h12, if_neg hrs, if_neg hrd] at hi
      cases hi
      have hd : decodeCompressed u c = { u with semantic := .Add } := by
        simp [decodeCompressed, hq, h, hrd, hrs, h12]
      rw [hd]
      exact computes_of_named rfl rfl nofun (Or.inl hr.source0) hr.source1 nofun
  all_goals exact unsupported_absurd hr hv (by simp [decodeCompressed, hq, h])

end Quadrants

/-- The decoder's test for a 32-bit encoding, in terms of the quadrant. -/
theorem low_bits_iff (x : BitVec 64) :
    x.setWidth 32 &&& 0x3#32 = 0x3#32 ↔ (x.setWidth 16).extractLsb' 0 2 = 3#2 := by
  have hand : (x.setWidth 32 &&& 0x3#32).toNat = x.toNat % 2 ^ 32 % 4 := by
    exact Nat.and_two_pow_sub_one_eq_mod _ 2
  have hext : ((x.setWidth 16).extractLsb' 0 2).toNat = x.toNat % 2 ^ 16 % 4 := by
    rw [BitVec.extractLsb'_toNat, BitVec.toNat_setWidth, Nat.shiftRight_zero]
  rw [← BitVec.toNat_inj, ← BitVec.toNat_inj, hand, hext]
  simp only [BitVec.toNat_ofNat]
  omega

/-- THE COMPRESSED HALF.  Of the encodings that get a semantic, exactly the `C.LW`s with bit 5 and
    the `C.LDSP`s with bit 4 set are decoded wrongly. -/
theorem decodeCompressed_faithful_iff (u : Uop) (i : CInstr) (hr : Recorded u i)
    (encoded : BitVec 64) (size : Nat) (hsize : 0 < size ∧ size ≤ 8)
    (hi : Riscv.expand (encoded.setWidth 16) = some i)
    (hv : (dvrDecodeRiscvSemantic u encoded size).semantic ≠ .Unsupported) :
    ComputesCompressed (dvrDecodeRiscvSemantic u encoded size) u.pc i ↔
      losesOffsetBit (encoded.setWidth 16) = false := by
  have hlow : (encoded.setWidth 32).setWidth 16 = encoded.setWidth 16 :=
    BitVec.setWidth_setWidth_of_le _ (by decide)
  have hq3 : encoded.setWidth 32 &&& 0x3#32 ≠ 0x3#32 := by
    rw [ne_eq, low_bits_iff]
    intro h
    rw [Riscv.expand, h] at hi
    cases hi
  have hdec : dvrDecodeRiscvSemantic u encoded size =
      decodeCompressed { u with encoding := encoded.setWidth 32, encodingValid := true }
        (encoded.setWidth 16) := by
    unfold dvrDecodeRiscvSemantic
    rw [if_neg (by omega)]
    simp only [hq3, ne_eq, not_false_eq_true, if_true, hlow]
  rw [hdec] at hv ⊢
  have hu : Recorded { u with encoding := encoded.setWidth 32, encodingValid := true } i :=
    ⟨hr.semantic, hr.source0, hr.source1⟩
  rcases two_bit_cases ((encoded.setWidth 16).extractLsb' 0 2) with hq | hq | hq | hq <;>
    simp only [Riscv.expand, hq] at hi
  · exact quadrant0 hu hq hi hv
  · exact iff_of_true (quadrant1 hu hq hi hv) (by simp [losesOffsetBit, hq])
  · exact quadrant2 hu hq hi hv
  · cases hi

/-- `c.ld x8, 0(x8)` is replayed exactly. -/
theorem decodeCompressed_faithful_ld :
    ComputesCompressed (dvrDecodeRiscvSemantic { source0 := some 8 } 0x6000 8) 0
      { kind := .base (.load .ld 0), rs1 := some 8 } :=
  (decodeCompressed_faithful_iff { source0 := some 8 }
    { kind := .base (.load .ld 0), rs1 := some 8 } ⟨rfl, rfl, rfl⟩ 0x6000 8 (by decide) (by decide)
    (by decide)).mpr (by decide)

/-- `c.lw x8, 64(x8)` (0x4020) is given the offset 0, and `c.ldsp x1, 256(sp)` (0x6092) the
    offset 4: the compressed half is not faithful. -/
theorem decodeCompressed_not_faithful :
    ¬ (∀ (u : Uop) (i : CInstr), Recorded u i → ∀ (encoded : BitVec 64) (size : Nat),
        0 < size ∧ size ≤ 8 → Riscv.expand (encoded.setWidth 16) = some i →
        (dvrDecodeRiscvSemantic u encoded size).semantic ≠ .Unsupported →
        ComputesCompressed (dvrDecodeRiscvSemantic u encoded size) u.pc i) ∧
    (dvrDecodeRiscvSemantic { source0 := some 8 } 0x4020 8).evaluate 0x1000 0 = some 0x1000 ∧
    Riscv.expand 0x4020 = some { kind := .base (.load .lw 64), rs1 := some 8 } ∧
    (dvrDecodeRiscvSemantic { source0 := some 2 } 0x6092 8).evaluate 0x1000 0 = some 0x1004 ∧
    Riscv.expand 0x6092 = some { kind := .base (.load .ld 256), rs1 := some 2 } := by
  refine ⟨fun h => ?_, by decide, by decide, by decide, by decide⟩
  have hc := h { source0 := some 8 } { kind := .base (.load .lw 64), rs1 := some 8 }
    ⟨rfl, rfl, rfl⟩ 0x4020 8 (by decide) (by decide) (by decide) (fun _ => 0) rfl
  revert hc
  decide

end Gem5Dvr.Decode
