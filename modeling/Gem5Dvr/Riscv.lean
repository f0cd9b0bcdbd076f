/-
  A reference semantics of RV64IM and of the RV64C formats, written from the instruction-set
  manual and independent of the simulator: what one instruction hands on as a function of its
  two operand values and its PC.

  The replay decoder of `Gem5Dvr.Decode` recovers an operation and an immediate from the raw
  instruction bits; this file is what its answers are compared with.  Three kinds of OUTCOME
  are distinguished, since an executor consumes them differently:

    * `value`    — the destination (or link) value of an ALU instruction;
    * `address`  — the effective address of a load;
    * `taken`    — the outcome of a conditional branch.

  `decode` covers every RV64IM encoding of the opcodes LUI, AUIPC, JAL, OP, OP-32, OP-IMM,
  OP-IMM-32, LOAD and BRANCH.  `expand` covers all of RV64C: a compressed instruction is a base
  instruction (`CKind.base`) with the registers its own encoding names, or one of the forms that
  leave no integer result (`CKind.noResult`: jumps, NOP and the HINT space) or whose result is
  outside the integer register file (`CKind.other`: stores, FP accesses, indirect jumps, EBREAK).
  `none` is a reserved encoding.
-/
import Mathlib.Data.BitVec

namespace Gem5Dvr.Riscv

/-- What an instruction hands on. -/
inductive Outcome
  | value (v : BitVec 64)
  | address (a : BitVec 64)
  | taken (t : Bool)
  deriving DecidableEq, Repr

/-! ## RV64IM operations -/

/-- Operations on two registers. -/
inductive AluOp
  | add | sub | sll | slt | sltu | xor | srl | sra | or | and
  | mul | mulh | mulhsu | mulhu | div | divu | rem | remu
  deriving DecidableEq, Repr

/-- Operations on two words. -/
inductive WordOp
  | addw | subw | sllw | srlw | sraw | mulw | divw | divuw | remw | remuw
  deriving DecidableEq, Repr

/-- Operations on a register and an immediate. -/
inductive ImmOp
  | addi | slti | sltiu | xori | ori | andi
  deriving DecidableEq, Repr

/-- Shifts by an immediate. -/
inductive ShiftOp
  | sll | srl | sra
  deriving DecidableEq, Repr

/-- Loads. -/
inductive LoadOp
  | lb | lh | lw | ld | lbu | lhu | lwu
  deriving DecidableEq, Repr

/-- Conditional branches. -/
inductive BranchOp
  | beq | bne | blt | bge | bltu | bgeu
  deriving DecidableEq, Repr

/-- A comparison result as a register value. -/
def flag (b : Bool) : BitVec 64 := if b then 1 else 0

/-- Signed division and remainder of the M extension: truncating, `-1`/dividend on a zero
    divisor.  The overflow pair (most negative, `-1`) needs no case of its own: the quotient
    wraps to the dividend and the remainder is `0`. -/
def sdiv {w : Nat} (a b : BitVec w) : BitVec w :=
  if b = 0#w then -1#w else BitVec.ofInt w (a.toInt.tdiv b.toInt)

/-- Signed remainder. -/
def srem {w : Nat} (a b : BitVec w) : BitVec w :=
  if b = 0#w then a else BitVec.ofInt w (a.toInt.tmod b.toInt)

/-- Unsigned division. -/
def udiv {w : Nat} (a b : BitVec w) : BitVec w := if b = 0#w then -1#w else a / b

/-- Unsigned remainder. -/
def urem {w : Nat} (a b : BitVec w) : BitVec w := if b = 0#w then a else a % b

/-- The result. -/
def AluOp.eval (o : AluOp) (a b : BitVec 64) : BitVec 64 :=
  match o with
  | add => a + b
  | sub => a - b
  | sll => a <<< (b.extractLsb' 0 6).toNat
  | slt => flag (a.slt b)
  | sltu => flag (a.ult b)
  | xor => a ^^^ b
  | srl => a >>> (b.extractLsb' 0 6).toNat
  | sra => a.sshiftRight (b.extractLsb' 0 6).toNat
  | or => a ||| b
  | and => a &&& b
  | mul => a * b
  | mulh => (a.signExtend 128 * b.signExtend 128).extractLsb' 64 64
  | mulhsu => (a.signExtend 128 * b.setWidth 128).extractLsb' 64 64
  | mulhu => (a.setWidth 128 * b.setWidth 128).extractLsb' 64 64
  | div => sdiv a b
  | divu => udiv a b
  | rem => srem a b
  | remu => urem a b

/-- The 32-bit operation of a word form, before its result is sign-extended. -/
def WordOp.eval32 (o : WordOp) (a b : BitVec 32) : BitVec 32 :=
  match o with
  | addw => a + b
  | subw => a - b
  | sllw => a <<< (b.extractLsb' 0 5).toNat
  | srlw => a >>> (b.extractLsb' 0 5).toNat
  | sraw => a.sshiftRight (b.extractLsb' 0 5).toNat
  | mulw => a * b
  | divw => sdiv a b
  | divuw => udiv a b
  | remw => srem a b
  | remuw => urem a b

/-- The result, sign-extended. -/
def WordOp.eval (o : WordOp) (a b : BitVec 64) : BitVec 64 :=
  (o.eval32 (a.setWidth 32) (b.setWidth 32)).signExtend 64

/-- The result. -/
def ImmOp.eval (o : ImmOp) (a imm : BitVec 64) : BitVec 64 :=
  match o with
  | addi => a + imm
  | slti => flag (a.slt imm)
  | sltiu => flag (a.ult imm)
  | xori => a ^^^ imm
  | ori => a ||| imm
  | andi => a &&& imm

/-- The result. -/
def ShiftOp.eval {w : Nat} (o : ShiftOp) (a : BitVec w) (shamt : Nat) : BitVec w :=
  match o with
  | sll => a <<< shamt
  | srl => a >>> shamt
  | sra => a.sshiftRight shamt

/-- Whether it is taken. -/
def BranchOp.eval (o : BranchOp) (a b : BitVec 64) : Bool :=
  match o with
  | beq => a == b
  | bne => a != b
  | blt => a.slt b
  | bge => b.sle a
  | bltu => a.ult b
  | bgeu => b.ule a

/-- A base instruction, as far as its outcome depends on it. -/
inductive Instr
  | lui (imm : BitVec 20)
  | auipc (imm : BitVec 20)
  | jal
  | op (o : AluOp)
  | opw (o : WordOp)
  | opImm (o : ImmOp) (imm : BitVec 12)
  | shift (o : ShiftOp) (shamt : BitVec 6)
  | addiw (imm : BitVec 12)
  | shiftw (o : ShiftOp) (shamt : BitVec 5)
  | load (k : LoadOp) (imm : BitVec 12)
  | branch (k : BranchOp)
  deriving DecidableEq, Repr

/-- The architectural outcome at `pc` with operand values `a` (rs1) and `b` (rs2). -/
def Instr.outcome (pc a b : BitVec 64) : Instr → Outcome
  | .lui imm => .value ((imm ++ 0#12).signExtend 64)
  | .auipc imm => .value (pc + (imm ++ 0#12).signExtend 64)
  | .jal => .value (pc + 4)
  | .op o => .value (o.eval a b)
  | .opw o => .value (o.eval a b)
  | .opImm o imm => .value (o.eval a (imm.signExtend 64))
  | .shift o shamt => .value (o.eval a shamt.toNat)
  | .addiw imm => .value ((a + imm.signExtend 64).setWidth 32 |>.signExtend 64)
  | .shiftw o shamt => .value ((o.eval (a.setWidth 32) shamt.toNat).signExtend 64)
  | .load _ imm => .address (a + imm.signExtend 64)
  | .branch k => .taken (k.eval a b)

/-! ## The 32-bit decoder -/

/-- Opcode `OP`. -/
def decodeOp (funct3 : BitVec 3) (funct7 : BitVec 7) : Option AluOp :=
  match funct7, funct3 with
  | 0x00, 0 => some .add
  | 0x00, 1 => some .sll
  | 0x00, 2 => some .slt
  | 0x00, 3 => some .sltu
  | 0x00, 4 => some .xor
  | 0x00, 5 => some .srl
  | 0x00, 6 => some .or
  | 0x00, 7 => some .and
  | 0x20, 0 => some .sub
  | 0x20, 5 => some .sra
  | 0x01, 0 => some .mul
  | 0x01, 1 => some .mulh
  | 0x01, 2 => some .mulhsu
  | 0x01, 3 => some .mulhu
  | 0x01, 4 => some .div
  | 0x01, 5 => some .divu
  | 0x01, 6 => some .rem
  | 0x01, 7 => some .remu
  | _, _ => none

/-- Opcode `OP-32`. -/
def decodeOpw (funct3 : BitVec 3) (funct7 : BitVec 7) : Option WordOp :=
  match funct7, funct3 with
  | 0x00, 0 => some .addw
  | 0x00, 1 => some .sllw
  | 0x00, 5 => some .srlw
  | 0x20, 0 => some .subw
  | 0x20, 5 => some .sraw
  | 0x01, 0 => some .mulw
  | 0x01, 4 => some .divw
  | 0x01, 5 => some .divuw
  | 0x01, 6 => some .remw
  | 0x01, 7 => some .remuw
  | _, _ => none

/-- Opcode `LOAD`. -/
def decodeLoad (funct3 : BitVec 3) : Option LoadOp :=
  match funct3 with
  | 0 => some .lb
  | 1 => some .lh
  | 2 => some .lw
  | 3 => some .ld
  | 4 => some .lbu
  | 5 => some .lhu
  | 6 => some .lwu
  | _ => none

/-- Opcode `BRANCH`. -/
def decodeBranch (funct3 : BitVec 3) : Option BranchOp :=
  match funct3 with
  | 0 => some .beq
  | 1 => some .bne
  | 4 => some .blt
  | 5 => some .bge
  | 6 => some .bltu
  | 7 => some .bgeu
  | _ => none

/-- OP-IMM: the shift forms of RV64 carry a six-bit amount, so six bits of function code remain. -/
def decodeOpImm (funct3 : BitVec 3) (funct6 : BitVec 6) (imm : BitVec 12) (shamt : BitVec 6) :
    Option Instr :=
  match funct3 with
  | 0 => some (.opImm .addi imm)
  | 2 => some (.opImm .slti imm)
  | 3 => some (.opImm .sltiu imm)
  | 4 => some (.opImm .xori imm)
  | 6 => some (.opImm .ori imm)
  | 7 => some (.opImm .andi imm)
  | 1 => if funct6 = 0 then some (.shift .sll shamt) else none
  | _ => if funct6 = 0 then some (.shift .srl shamt)
         else if funct6 = 0x10 then some (.shift .sra shamt) else none

/-- Opcode `OP-IMM-32`. -/
def decodeOpImm32 (funct3 : BitVec 3) (funct7 : BitVec 7) (imm : BitVec 12) (shamt : BitVec 5) :
    Option Instr :=
  match funct3 with
  | 0 => some (.addiw imm)
  | 1 => if funct7 = 0 then some (.shiftw .sll shamt) else none
  | 5 => if funct7 = 0 then some (.shiftw .srl shamt)
         else if funct7 = 0x20 then some (.shiftw .sra shamt) else none
  | _ => none

/-- RV64IM decoding of the integer computational, load and branch opcodes. -/
def decode (e : BitVec 32) : Option Instr :=
  let opcode := e.extractLsb' 0 7
  let funct3 := e.extractLsb' 12 3
  let funct7 := e.extractLsb' 25 7
  let imm := e.extractLsb' 20 12
  if opcode = 0x37 then some (.lui (e.extractLsb' 12 20))
  else if opcode = 0x17 then some (.auipc (e.extractLsb' 12 20))
  else if opcode = 0x6f then some .jal
  else if opcode = 0x33 then (decodeOp funct3 funct7).map .op
  else if opcode = 0x3b then (decodeOpw funct3 funct7).map .opw
  else if opcode = 0x13 then decodeOpImm funct3 (e.extractLsb' 26 6) imm (e.extractLsb' 20 6)
  else if opcode = 0x1b then decodeOpImm32 funct3 funct7 imm (e.extractLsb' 20 5)
  else if opcode = 0x03 then (decodeLoad funct3).map (.load · imm)
  else if opcode = 0x63 then (decodeBranch funct3).map .branch
  else none

/-! ## The compressed formats -/

/-- What a compressed encoding stands for. -/
inductive CKind
  | base (i : Instr)
  | noResult
  | other
  deriving DecidableEq, Repr

/-- A compressed instruction: its meaning and the integer registers its encoding reads, in
    architectural order.  An operand the expansion takes from `x0` is `none`. -/
structure CInstr where
  kind : CKind
  rs1 : Option (Fin 32) := none
  rs2 : Option (Fin 32) := none
  deriving DecidableEq, Repr

namespace CInstr

/-- The integer source registers of the encoding, in order. -/
def sources (i : CInstr) : List (Fin 32) := i.rs1.toList ++ i.rs2.toList

end CInstr

/-- A full five-bit register field. -/
def reg (f : BitVec 5) : Fin 32 := f.toFin

/-- A three-bit register field: `x8`..`x15`. -/
def reg' (f : BitVec 3) : Fin 32 := (f.setWidth 5 + 8#5).toFin

/-- Quadrant 0. -/
def expand0 (e : BitVec 16) : Option CInstr :=
  let rs1 := reg' (e.extractLsb' 7 3)
  match e.extractLsb' 13 3 with
  | 0 =>
    if e.extractLsb' 5 8 = 0#8 then none
    else some {
      kind := .base (.opImm .addi ((e.extractLsb' 7 4 ++ e.extractLsb' 11 2 ++ e.extractLsb' 5 1
        ++ e.extractLsb' 6 1 ++ 0#2 : BitVec 10).setWidth 12)), rs1 := some 2 }
  | 2 => some {
      kind := .base (.load .lw ((e.extractLsb' 5 1 ++ e.extractLsb' 10 3 ++ e.extractLsb' 6 1
        ++ 0#2 : BitVec 7).setWidth 12)), rs1 := some rs1 }
  | 3 => some {
      kind := .base (.load .ld ((e.extractLsb' 5 2 ++ e.extractLsb' 10 3 ++ 0#3 :
        BitVec 8).setWidth 12)), rs1 := some rs1 }
  | 4 => none
  | _ => some { kind := .other }

/-- The register-register group of quadrant 1. -/
def expandMisc (e : BitVec 16) : Option AluOp :=
  match e.extractLsb' 5 2 with
  | 0 => some .sub
  | 1 => some .xor
  | 2 => some .or
  | _ => some .and

/-- The word operations of quadrant 1. -/
def expandMiscW (e : BitVec 16) : Option WordOp :=
  match e.extractLsb' 5 2 with
  | 0 => some .subw
  | 1 => some .addw
  | _ => none

/-- Quadrant 1. -/
def expand1 (e : BitVec 16) : Option CInstr :=
  let rd := e.extractLsb' 7 5
  let imm6 := e.extractLsb' 12 1 ++ e.extractLsb' 2 5
  let rs1 := reg' (e.extractLsb' 7 3)
  let rs2 := reg' (e.extractLsb' 2 3)
  match e.extractLsb' 13 3 with
  | 0 => if rd = 0#5 then some { kind := .noResult }
         else some { kind := .base (.opImm .addi (imm6.signExtend 12)), rs1 := some (reg rd) }
  | 1 => if rd = 0#5 then none
         else some { kind := .base (.addiw (imm6.signExtend 12)), rs1 := some (reg rd) }
  | 2 => if rd = 0#5 then some { kind := .noResult }
         else some { kind := .base (.opImm .addi (imm6.signExtend 12)) }
  | 3 =>
    if imm6 = 0#6 then none
    else if rd = 2#5 then some {
      kind := .base (.opImm .addi ((e.extractLsb' 12 1 ++ e.extractLsb' 3 2 ++ e.extractLsb' 5 1
        ++ e.extractLsb' 2 1 ++ e.extractLsb' 6 1 ++ 0#4 : BitVec 10).signExtend 12)),
      rs1 := some 2 }
    else if rd = 0#5 then some { kind := .noResult }
    else some { kind := .base (.lui (imm6.signExtend 20)) }
  | 4 =>
    match e.extractLsb' 10 2 with
    | 0 => some { kind := .base (.shift .srl imm6), rs1 := some rs1 }
    | 1 => some { kind := .base (.shift .sra imm6), rs1 := some rs1 }
    | 2 => some { kind := .base (.opImm .andi (imm6.signExtend 12)), rs1 := some rs1 }
    | _ =>
      if e.extractLsb' 12 1 = 0#1 then
        (expandMisc e).map fun o => { kind := .base (.op o), rs1 := some rs1, rs2 := some rs2 }
      else
        (expandMiscW e).map fun o => { kind := .base (.opw o), rs1 := some rs1, rs2 := some rs2 }
  | 5 => some { kind := .noResult }
  | 6 => some { kind := .base (.branch .beq), rs1 := some rs1 }
  | _ => some { kind := .base (.branch .bne), rs1 := some rs1 }

/-- Quadrant 2. -/
def expand2 (e : BitVec 16) : Option CInstr :=
  let rd := e.extractLsb' 7 5
  let rs2 := e.extractLsb' 2 5
  match e.extractLsb' 13 3 with
  | 0 => if rd = 0#5 then some { kind := .noResult }
         else some { kind := .base (.shift .sll (e.extractLsb' 12 1 ++ e.extractLsb' 2 5)),
                     rs1 := some (reg rd) }
  | 2 => if rd = 0#5 then none
         else some {
           kind := .base (.load .lw ((e.extractLsb' 2 2 ++ e.extractLsb' 12 1 ++ e.extractLsb' 4 3
             ++ 0#2 : BitVec 8).setWidth 12)), rs1 := some 2 }
  | 3 => if rd = 0#5 then none
         else some {
           kind := .base (.load .ld ((e.extractLsb' 2 3 ++ e.extractLsb' 12 1 ++ e.extractLsb' 5 2
             ++ 0#3 : BitVec 9).setWidth 12)), rs1 := some 2 }
  | 4 =>
    if e.extractLsb' 12 1 = 0#1 then
      if rs2 = 0#5 then (if rd = 0#5 then none else some { kind := .other })
      else if rd = 0#5 then some { kind := .noResult }
      else some { kind := .base (.op .add), rs2 := some (reg rs2) }
    else
      if rs2 = 0#5 then some { kind := .other }
      else if rd = 0#5 then some { kind := .noResult }
      else some { kind := .base (.op .add), rs1 := some (reg rd), rs2 := some (reg rs2) }
  | _ => some { kind := .other }

/-- RV64C: the three compressed quadrants. -/
def expand (e : BitVec 16) : Option CInstr :=
  match e.extractLsb' 0 2 with
  | 0 => expand0 e
  | 1 => expand1 e
  | 2 => expand2 e
  | _ => none

end Gem5Dvr.Riscv
