/-
  The replay micro-operation of the DVR instruction recorder (`cpu/o3/pre.hh`, `pre.cc`).

  `DVRInstructionRecorder::Uop` is the unit every DVR executor works on: the recorder captures
  it at commit, `dvrDecodeRiscvSemantic` assigns it a `Semantic` and an immediate, and the lane
  executors call `evaluate`/`evaluateBranch` on it.  This file has the record and the two
  evaluators; the decoder is `Gem5Dvr.Decode`, the executors are `Gem5Dvr.Continuation` and
  `Gem5Dvr.ReplayLanes`.

  Reading of the C++ types:
    * `RegVal`, `Addr`, `int64_t`   — `BitVec 64` (two's complement where the code casts);
    * `uint32_t`/`int32_t` casts    — `setWidth 32`, and `signExtend 64` back;
    * `int8_t` register numbers     — `Option (Fin 32)`; `-1` is `none`.  `dvrFirstIntRegister`
                                      only ever returns `-1` or an index below 32;
    * `bool f(..., T &result)`      — `Option T`, `none` for `return false`.

  `staticInst` is opaque metadata and `intSources` is only ever printed; neither is kept.
-/
import Mathlib.Data.BitVec

namespace Gem5Dvr

/-- `RegVal` of the simulator: a 64-bit register value. -/
abbrev RegVal := BitVec 64

/-- `Addr` of the simulator: a 64-bit address or PC. -/
abbrev Addr := BitVec 64

/-- `DVRInstructionRecorder::MaxUops`. -/
def MaxUops : Nat := 256

instance neZero32 : NeZero 32 := ⟨by decide⟩
instance neZero128 : NeZero 128 := ⟨by decide⟩

inductive Semantic
  | Unsupported | Move | Add | Sub | And | Or | Xor
  | ShiftLeft | ShiftRightLogical | ShiftRightArithmetic
  | Multiply | MultiplyWord
  | Remainder | RemainderUnsigned | RemainderWord | RemainderUnsignedWord
  | AddWord | SubWord | AddImmediate | AddWordImmediate
  | ShiftLeftImmediate | ShiftLeftWordImmediate
  | AndImmediate | OrImmediate | XorImmediate
  | ShiftRightLogicalImmediate | ShiftRightArithmeticImmediate
  | ShiftRightLogicalWordImmediate | ShiftRightArithmeticWordImmediate
  | LoadAddress
  | LoadByteSigned | LoadByteUnsigned | LoadHalfSigned | LoadHalfUnsigned
  | LoadWordSigned | LoadWordUnsigned | LoadDouble
  | BranchEqual | BranchNotEqual
  | BranchSignedLess | BranchSignedGreaterEqual
  | BranchUnsignedLess | BranchUnsignedGreaterEqual
  deriving DecidableEq, Repr

/-- `DVRInstructionRecorder::Uop`, with the source's default field values. -/
structure Uop where
  pc : Addr := 0
  branchTargetPC : Addr := 0
  fallthroughPC : Addr := 0
  reconvergencePC : Addr := 0
  intDestinations : BitVec 32 := 0
  encoding : BitVec 32 := 0
  immediate : BitVec 64 := 0
  source0 : Option (Fin 32) := none
  source1 : Option (Fin 32) := none
  destination : Option (Fin 32) := none
  semantic : Semantic := .Unsupported
  loadBytes : Nat := 0
  encodingValid : Bool := false
  load : Bool := false
  control : Bool := false
  conditional : Bool := false
  branchTaken : Bool := false
  tainted : Bool := false
  alternatePath : Bool := false
  alternateResumePC : Addr := 0
  deriving DecidableEq, Repr

instance : Inhabited Uop := ⟨{}⟩

/-- `static_cast<int64_t>(static_cast<int32_t>(x))` of a 32-bit word. -/
def wordResult (x : BitVec 32) : RegVal := x.signExtend 64

/-- C++ `%` on two signed operands whose quotient is representable: truncation towards zero. -/
def signedMod {w : Nat} (lhs rhs : BitVec w) : BitVec w := BitVec.ofInt w (lhs.toInt.tmod rhs.toInt)

namespace Uop

/-- `Uop::evaluate`: the value (or effective address) of the decoded operation.  `none` is the
    source's `return false`, for branches and for unsupported encodings. -/
def evaluate (u : Uop) (source0_value source1_value : RegVal) : Option RegVal :=
  match u.semantic with
  | .Move => some source0_value
  | .Add => some (source0_value + source1_value)
  | .Sub => some (source0_value - source1_value)
  | .And => some (source0_value &&& source1_value)
  | .Or => some (source0_value ||| source1_value)
  | .Xor => some (source0_value ^^^ source1_value)
  | .ShiftLeft => some (source0_value <<< (source1_value &&& 0x3f#64).toNat)
  | .ShiftRightLogical => some (source0_value >>> (source1_value &&& 0x3f#64).toNat)
  | .ShiftRightArithmetic => some (source0_value.sshiftRight (source1_value &&& 0x3f#64).toNat)
  | .Multiply => some (source0_value * source1_value)
  | .MultiplyWord =>
      some (wordResult (source0_value.setWidth 32 * source1_value.setWidth 32))
  | .Remainder =>
      if source1_value = 0#64 then some source0_value
      else if source0_value = BitVec.intMin 64 ∧ source1_value = -1#64 then some 0#64
      else some (signedMod source0_value source1_value)
  | .RemainderUnsigned =>
      some (if source1_value = 0#64 then source0_value else source0_value % source1_value)
  | .RemainderWord =>
      let lhs := source0_value.setWidth 32
      let rhs := source1_value.setWidth 32
      let rem := if rhs = 0#32 then lhs
        else if lhs = BitVec.intMin 32 ∧ rhs = -1#32 then 0#32 else signedMod lhs rhs
      some (wordResult rem)
  | .RemainderUnsignedWord =>
      let lhs := source0_value.setWidth 32
      let rhs := source1_value.setWidth 32
      let rem := if rhs = 0#32 then lhs else lhs % rhs
      some (wordResult rem)
  | .AddWord => some (wordResult (source0_value.setWidth 32 + source1_value.setWidth 32))
  | .SubWord => some (wordResult (source0_value.setWidth 32 - source1_value.setWidth 32))
  | .AddImmediate | .LoadAddress | .LoadByteSigned | .LoadByteUnsigned | .LoadHalfSigned
  | .LoadHalfUnsigned | .LoadWordSigned | .LoadWordUnsigned | .LoadDouble =>
      some (source0_value + u.immediate)
  | .AddWordImmediate =>
      some (wordResult (source0_value.setWidth 32 + u.immediate.setWidth 32))
  | .ShiftLeftImmediate =>
      some (source0_value <<< (u.immediate.setWidth 32 &&& 0x3f#32).toNat)
  | .ShiftLeftWordImmediate =>
      some (wordResult (source0_value.setWidth 32 <<< (u.immediate.setWidth 32 &&& 0x1f#32).toNat))
  | .AndImmediate => some (source0_value &&& u.immediate)
  | .OrImmediate => some (source0_value ||| u.immediate)
  | .XorImmediate => some (source0_value ^^^ u.immediate)
  | .ShiftRightLogicalImmediate =>
      some (source0_value >>> (u.immediate.setWidth 32 &&& 0x3f#32).toNat)
  | .ShiftRightArithmeticImmediate =>
      some (source0_value.sshiftRight (u.immediate.setWidth 32 &&& 0x3f#32).toNat)
  | .ShiftRightLogicalWordImmediate =>
      some (wordResult (source0_value.setWidth 32 >>> (u.immediate.setWidth 32 &&& 0x1f#32).toNat))
  | .ShiftRightArithmeticWordImmediate =>
      some (wordResult
        ((source0_value.setWidth 32).sshiftRight (u.immediate.setWidth 32 &&& 0x1f#32).toNat))
  | .BranchEqual | .BranchNotEqual | .BranchSignedLess | .BranchSignedGreaterEqual
  | .BranchUnsignedLess | .BranchUnsignedGreaterEqual | .Unsupported => none

/-- `Uop::evaluateBranch`: the outcome of a conditional branch. -/
def evaluateBranch (u : Uop) (source0_value source1_value : RegVal) : Option Bool :=
  match u.semantic with
  | .BranchEqual => some (source0_value == source1_value)
  | .BranchNotEqual => some (source0_value != source1_value)
  | .BranchSignedLess => some (source0_value.slt source1_value)
  | .BranchSignedGreaterEqual => some (source1_value.sle source0_value)
  | .BranchUnsignedLess => some (source0_value.ult source1_value)
  | .BranchUnsignedGreaterEqual => some (source1_value.ule source0_value)
  | _ => none

/-- `op.sourceN >= 0 ? regs[op.sourceN] : 0` — how every executor reads an operand. -/
def operand (regs : Fin 32 → RegVal) : Option (Fin 32) → RegVal
  | some r => regs r
  | none => 0

/-- The condition under which the executors skip a uop without evaluating it: no decoded
    semantic, no control transfer, no integer destination (an architectural NOP or a store). -/
def stateless (u : Uop) : Bool := u.semantic == .Unsupported && !u.control && u.intDestinations == 0

end Uop

end Gem5Dvr
