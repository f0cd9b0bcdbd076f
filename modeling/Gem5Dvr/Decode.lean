/-
  The replay decoder (`dvrDecodeRiscvSemantic`, `cpu/o3/pre.cc` 427-822).

  The decoder reads the raw instruction bits, assigns a `Semantic` and an immediate, and for the
  forms whose first operand is fixed by the format (`x0` or the stack pointer) overrides
  `source0`; the other register numbers were recorded from the decoded `StaticInst` before.
  An unrecognised encoding leaves the uop `Unsupported`.

  `decodeCompressed` and `decodeBase` are the two halves of the source function, test for test and
  in the source's order.  A field `(c >> lo) & (2^len - 1)` is `c.extractLsb' lo len`, and
  `field c lo len` where the source goes on computing with it.  What the two halves recover of an
  instruction is proved in `Gem5Dvr.DecodeBase` and `Gem5Dvr.DecodeCompressed`.
-/
import Gem5Dvr.Uop

namespace Gem5Dvr.Decode

def dvrSignExtend (value : BitVec 64) (width : Nat) : BitVec 64 :=
  let sign := 1#64 <<< (width - 1)
  (value ^^^ sign) - sign

/-- `(x >> lo) & (2^len - 1)`, as the 64-bit value an immediate is assembled from. -/
def field {n : Nat} (x : BitVec n) (lo len : Nat) : BitVec 64 := (x.extractLsb' lo len).setWidth 64

/-- The six-bit immediate shared by the CI formats: `bit 12, bits 6..2`. -/
def ciImmediate (c : BitVec 16) : BitVec 64 := (field c 12 1 <<< 5) ||| field c 2 5

/-- The RV64C half of `dvrDecodeRiscvSemantic`; `c` is `compressed`. -/
def decodeCompressed (uop : Uop) (c : BitVec 16) : Uop :=
  let quadrant := c.extractLsb' 0 2
  let funct3 := c.extractLsb' 13 3
  -- C.LI
  if quadrant = 1 ∧ funct3 = 2 ∧ c.extractLsb' 7 5 ≠ 0 then
    { uop with semantic := .AddImmediate, source0 := some 0,
               immediate := dvrSignExtend (ciImmediate c) 6 }
  -- C.ADDI
  else if quadrant = 1 ∧ funct3 = 0 ∧ c.extractLsb' 7 5 ≠ 0 then
    { uop with semantic := .AddImmediate, immediate := dvrSignExtend (ciImmediate c) 6 }
  -- C.ADDIW
  else if quadrant = 1 ∧ funct3 = 1 ∧ c.extractLsb' 7 5 ≠ 0 then
    { uop with semantic := .AddWordImmediate, immediate := dvrSignExtend (ciImmediate c) 6 }
  -- C.ADDI4SPN
  else if quadrant = 0 ∧ funct3 = 0 ∧ c.extractLsb' 2 5 ≠ 0 then
    { uop with semantic := .AddImmediate, source0 := some 2,
               immediate := (field c 11 2 <<< 4) ||| (field c 7 4 <<< 6) |||
                 (field c 6 1 <<< 2) ||| (field c 5 1 <<< 3) }
  -- C.ADDI16SP
  else if quadrant = 1 ∧ funct3 = 3 ∧ c.extractLsb' 7 5 = 2 then
    { uop with semantic := .AddImmediate, source0 := some 2,
               immediate := dvrSignExtend ((field c 12 1 <<< 9) ||| (field c 6 1 <<< 4) |||
                 (field c 5 1 <<< 6) ||| (field c 3 2 <<< 7) ||| (field c 2 1 <<< 5)) 10 }
  -- C.LUI
  else if quadrant = 1 ∧ funct3 = 3 ∧ c.extractLsb' 7 5 ≠ 0 ∧ c.extractLsb' 7 5 ≠ 2 then
    { uop with semantic := .AddImmediate, source0 := some 0,
               immediate := dvrSignExtend (ciImmediate c) 6 <<< 12 }
  -- C.LD
  else if quadrant = 0 ∧ funct3 = 3 then
    { uop with semantic := .LoadDouble, loadBytes := 8,
               immediate := (field c 10 3 <<< 3) ||| (field c 5 2 <<< 6) }
  -- C.LW
  else if quadrant = 0 ∧ funct3 = 2 then
    { uop with semantic := .LoadWordSigned, loadBytes := 4,
               immediate := (field c 10 3 <<< 3) ||| (field c 6 1 <<< 2) }
  -- C.LWSP and C.LDSP share one immediate expression
  else if quadrant = 2 ∧ (funct3 = 2 ∨ funct3 = 3) ∧ c.extractLsb' 7 5 ≠ 0 then
    { uop with semantic := if funct3 = 2 then .LoadWordSigned else .LoadDouble,
               loadBytes := if funct3 = 2 then 4 else 8, source0 := some 2,
               immediate := (field c 12 1 <<< 5) ||| (field c 4 3 <<< 2) ||| (field c 2 2 <<< 6) }
  else if quadrant = 1 ∧ funct3 = 4 then
    let wide_register_op := c.extractLsb' 12 1 ≠ 0
    let op_select := c.extractLsb' 10 2
    if op_select = 0 then
      { uop with semantic := .ShiftRightLogicalImmediate, immediate := ciImmediate c }
    else if op_select = 1 then
      { uop with semantic := .ShiftRightArithmeticImmediate, immediate := ciImmediate c }
    else if op_select = 2 then
      { uop with semantic := .AndImmediate, immediate := dvrSignExtend (ciImmediate c) 6 }
    else if ¬ wide_register_op then
      if c.extractLsb' 5 2 = 0 then { uop with semantic := .Sub }
      else if c.extractLsb' 5 2 = 1 then { uop with semantic := .Xor }
      else if c.extractLsb' 5 2 = 2 then { uop with semantic := .Or }
      else { uop with semantic := .And }
    else if c.extractLsb' 5 2 = 0 then { uop with semantic := .SubWord }
    else if c.extractLsb' 5 2 = 1 then { uop with semantic := .AddWord }
    else uop
  -- C.SLLI
  else if quadrant = 2 ∧ funct3 = 0 ∧ c.extractLsb' 7 5 ≠ 0 then
    { uop with semantic := .ShiftLeftImmediate, immediate := ciImmediate c }
  -- C.JR: an indirect return, its target is not guessed
  else if quadrant = 2 ∧ funct3 = 4 ∧ c.extractLsb' 12 1 = 0 ∧ c.extractLsb' 7 5 ≠ 0 ∧
      c.extractLsb' 2 5 = 0 then uop
  -- C.MV
  else if quadrant = 2 ∧ funct3 = 4 ∧ c.extractLsb' 12 1 = 0 ∧ c.extractLsb' 7 5 ≠ 0 ∧
      c.extractLsb' 2 5 ≠ 0 then { uop with semantic := .Move }
  -- C.ADD
  else if quadrant = 2 ∧ funct3 = 4 ∧ c.extractLsb' 12 1 ≠ 0 ∧ c.extractLsb' 7 5 ≠ 0 ∧
      c.extractLsb' 2 5 ≠ 0 then { uop with semantic := .Add }
  -- C.BEQZ, C.BNEZ
  else if quadrant = 1 ∧ (funct3 = 6 ∨ funct3 = 7) then
    { uop with semantic := if funct3 = 6 then .BranchEqual else .BranchNotEqual }
  -- C.J
  else if quadrant = 1 ∧ funct3 = 5 then
    { uop with semantic := .AddImmediate, source0 := some 0, immediate := 0 }
  else uop

/-- Opcode OP (0x33): the semantic the source's chain assigns, `none` where it assigns none. -/
def opSemantic (funct3 : BitVec 3) (funct7 : BitVec 7) : Option Semantic :=
  if funct3 = 0 ∧ funct7 = 0 then some .Add
  else if funct3 = 0 ∧ funct7 = 0x20 then some .Sub
  else if funct3 = 7 ∧ funct7 = 0 then some .And
  else if funct3 = 6 ∧ funct7 = 0 then some .Or
  else if funct3 = 4 ∧ funct7 = 0 then some .Xor
  else if funct3 = 1 ∧ funct7 = 0 then some .ShiftLeft
  else if funct3 = 5 ∧ funct7 = 0 then some .ShiftRightLogical
  else if funct3 = 5 ∧ funct7 = 0x20 then some .ShiftRightArithmetic
  else if funct3 = 0 ∧ funct7 = 1 then some .Multiply
  else if funct3 = 6 ∧ funct7 = 1 then some .Remainder
  else if funct3 = 7 ∧ funct7 = 1 then some .RemainderUnsigned
  else none

/-- Opcode OP-32 (0x3b). -/
def op32Semantic (funct3 : BitVec 3) (funct7 : BitVec 7) : Option Semantic :=
  if funct3 = 0 ∧ funct7 = 0 then some .AddWord
  else if funct3 = 0 ∧ funct7 = 0x20 then some .SubWord
  else if funct3 = 0 ∧ funct7 = 1 then some .MultiplyWord
  else if funct3 = 6 ∧ funct7 = 1 then some .RemainderWord
  else if funct3 = 7 ∧ funct7 = 1 then some .RemainderUnsignedWord
  else none

/-- Opcode OP-IMM (0x13): semantic and immediate. -/
def opImmSemantic (e : BitVec 32) : Option (Semantic × BitVec 64) :=
  let funct3 := e.extractLsb' 12 3
  if funct3 = 0 then some (.AddImmediate, dvrSignExtend (field e 20 12) 12)
  else if funct3 = 1 ∧ e.extractLsb' 26 6 = 0 then some (.ShiftLeftImmediate, field e 20 6)
  else if funct3 = 7 then some (.AndImmediate, dvrSignExtend (field e 20 12) 12)
  else if funct3 = 6 then some (.OrImmediate, dvrSignExtend (field e 20 12) 12)
  else if funct3 = 4 then some (.XorImmediate, dvrSignExtend (field e 20 12) 12)
  else if funct3 = 5 ∧ e.extractLsb' 26 6 = 0 then
    some (.ShiftRightLogicalImmediate, field e 20 6)
  else if funct3 = 5 ∧ e.extractLsb' 26 6 = 0x10 then
    some (.ShiftRightArithmeticImmediate, field e 20 6)
  else none

/-- Opcode OP-IMM-32 (0x1b). -/
def opImm32Semantic (e : BitVec 32) : Option (Semantic × BitVec 64) :=
  let funct3 := e.extractLsb' 12 3
  if funct3 = 0 then some (.AddWordImmediate, dvrSignExtend (field e 20 12) 12)
  else if funct3 = 1 ∧ e.extractLsb' 25 7 = 0 then some (.ShiftLeftWordImmediate, field e 20 5)
  else if funct3 = 5 ∧ e.extractLsb' 25 7 = 0 then
    some (.ShiftRightLogicalWordImmediate, field e 20 5)
  else if funct3 = 5 ∧ e.extractLsb' 25 7 = 0x20 then
    some (.ShiftRightArithmeticWordImmediate, field e 20 5)
  else none

/-- Opcode LOAD (0x03): semantic and access width; the `default` case returns before the
    immediate is set. -/
def loadSemantic (funct3 : BitVec 3) : Option (Semantic × Nat) :=
  if funct3 = 0 then some (.LoadByteSigned, 1)
  else if funct3 = 1 then some (.LoadHalfSigned, 2)
  else if funct3 = 2 then some (.LoadWordSigned, 4)
  else if funct3 = 3 then some (.LoadDouble, 8)
  else if funct3 = 4 then some (.LoadByteUnsigned, 1)
  else if funct3 = 5 then some (.LoadHalfUnsigned, 2)
  else none

/-- Opcode BRANCH (0x63). -/
def branchSemantic (funct3 : BitVec 3) : Option Semantic :=
  if funct3 = 0 then some .BranchEqual
  else if funct3 = 1 then some .BranchNotEqual
  else if funct3 = 4 then some .BranchSignedLess
  else if funct3 = 5 then some .BranchSignedGreaterEqual
  else if funct3 = 6 then some .BranchUnsignedLess
  else if funct3 = 7 then some .BranchUnsignedGreaterEqual
  else none

/-- The 32-bit half of `dvrDecodeRiscvSemantic`; `e` is `uop.encoding`. -/
def decodeBase (uop : Uop) (e : BitVec 32) : Uop :=
  let opcode := e.extractLsb' 0 7
  let funct3 := e.extractLsb' 12 3
  let funct7 := e.extractLsb' 25 7
  if opcode = 0x37 then
    { uop with semantic := .AddImmediate, source0 := some 0,
               immediate := dvrSignExtend ((e &&& 0xfffff000#32).setWidth 64) 32 }
  else if opcode = 0x17 then
    { uop with semantic := .AddImmediate, source0 := some 0,
               immediate := uop.pc + dvrSignExtend ((e &&& 0xfffff000#32).setWidth 64) 32 }
  -- JAL: the redirect is handled by lane execution, the uop is its link value
  else if opcode = 0x6f then
    { uop with semantic := .AddImmediate, source0 := some 0, immediate := uop.pc + 4 }
  else if opcode = 0x33 then
    { uop with semantic := (opSemantic funct3 funct7).getD uop.semantic }
  else if opcode = 0x3b then
    { uop with semantic := (op32Semantic funct3 funct7).getD uop.semantic }
  else if opcode = 0x13 then
    match opImmSemantic e with
    | some (semantic, immediate) => { uop with semantic, immediate }
    | none => uop
  else if opcode = 0x1b then
    match opImm32Semantic e with
    | some (semantic, immediate) => { uop with semantic, immediate }
    | none => uop
  else if opcode = 0x03 then
    match loadSemantic funct3 with
    | some (semantic, loadBytes) =>
        { uop with semantic, loadBytes, immediate := dvrSignExtend (field e 20 12) 12 }
    | none => { uop with semantic := .Unsupported }
  else if opcode = 0x63 then
    { uop with semantic := (branchSemantic funct3).getD uop.semantic }
  else uop

/-- `dvrDecodeRiscvSemantic`.  `encoded` and `encodedSize` are what `StaticInst::asBytes` wrote
    and returned; only the low 32 bits are the architectural instruction. -/
def dvrDecodeRiscvSemantic (uop : Uop) (encoded : BitVec 64) (encodedSize : Nat) : Uop :=
  if encodedSize = 0 ∨ 8 < encodedSize then uop
  else
    let uop := { uop with encoding := encoded.setWidth 32, encodingValid := true }
    if uop.encoding &&& 0x3#32 ≠ 0x3#32 then
      decodeCompressed uop (uop.encoding.setWidth 16)
    else decodeBase uop uop.encoding

end Gem5Dvr.Decode
