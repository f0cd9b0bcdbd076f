/-
  The integer helpers of `base/intmath.hh`: 64 by 64 bit products.

    1. `mulUnsigned` and `mulSigned` with the native 128-bit type and without it.  The manual
       versions assemble the high word from four 32-bit products.
    2. The carries.  The middle column `c1 + Ab + aB` can pass 64 bits, so the code halves each
       term first and adds the carry of the three low bits (`half_sum`).
    3. The manual versions give the exact product, so they agree with the native ones.
-/
import Mathlib.Data.Nat.Bitwise
import Mathlib.Tactic.Ring
import Mathlib.Tactic.Linarith

namespace Gem5Dvr.IntMath

open BitVec (toNat_add toNat_mul toNat_ofNat toNat_setWidth toNat_sub toNat_ushiftRight)

/-! ## Products -/

/-- The two words a product is returned in. -/
structure Wide where
  high : BitVec 64
  low : BitVec 64
deriving DecidableEq

/-- The 128-bit concatenation. -/
def Wide.concat (w : Wide) : BitVec 128 := w.high ++ w.low

/-- `(uint32_t)val`, held in a `uint64_t`. -/
def word32 (val : BitVec 64) : BitVec 64 := (val.setWidth 32).setWidth 64

def mulUnsignedManual (val_a val_b : BitVec 64) : Wide :=
  let A := word32 (val_a >>> 32)
  let a := word32 val_a
  let B := word32 (val_b >>> 32)
  let b := word32 val_b
  let ab := a * b
  let Ab := A * b
  let aB := a * B
  let AB := A * B
  let c1 := word32 (ab >>> 32)
  let c2 := (c1 >>> 1) + (Ab >>> 1) + (aB >>> 1)
  let c2 := c2 + (((c1 &&& 1#64) + (Ab &&& 1#64) + (aB &&& 1#64)) >>> 1)
  let c2 := c2 >>> 31
  { high := AB + c2, low := val_a * val_b }

/-- `mulUnsigned`; `int128` says whether `__SIZEOF_INT128__` is defined. -/
def mulUnsigned (int128 : Bool) (val_a val_b : BitVec 64) : Wide :=
  if int128 then
    let val := val_a.setWidth 128 * val_b.setWidth 128
    { high := (val >>> 64).setWidth 64, low := val.setWidth 64 }
  else mulUnsignedManual val_a val_b

def mulSignedManual (int128 : Bool) (val_a val_b : BitVec 64) : Wide :=
  let u := mulUnsigned int128 val_a val_b
  let u_high := if val_a.slt 0#64 then u.high - val_b else u.high
  let u_high := if val_b.slt 0#64 then u_high - val_a else u_high
  { high := u_high, low := u.low }

/-- `mulSigned`; the native shift keeps the sign. -/
def mulSigned (int128 : Bool) (val_a val_b : BitVec 64) : Wide :=
  if int128 then
    let val := val_a.signExtend 128 * val_b.signExtend 128
    { high := (val.sshiftRight 64).setWidth 64, low := val.setWidth 64 }
  else mulSignedManual int128 val_a val_b

/-! ## The carries -/

@[simp] theorem toNat_word32 (val : BitVec 64) : (word32 val).toNat = val.toNat % 2 ^ 32 := by
  simp only [word32, toNat_setWidth]
  omega

theorem toNat_concat (w : Wide) : w.concat.toNat = w.high.toNat * 2 ^ 64 + w.low.toNat := by
  have hlow := w.low.isLt
  rw [Wide.concat, BitVec.toNat_append, ← Nat.shiftLeft_add_eq_or_of_lt hlow, Nat.shiftLeft_eq]

/-- Halving the three terms first loses nothing. -/
theorem half_sum (x y z : Nat) : (x / 2 + y / 2 + z / 2 + (x % 2 + y % 2 + z % 2) / 2) / 2 ^ 31 =
    (x + y + z) / 2 ^ 32 := by
  omega

/-- A product of two halves leaves room for two more. -/
theorem half_mul {x y : Nat} (hx : x < 2 ^ 32) (hy : y < 2 ^ 32) : x * y ≤ (2 ^ 32 - 1) ^ 2 := by
  rw [sq]
  exact Nat.mul_le_mul (by omega) (by omega)

/-- The high word of a product, from the halves of its factors. -/
theorem high_of_halves (A a B b : Nat) : (A * 2 ^ 32 + a) * (B * 2 ^ 32 + b) / 2 ^ 64 =
    A * B + (a * b / 2 ^ 32 + A * b + a * B) / 2 ^ 32 := by
  have hprod : (A * 2 ^ 32 + a) * (B * 2 ^ 32 + b) =
      A * B * 2 ^ 64 + ((A * b + a * B) * 2 ^ 32 + a * b) := by ring
  generalize A * B = AB at *
  generalize hmid : A * b + a * B = mid at *
  generalize a * b = ab at *
  omega

/-- No sum of the manual version wraps: the high word is that of the exact product. -/
theorem toNat_high (val_a val_b : BitVec 64) : (mulUnsignedManual val_a val_b).high.toNat =
    val_a.toNat * val_b.toNat / 2 ^ 64 := by
  have hhigh : ∀ v : BitVec 64, v.toNat >>> 32 < 2 ^ 32 := fun v => by
    have h := v.isLt
    rw [Nat.shiftRight_eq_div_pow]
    omega
  have hsplit : ∀ v : BitVec 64, v.toNat = (v.toNat >>> 32) * 2 ^ 32 + v.toNat % 2 ^ 32 := by
    intro v
    rw [Nat.shiftRight_eq_div_pow]
    omega
  have hA := hhigh val_a
  have hB := hhigh val_b
  have ha : val_a.toNat % 2 ^ 32 < 2 ^ 32 := Nat.mod_lt _ (by decide)
  have hb : val_b.toNat % 2 ^ 32 < 2 ^ 32 := Nat.mod_lt _ (by decide)
  rw [hsplit val_a, hsplit val_b, high_of_halves, ← half_sum]
  simp only [mulUnsignedManual, toNat_add, toNat_ushiftRight, BitVec.toNat_and, toNat_word32,
    toNat_mul, toNat_ofNat]
  generalize val_a.toNat >>> 32 = A at *
  generalize val_b.toNat >>> 32 = B at *
  generalize val_a.toNat % 2 ^ 32 = a at *
  generalize val_b.toNat % 2 ^ 32 = b at *
  rw [Nat.mod_eq_of_lt hA, Nat.mod_eq_of_lt hB]
  have hone : ∀ n : Nat, n &&& 1 % 2 ^ 64 = n % 2 := Nat.and_one_is_mod
  have hab := half_mul ha hb
  have hAb := half_mul hA hb
  have haB := half_mul ha hB
  have hAB := half_mul hA hB
  generalize a * b = ab at *
  generalize A * b = Ab at *
  generalize a * B = aB at *
  generalize A * B = AB at *
  simp only [Nat.shiftRight_eq_div_pow, hone]
  omega

/-! ## The products are exact -/

theorem concat_unsigned (int128 : Bool) (val_a val_b : BitVec 64) :
    (mulUnsigned int128 val_a val_b).concat.toNat = val_a.toNat * val_b.toNat := by
  have ha := val_a.isLt
  have hb := val_b.isLt
  have hprod : val_a.toNat * val_b.toNat < 2 ^ 128 := by
    calc val_a.toNat * val_b.toNat < 2 ^ 64 * 2 ^ 64 := Nat.mul_lt_mul'' ha hb
      _ = 2 ^ 128 := by norm_num
  rw [toNat_concat]
  cases int128 with
  | true =>
    simp only [mulUnsigned, if_true, toNat_setWidth, toNat_ushiftRight, toNat_mul,
      Nat.shiftRight_eq_div_pow]
    rw [Nat.mod_eq_of_lt (by omega : val_a.toNat < 2 ^ 128),
      Nat.mod_eq_of_lt (by omega : val_b.toNat < 2 ^ 128)]
    omega
  | false =>
    have hlow : (mulUnsignedManual val_a val_b).low = val_a * val_b := rfl
    simp only [mulUnsigned, Bool.false_eq_true, if_false, toNat_high, hlow, toNat_mul]
    omega

/-- Two results with one concatenation are the same words. -/
theorem Wide.eq_of_concat {w w' : Wide} (h : w.concat = w'.concat) : w = w' := by
  obtain ⟨high, low⟩ := w
  obtain ⟨high', low'⟩ := w'
  have hsum := congrArg BitVec.toNat h
  rw [toNat_concat, toNat_concat] at hsum
  have hlow := low.isLt
  have hlow' := low'.isLt
  have hh : high = high' := BitVec.eq_of_toNat_eq (by dsimp only at hsum; omega)
  have hl : low = low' := BitVec.eq_of_toNat_eq (by dsimp only at hsum; omega)
  rw [hh, hl]

/-- The two's complement value, from the unsigned one. -/
theorem toInt_of_slt (val : BitVec 64) :
    val.toInt = val.toNat - (if val.slt 0#64 then 2 ^ 64 else 0) := by
  have h := val.isLt
  have hneg : val.slt 0#64 = decide (val.toInt < 0) := rfl
  rw [hneg, BitVec.toInt_eq_toNat_cond]
  split
  · rw [decide_eq_false (by omega)]
    simp
  · rw [decide_eq_true (by omega)]
    simp

/-- The product of two signed words fits 128 bits. -/
theorem signed_fits (val_a val_b : BitVec 64) :
    (val_a.toInt * val_b.toInt).bmod (2 ^ 128) = val_a.toInt * val_b.toInt := by
  have hword : ∀ v : BitVec 64, v.toInt.natAbs ≤ 2 ^ 63 := fun v => by
    have h := v.toInt_lt
    have h' := v.le_toInt
    omega
  have hab : (val_a.toInt * val_b.toInt).natAbs ≤ 2 ^ 63 * 2 ^ 63 := by
    rw [Int.natAbs_mul]
    exact Nat.mul_le_mul (hword val_a) (hword val_b)
  exact Int.bmod_eq_of_le (by omega) (by omega)

/-- The native product, cut in two words and put together. -/
theorem concat_native (val : BitVec 128) :
    Wide.concat { high := (val.sshiftRight 64).setWidth 64, low := val.setWidth 64 } = val := by
  refine BitVec.eq_of_getLsbD_eq fun i hi => ?_
  rw [Wide.concat, BitVec.getLsbD_append]
  split
  · rename_i hlow
    simp [hlow]
  · rename_i hhigh
    have hsub : i - 64 < 64 := by omega
    have hback : 64 + (i - 64) = i := by omega
    rw [BitVec.getLsbD_setWidth, BitVec.getLsbD_sshiftRight, hback]
    simp [hsub, hi, show i - 64 < 128 by omega]

/-- The correction of the high word: one subtraction for each negative operand. -/
theorem concat_corrected (int128 : Bool) (val_a val_b : BitVec 64) :
    (2 ^ 128 : Int) ∣ (mulSignedManual int128 val_a val_b).concat.toNat -
      val_a.toInt * val_b.toInt := by
  have hu := concat_unsigned int128 val_a val_b
  rw [toNat_concat] at hu ⊢
  simp only [mulSignedManual]
  generalize mulUnsigned int128 val_a val_b = u at *
  have ha := val_a.isLt
  have hb := val_b.isLt
  have hhigh := u.high.isLt
  have huz : (val_a.toNat : Int) * val_b.toNat = u.high.toNat * 2 ^ 64 + u.low.toNat := by
    exact_mod_cast hu.symm
  have expand : ∀ x y p q : Int, (x - p) * (y - q) = x * y - p * y - q * x + p * q := by
    intro x y p q
    ring
  rw [toInt_of_slt val_a, toInt_of_slt val_b, expand, huz]
  by_cases hna : val_a.slt 0#64 = true <;> by_cases hnb : val_b.slt 0#64 = true <;>
    simp only [hna, hnb, if_true, if_false, Bool.false_eq_true, toNat_sub] <;> omega

theorem concat_signed (int128 : Bool) (val_a val_b : BitVec 64) :
    (mulSignedManual int128 val_a val_b).concat.toInt = val_a.toInt * val_b.toInt := by
  have hdvd := concat_corrected int128 val_a val_b
  rw [BitVec.toInt_eq_toNat_bmod, ← signed_fits]
  obtain ⟨k, hk⟩ := hdvd
  have hsum : ((mulSignedManual int128 val_a val_b).concat.toNat : Int) =
      val_a.toInt * val_b.toInt + (2 ^ 128 : Nat) * k := by
    push_cast
    omega
  rw [hsum, Int.add_mul_bmod_self_left]

/-- **Both manual products are the exact ones**, and the native ones word by word, whichever
    `mulUnsigned` the signed one is built on. -/
theorem wide_product_exact (int128 : Bool) (val_a val_b : BitVec 64) :
    ((mulUnsignedManual val_a val_b).concat.toNat = val_a.toNat * val_b.toNat ∧
      mulUnsignedManual val_a val_b = mulUnsigned true val_a val_b) ∧
    (mulSignedManual int128 val_a val_b).concat.toInt = val_a.toInt * val_b.toInt ∧
      mulSignedManual int128 val_a val_b = mulSigned true val_a val_b := by
  have hmanual : (mulUnsignedManual val_a val_b).concat.toNat = _ :=
    concat_unsigned false val_a val_b
  have hsigned := concat_signed int128 val_a val_b
  refine ⟨⟨hmanual, Wide.eq_of_concat (BitVec.eq_of_toNat_eq ?_)⟩, hsigned,
    Wide.eq_of_concat (BitVec.eq_of_toInt_eq ?_)⟩
  · exact hmanual.trans (concat_unsigned true val_a val_b).symm
  · have hnative : (mulSigned true val_a val_b).concat =
        val_a.signExtend 128 * val_b.signExtend 128 := concat_native _
    rw [hsigned, hnative, BitVec.toInt_mul, BitVec.toInt_signExtend_of_le (by decide),
      BitVec.toInt_signExtend_of_le (by decide), signed_fits]

end Gem5Dvr.IntMath
