/-
  Folded bit sequences.

  A sequence of bits is folded to `c` bits when bit `k` is added (`xor`) to bit `k % c`: `folded`
  does this one bit at a time, and `folded_eq_slices` says that it is the sum of the slices of `c`
  bits of the number that the sequence spells.

  The crux is `testBit_folded_shift`: one bit put in front of the sequence rotates the fold.  So a
  register that rotates, adds the new bit at the low end and adds the bit that falls out of the
  window where it stands (`register`) holds the fold of a sliding window (`register_folded`).
-/
import Mathlib.Data.Nat.Bitwise
import Mathlib.Tactic.SplitIfs

namespace Folding

variable {c : Nat}

/-- The fold of the first bits. -/
def folded (c : Nat) (h : Nat → Bool) : Nat → Nat
  | 0 => 0
  | len + 1 => folded c h len ^^^ ((h len).toNat <<< (len % c))

theorem testBit_toNat_shift (b : Bool) (i j : Nat) :
    (b.toNat <<< i).testBit j = (b && decide (i = j)) := by
  cases b with
  | false => simp
  | true =>
    rw [Bool.toNat_true, Nat.one_shiftLeft, Nat.testBit_two_pow, Bool.true_and]

theorem testBit_folded_succ (c : Nat) (h : Nat → Bool) (len j : Nat) :
    (folded c h (len + 1)).testBit j =
      ((folded c h len).testBit j ^^ (h len && decide (len % c = j))) := by
  rw [folded, Nat.testBit_xor, testBit_toNat_shift]

theorem folded_lt (hc : 0 < c) (h : Nat → Bool) (len : Nat) : folded c h len < 2 ^ c := by
  induction len with
  | zero => exact Nat.two_pow_pos c
  | succ len ih =>
    refine Nat.xor_lt_two_pow ih ?_
    have hlt : len % c < c := Nat.mod_lt len hc
    cases h len with
    | false =>
      rw [Bool.toNat_false, Nat.zero_shiftLeft]
      exact Nat.two_pow_pos c
    | true =>
      rw [Bool.toNat_true, Nat.one_shiftLeft]
      exact Nat.pow_lt_pow_right (by decide) hlt

theorem folded_congr {h h' : Nat → Bool} {len : Nat} (heq : ∀ k < len, h k = h' k) :
    folded c h len = folded c h' len := by
  induction len with
  | zero => rfl
  | succ len ih =>
    rw [folded, folded, ih fun k hk => heq k (Nat.lt_succ_of_lt hk), heq len (Nat.lt_succ_self len)]

/-! ## A sliding window -/

/-- The place before `j`, around `c`. -/
def before (c j : Nat) : Nat := if j = 0 then c - 1 else j - 1

theorem succ_mod_eq_iff (hc : 0 < c) {j : Nat} (hj : j < c) (k : Nat) :
    (k + 1) % c = j ↔ k % c = before c j := by
  have hlt := Nat.mod_lt k hc
  have hstep : (k + 1) % c = if k % c + 1 = c then 0 else k % c + 1 := by
    rw [← Nat.mod_add_mod]
    split
    · rename_i hwrap
      rw [hwrap, Nat.mod_self]
    · exact Nat.mod_eq_of_lt (by omega)
  rw [hstep, before]
  split <;> split <;> omega

/-- A bit in front rotates the fold. -/
theorem testBit_folded_shift (hc : 0 < c) (h : Nat → Bool) {j : Nat} (hj : j < c) (len : Nat) :
    (folded c h (len + 1)).testBit j =
      ((folded c (fun k => h (k + 1)) len).testBit (before c j) ^^ (h 0 && decide (j = 0))) := by
  induction len with
  | zero =>
    rw [testBit_folded_succ]
    simp [folded, eq_comm]
  | succ len ih =>
    rw [testBit_folded_succ, ih, testBit_folded_succ]
    simp only [succ_mod_eq_iff hc hj]
    rw [Bool.xor_assoc, Bool.xor_assoc, Bool.xor_comm (h 0 && _)]

/-- The register of `c` bits, of a window of `len`: the new bit is `h 0`, and `h len` falls out. -/
def register (c len : Nat) (comp : Nat) (h : Nat → Bool) : Nat :=
  let comp := comp <<< 1 ||| (h 0).toNat
  let comp := comp ^^^ ((h len).toNat <<< (len % c))
  (comp ^^^ (comp >>> c)) &&& (2 ^ c - 1)

/-- The new bit comes in at the low end. -/
theorem testBit_shift_in (comp : Nat) (b : Bool) (i : Nat) :
    (comp <<< 1 ||| b.toNat).testBit i = if i = 0 then b else comp.testBit (i - 1) := by
  have hfront : b.toNat.testBit i = (b && decide (0 = i)) := by
    have hshift := testBit_toNat_shift b 0 i
    rwa [Nat.shiftLeft_zero] at hshift
  rw [Nat.testBit_or, Nat.testBit_shiftLeft, hfront]
  cases i with
  | zero => simp
  | succ i => simp

theorem testBit_register (hc : 0 < c) (len : Nat) {comp : Nat} (hcomp : comp < 2 ^ c)
    (h : Nat → Bool) {j : Nat} (hj : j < c) :
    (register c len comp h).testBit j = ((comp.testBit (before c j) ^^ (h 0 && decide (j = 0))) ^^
        (h len && decide (len % c = j))) := by
  have hlt := Nat.mod_lt len hc
  have hout : ¬ len % c = c + j := by omega
  rw [register, Nat.testBit_and, Nat.testBit_two_pow_sub_one, decide_eq_true hj, Bool.and_true,
    Nat.testBit_xor, Nat.testBit_shiftRight, Nat.testBit_xor, Nat.testBit_xor, testBit_shift_in,
    testBit_shift_in, testBit_toNat_shift, testBit_toNat_shift, decide_eq_false hout,
    Bool.and_false, Bool.xor_false, if_neg (show ¬ c + j = 0 by omega), before]
  cases j with
  | zero =>
    simp only [if_true, decide_true, Bool.and_true, Nat.add_zero]
    rw [Bool.xor_right_comm, Bool.xor_comm (h 0)]
  | succ j =>
    -- the bit above the register's top is none of `comp`
    have hhigh : comp.testBit (c + (j + 1) - 1) = false := Nat.testBit_lt_two_pow
      (Nat.lt_of_lt_of_le hcomp (Nat.pow_le_pow_right (by decide) (by omega)))
    rw [hhigh]
    simp

/-- The register follows the window. -/
theorem register_folded (hc : 0 < c) (len : Nat) (h : Nat → Bool) :
    register c len (folded c (fun k => h (k + 1)) len) h = folded c h len := by
  refine Nat.eq_of_testBit_eq fun j => ?_
  by_cases hj : j < c
  · rw [testBit_register hc len (folded_lt hc _ len) h hj, ← testBit_folded_shift hc h hj,
      testBit_folded_succ, Bool.xor_assoc, Bool.xor_self, Bool.xor_false]
  · have hpow : 2 ^ c ≤ 2 ^ j := Nat.pow_le_pow_right (by decide) (Nat.le_of_not_lt hj)
    rw [Nat.testBit_lt_two_pow (Nat.lt_of_lt_of_le (folded_lt hc h len) hpow),
      Nat.testBit_lt_two_pow]
    refine Nat.lt_of_lt_of_le ?_ hpow
    exact Nat.and_lt_two_pow _ (Nat.sub_lt (Nat.two_pow_pos c) Nat.one_pos)

/-! ## Slices -/

/-- The number that the first bits spell. -/
def value (h : Nat → Bool) : Nat → Nat
  | 0 => 0
  | len + 1 => value h len ||| ((h len).toNat <<< len)

/-- The sum of the first `n` slices of `c` bits. -/
def slices (c : Nat) : Nat → Nat → Nat
  | 0, _ => 0
  | n + 1, v => v % 2 ^ c ^^^ slices c n (v >>> c)

theorem testBit_value (h : Nat → Bool) (len j : Nat) :
    (value h len).testBit j = (decide (j < len) && h j) := by
  induction len with
  | zero => simp [value]
  | succ len ih =>
    rw [value, Nat.testBit_or, ih, testBit_toNat_shift]
    by_cases heq : len = j
    · subst heq
      simp
    · have hiff : j < len + 1 ↔ j < len := by omega
      simp [heq, hiff]

theorem value_shift (h : Nat → Bool) (n len : Nat) :
    value h len >>> n = value (fun k => h (k + n)) (len - n) := by
  refine Nat.eq_of_testBit_eq fun j => ?_
  have hiff : n + j < len ↔ j < len - n := by omega
  rw [Nat.testBit_shiftRight, testBit_value, testBit_value, Nat.add_comm j n]
  simp only [hiff]

/-- The fold, and the fold of the bits after the first slice. -/
theorem testBit_folded_slice (h : Nat → Bool) {j : Nat} (hj : j < c) (len : Nat) :
    (folded c h len).testBit j = ((decide (j < len) && h j) ^^
      (folded c (fun k => h (k + c)) (len - c)).testBit j) := by
  induction len with
  | zero => simp [folded]
  | succ len ih =>
    rw [testBit_folded_succ, ih]
    by_cases hlen : len < c
    · have hmod : len % c = len := Nat.mod_eq_of_lt hlen
      have hzero : len - c = 0 := by omega
      have hzero' : len + 1 - c = 0 := by omega
      rw [hmod, hzero, hzero']
      by_cases heq : len = j
      · subst heq
        simp [folded]
      · have hiff : j < len + 1 ↔ j < len := by omega
        simp [folded, heq, hiff]
    · have hsub : len + 1 - c = len - c + 1 := by omega
      have hmod : (len - c) % c = len % c := (Nat.mod_eq_sub_mod (Nat.le_of_not_lt hlen)).symm
      have hin : j < len := by omega
      have hin' : j < len + 1 := by omega
      rw [hsub, testBit_folded_succ, hmod, Nat.sub_add_cancel (Nat.le_of_not_lt hlen),
        Bool.xor_assoc]
      simp only [hin, hin']

/-- The fold is the sum of the slices. -/
theorem folded_eq_slices (hc : 0 < c) : ∀ (n : Nat) (h : Nat → Bool) (len : Nat), len ≤ n * c →
    folded c h len = slices c n (value h len) := by
  intro n
  induction n with
  | zero =>
    intro h len hlen
    rw [Nat.zero_mul, Nat.le_zero] at hlen
    subst hlen
    rfl
  | succ n ih =>
    intro h len hlen
    have hrest : len - c ≤ n * c := by
      rw [Nat.succ_mul] at hlen
      omega
    refine Nat.eq_of_testBit_eq fun j => ?_
    rw [slices, Nat.testBit_xor, value_shift, ← ih _ _ hrest, Nat.testBit_mod_two_pow,
      testBit_value]
    by_cases hj : j < c
    · rw [testBit_folded_slice h hj, decide_eq_true hj, Bool.true_and]
    · have hpow : 2 ^ c ≤ 2 ^ j := Nat.pow_le_pow_right (by decide) (Nat.le_of_not_lt hj)
      rw [Nat.testBit_lt_two_pow (Nat.lt_of_lt_of_le (folded_lt hc h len) hpow),
        Nat.testBit_lt_two_pow (Nat.lt_of_lt_of_le (folded_lt hc _ (len - c)) hpow),
        decide_eq_false hj]
      rfl

end Folding
