/-
  The bit-field helpers of `base/bitfield.hh`, on 64-bit words.

    1. `mask`, `insertBits`, `ctz64` and `popCount` as the header computes them.  Bit numbers are
       `unsigned`, so `first + 1` wraps at 32 bits.
    2. Each helper read bit by bit.
    3. Parities.  A word is settled by its bits off one position and its parity
       (`popCount_flip`, `exists_parity`).
-/
import Mathlib.Data.Nat.Bitwise
import Mathlib.Data.List.Basic

namespace Gem5Dvr.Bitfield

open List
open BitVec (getLsbD_and getLsbD_not getLsbD_of_ge getLsbD_or ofNat testBit_toNat toNat_add
  toNat_ofNat toNat_sub twoPow)

/-! ## The helpers -/

/-- `mask(nbits)`: `nbits` ones, right justified, all 64 from 64 on. -/
def mask (nbits : Nat) : BitVec 64 :=
  if 64 ≤ nbits then BitVec.allOnes 64 else (1#64 <<< nbits) - 1#64

/-- `mask(first, last)`: the bits `last .. first`. -/
def maskRange (first last : BitVec 32) : BitVec 64 :=
  mask (first + 1#32).toNat &&& ~~~ mask last.toNat

/-- `bits(val, first, last)`, right justified. -/
def bits (val : BitVec 64) (first last : BitVec 32) : BitVec 64 :=
  (val >>> last.toNat) &&& mask (first - last + 1#32).toNat

/-- `mbits(val, first, last)`: the bits in place. -/
def mbits (val : BitVec 64) (first last : BitVec 32) : BitVec 64 := val &&& maskRange first last

/-- `insertBits(val, first, last, bit_val)`. -/
def insertBits (val : BitVec 64) (first last : BitVec 32) (bit_val : BitVec 64) : BitVec 64 :=
  (val &&& ~~~ maskRange first last) ||| ((bit_val <<< last.toNat) &&& maskRange first last)

/-- `ctz64`: the position of the lowest set bit, 64 for zero. -/
def ctz64 (value : BitVec 64) : Nat := ((range 64).find? value.getLsbD).getD 64

/-- `popCount`: the number of set bits. -/
def popCount (val : BitVec 64) : Nat := (range 64).countP val.getLsbD

/-! ## Bit by bit -/

theorem getLsbD_mask (nbits j : Nat) : (mask nbits).getLsbD j =
    (decide (j < 64) && decide (j < nbits)) := by
  unfold mask
  split
  · rename_i h
    rw [BitVec.getLsbD_allOnes]
    by_cases hj : j < 64
    · have hjn : j < nbits := by omega
      simp [hj, hjn]
    · simp [hj]
  · rename_i h
    have hlt : 2 ^ nbits < 2 ^ 64 := Nat.pow_lt_pow_right (by decide) (by omega)
    have hval : ((1#64 <<< nbits) - 1#64).toNat = 2 ^ nbits - 1 := by
      have hpos : 0 < 2 ^ nbits := Nat.two_pow_pos nbits
      rw [toNat_sub, BitVec.toNat_shiftLeft]
      simp only [toNat_ofNat, Nat.one_mod, Nat.one_shiftLeft]
      omega
    rw [← testBit_toNat, hval, Nat.testBit_two_pow_sub_one]
    by_cases hj : j < nbits
    · have hj64 : j < 64 := by omega
      simp [hj, hj64]
    · simp [hj]

theorem getLsbD_bits (val : BitVec 64) {first last : Nat} (hle : last ≤ first) (h : first < 64)
    (j : Nat) : (bits val (ofNat 32 first) (ofNat 32 last)).getLsbD j =
      (decide (j < first - last + 1) && val.getLsbD (last + j)) := by
  have hlast : (ofNat 32 last).toNat = last := by
    rw [toNat_ofNat]
    omega
  have hwidth : (ofNat 32 first - ofNat 32 last + 1#32).toNat = first - last + 1 := by
    rw [toNat_add, toNat_sub, hlast]
    simp only [toNat_ofNat]
    omega
  rw [bits, getLsbD_and, BitVec.getLsbD_ushiftRight, getLsbD_mask, hlast, hwidth]
  by_cases hj : j < first - last + 1
  · have h64 : j < 64 := by omega
    simp [hj, h64]
  · simp [hj]

theorem getLsbD_mbits (val : BitVec 64) {first : Nat} (h : first < 64) (last : BitVec 32) (j : Nat) :
    (mbits val (ofNat 32 first) last).getLsbD j =
      (val.getLsbD j && (decide (j ≤ first) && !decide (j < last.toNat))) := by
  have hfirst : (ofNat 32 first + 1#32).toNat = first + 1 := by
    rw [toNat_add]
    simp only [toNat_ofNat]
    omega
  have hle : decide (j < first + 1) = decide (j ≤ first) :=
    decide_eq_decide.mpr Nat.lt_add_one_iff
  rw [mbits, maskRange, getLsbD_and, getLsbD_and, getLsbD_not, getLsbD_mask,
    getLsbD_mask, hfirst, hle]
  by_cases h64 : j < 64
  · simp [h64]
  · simp [getLsbD_of_ge val j (by omega)]

/-- A single-bit insertion touches that bit only. -/
theorem getLsbD_insertBit (val bit_val : BitVec 64) {bit : Nat} (hbit : bit < 64) (j : Nat) :
    (insertBits val (ofNat 32 bit) (ofNat 32 bit) bit_val).getLsbD j =
      if j = bit then bit_val.getLsbD 0 else val.getLsbD j := by
  have hlast : (ofNat 32 bit).toNat = bit := by
    rw [toNat_ofNat]
    omega
  have hfirst : (ofNat 32 bit + 1#32).toNat = bit + 1 := by
    rw [toNat_add, hlast]
    simp only [toNat_ofNat]
    omega
  simp only [insertBits, maskRange, getLsbD_or, getLsbD_and, getLsbD_not,
    getLsbD_mask, hlast, hfirst, BitVec.getLsbD_shiftLeft]
  by_cases hj : j = bit
  · subst hj
    simp [hbit]
  · rw [if_neg hj]
    by_cases h64 : j < 64
    · rcases Nat.lt_or_gt_of_ne hj with hlt | hgt
      · have h1 : j < bit + 1 := by omega
        simp [h64, h1, hlt]
      · have h1 : ¬ j < bit + 1 := by omega
        simp [h64, h1]
    · simp [h64, getLsbD_of_ge val j (by omega)]

/-- An insertion of the bits `n - 1 .. 0`; with `n = 0` the first bit number has wrapped and nothing
    is inserted. -/
theorem getLsbD_insertLow (val bit_val : BitVec 64) {n : Nat} (hn : n < 64) (j : Nat) :
    (insertBits val (ofNat 32 n - 1#32) 0#32 bit_val).getLsbD j =
      if j < n then bit_val.getLsbD j else val.getLsbD j := by
  have hfirst : (ofNat 32 n - 1#32 + 1#32).toNat = n := by
    rw [BitVec.sub_add_cancel, toNat_ofNat]
    omega
  simp only [insertBits, maskRange, getLsbD_or, getLsbD_and, getLsbD_not,
    getLsbD_mask, hfirst, BitVec.getLsbD_shiftLeft, toNat_ofNat, Nat.zero_mod]
  by_cases h64 : j < 64
  · by_cases hj : j < n
    · simp [h64, hj]
    · simp [h64, hj]
  · have hj : ¬ j < n := by omega
    simp [hj, h64, getLsbD_of_ge val j (by omega)]

variable {m x y : BitVec 64} {p : Nat}

theorem ctz64_of_set (h : ctz64 m = p) (hp : p < 64) :
    m.getLsbD p = true ∧ ∀ j < p, m.getLsbD j = false := by
  unfold ctz64 at h
  cases hf : (range 64).find? m.getLsbD with
  | none =>
    rw [hf] at h
    simp at h
    omega
  | some q =>
    rw [hf] at h
    obtain ⟨hq, hmem, hlow⟩ := find?_range_eq_some.mp hf
    have hqp : q = p := h
    subst hqp
    refine ⟨hq, fun j hj => ?_⟩
    simpa using hlow j hj

theorem ctz64_lt (h : m ≠ 0) : ctz64 m < 64 := by
  unfold ctz64
  cases hf : (range 64).find? m.getLsbD with
  | none =>
    refine absurd (BitVec.eq_of_getLsbD_eq fun j hj => ?_) h
    have := find?_range_eq_none.mp hf j hj
    simpa using this
  | some q =>
    obtain ⟨_, hmem, _⟩ := find?_range_eq_some.mp hf
    simpa using hmem

/-- The lowest set bit of a mask that is not zero. -/
theorem getLsbD_ctz64 (h : m ≠ 0) : m.getLsbD (ctz64 m) = true := (ctz64_of_set rfl (ctz64_lt h)).1

theorem getLsbD_lt_ctz64 (h : m ≠ 0) {j : Nat} (hj : j < ctz64 m) : m.getLsbD j = false :=
  (ctz64_of_set rfl (ctz64_lt h)).2 j hj

/-- Two words are told apart, as numbers, by the highest bit where they differ. -/
theorem exists_top_difference (h : x.toNat < y.toNat) :
    ∃ p, x.getLsbD p = false ∧ y.getLsbD p = true ∧ ∀ j, p < j → x.getLsbD j = y.getLsbD j := by
  have hne : x.toNat ^^^ y.toNat ≠ 0 := by
    intro h0
    have := Nat.xor_eq_zero_iff.mp h0
    omega
  obtain ⟨p, hp, habove⟩ := Nat.exists_most_significant_bit hne
  rw [Nat.testBit_xor, testBit_toNat, testBit_toNat] at hp
  have hsame : ∀ j, p < j → x.getLsbD j = y.getLsbD j := by
    intro j hj
    have := habove j hj
    rw [Nat.testBit_xor, testBit_toNat, testBit_toNat] at this
    simpa using this
  cases hx : x.getLsbD p with
  | false =>
    rw [hx, Bool.false_xor] at hp
    exact ⟨p, hx, hp, hsame⟩
  | true =>
    -- otherwise `y` would be the smaller one
    have hy : y.getLsbD p = false := by simpa [hx] using hp
    have := Nat.lt_of_testBit p hy hx fun j hj => by
      rw [testBit_toNat, testBit_toNat, hsame j hj]
    omega

/-! ## Parities -/

/-- Two predicates that differ at one number of a range differ by one in their counts. -/
theorem countP_range_flip {f g : Nat → Bool} (hf : f p = true) (hg : g p = false)
    (h : ∀ j, j ≠ p → f j = g j) (n : Nat) :
    (range n).countP f = (range n).countP g + if p < n then 1 else 0 := by
  induction n with
  | zero => rfl
  | succ n ih =>
    rw [range_succ, countP_append, countP_append, ih, countP_singleton, countP_singleton]
    rcases Nat.lt_trichotomy p n with hlt | heq | hgt
    · have hn : p < n + 1 := by omega
      simp only [h n (by omega), hlt, hn, if_true]
      omega
    · subst heq
      simp [hf, hg]
    · have hn : ¬ p < n := by omega
      have hn' : ¬ p < n + 1 := by omega
      simp only [h n (by omega), hn, hn', if_false]
      omega

/-- Setting one bit adds one to the count. -/
theorem popCount_flip (hx : x.getLsbD p = true)
    (hy : y.getLsbD p = false) (h : ∀ j, j ≠ p → x.getLsbD j = y.getLsbD j) :
    popCount x = popCount y + 1 := by
  have hp : p < 64 := BitVec.lt_of_getLsbD hx
  rw [popCount, popCount, countP_range_flip hx hy h 64, if_pos hp]

/-- `x ^ x[p]` under the mask: the parity of the bits of `m` in `x`. -/
def parity (x m : BitVec 64) : Nat := popCount (x &&& m) % 2

/-- Only the bits of the mask matter. -/
theorem parity_congr (h : ∀ j, m.getLsbD j = true → x.getLsbD j = y.getLsbD j) :
    parity x m = parity y m := by
  have hand : x &&& m = y &&& m := by
    apply BitVec.eq_of_getLsbD_eq
    intro j _
    rw [getLsbD_and, getLsbD_and]
    cases hm : m.getLsbD j with
    | false => simp
    | true => rw [h j hm]
  rw [parity, parity, hand]

/-- Words that agree on the mask but for one bit of it have different parities. -/
theorem parity_flip (hm : m.getLsbD p = true) (hp : x.getLsbD p ≠ y.getLsbD p)
    (h : ∀ j, j ≠ p → m.getLsbD j = true → x.getLsbD j = y.getLsbD j) :
    parity x m ≠ parity y m := by
  have off : ∀ j, j ≠ p → (x &&& m).getLsbD j = (y &&& m).getLsbD j := by
    intro j hj
    rw [getLsbD_and, getLsbD_and]
    cases hmj : m.getLsbD j with
    | false => simp
    | true => rw [h j hj hmj]
  unfold parity
  cases hx : x.getLsbD p with
  | true =>
    have hy : y.getLsbD p = false := by simpa [hx] using hp
    have := popCount_flip (x := x &&& m) (y := y &&& m) (by simp [hx, hm]) (by simp [hy]) off
    omega
  | false =>
    have hy : y.getLsbD p = true := by simpa [hx] using hp
    have := popCount_flip (x := y &&& m) (y := x &&& m) (by simp [hy, hm]) (by simp [hx])
      fun j hj => (off j hj).symm
    omega

/-- Any parity is reached by choosing one bit of the mask. -/
theorem exists_parity (x : BitVec 64) (hm : m.getLsbD p = true) {b : Nat} (hb : b < 2) :
    ∃ y, (∀ j, j ≠ p → y.getLsbD j = x.getLsbD j) ∧ parity y m = b := by
  have hp : p < 64 := BitVec.lt_of_getLsbD hm
  have htwo : ∀ j, (x ^^^ twoPow 64 p).getLsbD j = (x.getLsbD j ^^ decide (p = j)) := by
    intro j
    simp [hp]
  by_cases h : parity x m = b
  · exact ⟨x, fun j _ => rfl, h⟩
  · refine ⟨x ^^^ twoPow 64 p, fun j hj => ?_, ?_⟩
    · rw [htwo j, decide_eq_false fun h => hj h.symm, Bool.xor_false]
    · have hne : parity (x ^^^ twoPow 64 p) m ≠ parity x m := by
        refine parity_flip hm ?_ fun j hj _ => ?_
        · rw [htwo p]
          cases x.getLsbD p <;> simp
        · rw [htwo j, decide_eq_false fun h => hj h.symm, Bool.xor_false]
      have h1 : parity (x ^^^ twoPow 64 p) m < 2 := Nat.mod_lt _ (by decide)
      have h2 : parity x m < 2 := Nat.mod_lt _ (by decide)
      omega

end Gem5Dvr.Bitfield
