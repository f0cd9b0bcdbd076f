/-
  Prefixes of bit vectors, counted from the most significant bit.

  `maskOf n` keeps the first `n` bits; two words `Agree n` when they have the same first `n` bits,
  which is when masking makes them equal.  The rules are those of common prefixes: agreement is an
  equivalence that shrinks with `n`, and of two words that part at a bit a third agrees past it with
  one only.
-/
import Mathlib.Data.BitVec

namespace BitPrefix

variable {w : Nat}

/-- The mask of the first `n` bits. -/
def maskOf (w n : Nat) : BitVec w := BitVec.allOnes w <<< (w - n)

/-- The same first `n` bits. -/
def Agree (n : Nat) (a b : BitVec w) : Prop := ∀ i < n, a.getMsbD i = b.getMsbD i

theorem getMsbD_maskOf (n i : Nat) : (maskOf w n).getMsbD i =
    (decide (i < w) && decide (i < n)) := by
  rw [maskOf, BitVec.getMsbD_shiftLeft, BitVec.getMsbD_allOnes]
  by_cases h : i < n
  · by_cases hw : i < w
    · have h1 : i + (w - n) < w := by omega
      simp [h, hw, h1]
    · have h1 : ¬ i + (w - n) < w := by omega
      simp [hw, h1]
  · by_cases hw : i < w
    · have h1 : ¬ i + (w - n) < w := by omega
      simp [h, h1]
    · have h1 : ¬ i + (w - n) < w := by omega
      simp [hw, h1]

/-! ## Agreement -/

theorem agree_refl (n : Nat) (a : BitVec w) : Agree n a a := fun _ _ => rfl

theorem Agree.symm {n : Nat} {a b : BitVec w} (h : Agree n a b) : Agree n b a :=
  fun i hi => (h i hi).symm

theorem Agree.trans {n : Nat} {a b c : BitVec w} (h : Agree n a b) (h' : Agree n b c) :
    Agree n a c := fun i hi => (h i hi).trans (h' i hi)

theorem Agree.mono {m n : Nat} {a b : BitVec w} (h : Agree n a b) (hmn : m ≤ n) : Agree m a b :=
  fun i hi => h i (by omega)

theorem agree_zero (a b : BitVec w) : Agree 0 a b := fun i hi => absurd hi (Nat.not_lt_zero i)

/-- One bit further. -/
theorem agree_succ_iff {n : Nat} {a b : BitVec w} :
    Agree (n + 1) a b ↔ Agree n a b ∧ a.getMsbD n = b.getMsbD n := by
  constructor
  · intro h
    exact ⟨h.mono (Nat.le_succ n), h n (Nat.lt_succ_self n)⟩
  · rintro ⟨h, hn⟩ i hi
    rcases Nat.lt_or_eq_of_le (Nat.le_of_lt_succ hi) with hlt | rfl
    · exact h i hlt
    · exact hn

/-- Where two words part, a third takes one of the two ways. -/
theorem agree_or_of_ne {n : Nat} {a b c : BitVec w} (hab : a.getMsbD n ≠ b.getMsbD n) :
    c.getMsbD n = a.getMsbD n ∨ c.getMsbD n = b.getMsbD n := by
  cases ha : a.getMsbD n <;> cases hb : b.getMsbD n <;> cases hc : c.getMsbD n <;> simp_all

/-- Masking makes equal exactly what agrees. -/
theorem and_maskOf_eq_iff {n : Nat} {a b : BitVec w} :
    a &&& maskOf w n = b &&& maskOf w n ↔ Agree n a b := by
  constructor
  · intro h i hi
    have hbit : (a &&& maskOf w n).getMsbD i = (b &&& maskOf w n).getMsbD i := by rw [h]
    rw [BitVec.getMsbD_and, BitVec.getMsbD_and, getMsbD_maskOf, decide_eq_true hi] at hbit
    by_cases hw : i < w
    · simpa [hw] using hbit
    · rw [BitVec.getMsbD_of_ge a i (by omega), BitVec.getMsbD_of_ge b i (by omega)]
  · intro h
    apply BitVec.eq_of_getMsbD_eq
    intro i hi
    rw [BitVec.getMsbD_and, BitVec.getMsbD_and, getMsbD_maskOf]
    by_cases hn : i < n
    · rw [h i hn]
    · simp [hn]

/-- A masked word agrees with the word. -/
theorem agree_and_maskOf (n : Nat) (a : BitVec w) : Agree n (a &&& maskOf w n) a := by
  rw [← and_maskOf_eq_iff, BitVec.and_assoc, BitVec.and_self]

/-- The mask of the whole width. -/
theorem maskOf_of_le {n : Nat} (h : w ≤ n) : maskOf w n = BitVec.allOnes w := by
  rw [maskOf, Nat.sub_eq_zero_of_le h, BitVec.shiftLeft_zero]

/-- A mask within another is the shorter one. -/
theorem maskOf_and_maskOf (m n : Nat) : maskOf w m &&& maskOf w n = maskOf w (min m n) := by
  apply BitVec.eq_of_getMsbD_eq
  intro i hi
  rw [BitVec.getMsbD_and, getMsbD_maskOf, getMsbD_maskOf, getMsbD_maskOf]
  by_cases hm : i < m <;> by_cases hn : i < n <;> simp [hi, hm, hn]

theorem maskOf_inj {m n : Nat} (hm : m ≤ w) (hn : n ≤ w) (h : maskOf w m = maskOf w n) : m = n := by
  have key : ∀ i < w, decide (i < m) = decide (i < n) := by
    intro i hi
    have hbit : (maskOf w m).getMsbD i = (maskOf w n).getMsbD i := by rw [h]
    rw [getMsbD_maskOf, getMsbD_maskOf, decide_eq_true hi, Bool.true_and, Bool.true_and] at hbit
    exact hbit
  rcases Nat.lt_trichotomy m n with hlt | heq | hgt
  · have := key m (by omega)
    simp [hlt] at this
  · exact heq
  · have := key n (by omega)
    simp [hgt] at this

end BitPrefix
