/-
  Sets of small numbers packed 64 to a word.

  `WordSet n` is `n` words of 64 bits, a set of numbers below `64 * n`: the number `i` is bit `i % 64`
  of word `i / 64`.  A set is what `test` says of it (`ext_test`), and `insert` is the insertion
  (`test_insert`); `members` is the set as a `Finset`.
-/
import Mathlib.Data.BitVec
import Mathlib.Data.Fintype.Basic
import Mathlib.Logic.Function.Basic

/-- `n` words of 64 bits. -/
abbrev WordSet (n : Nat) := Fin n → BitVec 64

namespace WordSet

variable {n : Nat}

/-- The word that holds the bit of a number. -/
def word (i : Fin (64 * n)) : Fin n := ⟨i / 64, by omega⟩

/-- The bit of a number within its word. -/
def bit (i : Fin (64 * n)) : BitVec 64 := 1#64 <<< (i.val % 64)

def test (s : WordSet n) (i : Fin (64 * n)) : Bool := (s (word i) &&& bit i) != 0

def insert (s : WordSet n) (i : Fin (64 * n)) : WordSet n :=
  Function.update s (word i) (s (word i) ||| bit i)

theorem test_eq (s : WordSet n) (i : Fin (64 * n)) :
    s.test i = (s (word i)).getLsbD (i.val % 64) := by
  have hlt : i.val % 64 < 64 := Nat.mod_lt _ (by decide)
  have hne : BitVec.twoPow 64 (i.val % 64) ≠ 0#64 := by
    intro h0
    have hbit := congrArg (fun v => v.getLsbD (i.val % 64)) h0
    simp [hlt] at hbit
  show ((s (word i) &&& BitVec.twoPow 64 (i.val % 64)) != 0#64) = _
  rw [BitVec.and_twoPow]
  cases (s (word i)).getLsbD (i.val % 64) with
  | true => simpa using hne
  | false => simp

@[simp] theorem test_empty (i : Fin (64 * n)) : test (fun _ => 0) i = false := by
  simp [test]

theorem test_insert (s : WordSet n) (i j : Fin (64 * n)) :
    (s.insert i).test j = (decide (j = i) || s.test j) := by
  rw [test_eq, test_eq]
  by_cases hw : word j = word i
  · -- in one word, numbers differ when their bits do
    have hdiv : j.val / 64 = i.val / 64 := congrArg Fin.val hw
    have hiff : i.val % 64 = j.val % 64 ↔ j = i := by
      constructor
      · intro hmod
        apply Fin.ext
        omega
      · intro heq
        rw [heq]
    have hbit : (bit i).getLsbD (j.val % 64) = decide (j = i) := by
      show (BitVec.twoPow 64 (i.val % 64)).getLsbD (j.val % 64) = _
      have hlt' : i.val % 64 < 64 := Nat.mod_lt _ (by decide)
      rw [BitVec.getLsbD_twoPow, decide_eq_true hlt', Bool.true_and]
      exact decide_eq_decide.mpr hiff
    rw [insert, hw, Function.update_self, BitVec.getLsbD_or, hbit, Bool.or_comm]
  · have hne : j ≠ i := fun heq => hw (heq ▸ rfl)
    rw [insert, Function.update_of_ne hw, decide_eq_false hne, Bool.false_or]

/-- A set is what `test` says of it. -/
theorem ext_test {s s' : WordSet n} (h : ∀ i, s.test i = s'.test i) : s = s' := by
  funext w
  apply BitVec.eq_of_getLsbD_eq
  intro k hk
  have hlt : w.val * 64 + k < 64 * n := by omega
  have hi := h ⟨w.val * 64 + k, hlt⟩
  rw [test_eq, test_eq] at hi
  have hword : word ⟨w.val * 64 + k, hlt⟩ = w := by
    apply Fin.ext
    show (w.val * 64 + k) / 64 = w.val
    omega
  have hmod : (w.val * 64 + k) % 64 = k := by omega
  rw [hword] at hi
  simp only [hmod] at hi
  exact hi

/-- The numbers of the set. -/
def members (s : WordSet n) : Finset (Fin (64 * n)) := Finset.univ.filter fun i => s.test i = true

@[simp] theorem mem_members {s : WordSet n} {i : Fin (64 * n)} :
    i ∈ s.members ↔ s.test i = true := by
  simp [members]

end WordSet
