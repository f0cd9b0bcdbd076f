/-
  Counting maps, absent when zero.

  A program that counts members by key often keeps `map[key]` only while it is positive: `++map[key]`
  creates the entry, and the decrement that reaches zero erases it.  `of xs` is the map such a
  program has when the members' keys are `xs`; the rules say that the two updates follow `xs`.
-/
import Mathlib.Data.List.Basic
import Mathlib.Logic.Function.Basic

namespace Tally

variable {α : Type} [DecidableEq α]

/-- `++m[a]`. -/
def incr (m : α → Option Nat) (a : α) : α → Option Nat :=
  Function.update m a (some ((m a).getD 0 + 1))

/-- Find `a`; when it is there, count down and erase it at zero. -/
def decr (m : α → Option Nat) (a : α) : α → Option Nat :=
  match m a with
  | none => m
  | some n => Function.update m a (if n = 1 then none else some (n - 1))

/-- The tally of the keys `xs`. -/
def of (xs : List α) (a : α) : Option Nat := if xs.count a = 0 then none else some (xs.count a)

@[simp] theorem of_nil : of ([] : List α) = fun _ => none := by
  funext a
  simp [of]

theorem of_perm {xs ys : List α} (h : xs.Perm ys) : of xs = of ys := by
  funext a
  simp only [of, h.count_eq]

theorem incr_of (xs : List α) (a : α) : incr (of xs) a = of (a :: xs) := by
  funext b
  by_cases hb : b = a
  · subst hb
    by_cases h : xs.count b = 0
    · simp [incr, of, h]
    · simp [incr, of, h]
  · have hne : a ≠ b := fun h => hb h.symm
    simp [incr, of, Function.update_of_ne hb, List.count_cons_of_ne hne]

/-- Counting down undoes counting up. -/
theorem decr_of_cons (xs : List α) (a : α) : decr (of (a :: xs)) a = of xs := by
  have ha : of (a :: xs) a = some (xs.count a + 1) := by simp [of]
  funext b
  simp only [decr, ha]
  by_cases hb : b = a
  · subst hb
    by_cases h : xs.count b = 0
    · simp [of, h]
    · have hne : xs.count b + 1 ≠ 1 := by omega
      simp [of, h]
  · have hne : a ≠ b := fun h => hb h.symm
    simp [of, Function.update_of_ne hb, List.count_cons_of_ne hne]

theorem decr_of {xs ys : List α} {a : α} (h : xs.Perm (a :: ys)) : decr (of xs) a = of ys := by
  rw [of_perm h, decr_of_cons]

end Tally
