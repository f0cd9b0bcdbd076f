/-
  Lists kept in an order, by position.

  A list is in the order `R` when it is `Pairwise R`.  An element put in at a position keeps the
  order just when those before the position stand in `R` to it and it stands in `R` to those from
  there on (`pairwise_insertIdx_iff`).  Of two positions a list in order tells which comes first
  (`rel_getElem?`), and two entries that trade places leave a permutation (`swap_perm`).
-/
import Mathlib.Data.List.InsertIdx
import Mathlib.Data.List.Perm.Basic

namespace Ordered

open List

variable {α : Type} {R : α → α → Prop}

theorem insertIdx_eq (a : α) {l : List α} {k : Nat} (hk : k ≤ l.length) :
    l.insertIdx k a = l.take k ++ a :: l.drop k := by
  induction l generalizing k with
  | nil =>
    obtain rfl : k = 0 := by simpa using hk
    rfl
  | cons b l ih =>
    cases k with
    | zero => rfl
    | succ k =>
      rw [insertIdx_succ_cons, ih (by simpa using hk)]
      rfl

/-- Putting an element in keeps the order just when it belongs there. -/
theorem pairwise_insertIdx_iff {a : α} {l : List α} {k : Nat} (hk : k ≤ l.length) :
    (l.insertIdx k a).Pairwise R ↔
      l.Pairwise R ∧ (∀ b ∈ l.take k, R b a) ∧ ∀ b ∈ l.drop k, R a b := by
  rw [insertIdx_eq a hk, pairwise_append, pairwise_cons]
  constructor
  · rintro ⟨htake, ⟨hafter, hdrop⟩, hacross⟩
    refine ⟨?_, fun b hb => hacross b hb a mem_cons_self, hafter⟩
    rw [← take_append_drop k l, pairwise_append]
    exact ⟨htake, hdrop, fun b hb c hc => hacross b hb c (mem_cons_of_mem a hc)⟩
  · rintro ⟨hl, hbefore, hafter⟩
    rw [← take_append_drop k l, pairwise_append] at hl
    refine ⟨hl.1, ⟨hafter, hl.2.1⟩, fun b hb c hc => ?_⟩
    rcases mem_cons.mp hc with rfl | hc
    · exact hbefore b hb
    · exact hl.2.2 b hb c hc

theorem rel_getElem? {l : List α} (h : l.Pairwise R) {i j : Nat} {a b : α} (hij : i < j)
    (ha : l[i]? = some a) (hb : l[j]? = some b) : R a b := by
  obtain ⟨hi, rfl⟩ := List.getElem?_eq_some_iff.mp ha
  obtain ⟨hj, rfl⟩ := List.getElem?_eq_some_iff.mp hb
  exact pairwise_iff_getElem.mp h i j hi hj hij

/-- Two entries that trade places. -/
theorem swap_perm {l : List α} {i j : Nat} {a b : α} (ha : l[i]? = some a) (hb : l[j]? = some b) :
    ((l.set i b).set j a).Perm l := by
  obtain ⟨hi, rfl⟩ := List.getElem?_eq_some_iff.mp ha
  obtain ⟨hj, rfl⟩ := List.getElem?_eq_some_iff.mp hb
  exact set_set_perm hi hj

end Ordered
