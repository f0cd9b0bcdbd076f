/-
  Keys in order of use.

  A history is the list of the keys used so far, the LAST use first.  `order h` names each key once,
  in the order of its last use; a move-to-front list of `n` places is `(order h).take n`.

  1. **Stack distance (`mem_take_order`)** — a key is among the first `n` just when it was used and
     fewer than `n` other keys were used since: what stands before a key in `order h` is the set of
     the keys used after it.

  2. **One use (`take_order_hit`, `take_order_miss`)** — how the first `n` places change: a key that
     is there moves to the front, a key that is not pushes the last one out.  A list that does this
     is the list of the first `n`, with no need to look at what has left it.
-/
import Mathlib.Data.Finset.Card
import Mathlib.Data.List.Nodup
import Mathlib.Data.Finset.Dedup

namespace Recency

open List

variable {α : Type} [DecidableEq α]

/-- The keys of a history, the last one used first. -/
def order : List α → List α
  | [] => []
  | a :: h => a :: (order h).erase a

/-- The uses since the last use of a key. -/
def since (a : α) (h : List α) : List α := h.takeWhile (· != a)

@[simp] theorem order_nil : order ([] : List α) = [] := rfl

@[simp] theorem order_cons (a : α) (h : List α) : order (a :: h) = a :: (order h).erase a := rfl

theorem order_nodup (h : List α) : (order h).Nodup := by
  induction h with
  | nil => exact nodup_nil
  | cons a h ih =>
    rw [order_cons, nodup_cons]
    exact ⟨ih.not_mem_erase, ih.erase a⟩

@[simp] theorem mem_order {a : α} {h : List α} : a ∈ order h ↔ a ∈ h := by
  induction h with
  | nil => simp
  | cons b h ih =>
    rw [order_cons, mem_cons, mem_cons]
    by_cases hab : a = b
    · simp [hab]
    · rw [mem_erase_of_ne hab, ih]

/-! ## Stack distance -/

@[simp] theorem since_nil (a : α) : since a [] = [] := rfl

@[simp] theorem since_cons_self (a : α) (l : List α) : since a (a :: l) = [] := by
  simp [since]

theorem since_cons_ne {a b : α} (hba : b ≠ a) (l : List α) : since a (b :: l) = b :: since a l := by
  simp [since, hba]

/-- Among some of the keys only, the uses since are those of them. -/
theorem since_filter {p : α → Bool} {a : α} (ha : p a = true) (h : List α) :
    since a (h.filter p) = (since a h).filter p := by
  induction h with
  | nil => rfl
  | cons b h ih =>
    by_cases hba : b = a
    · subst hba
      rw [filter_cons_of_pos ha, since_cons_self, since_cons_self]
      rfl
    · by_cases hb : p b = true
      · rw [filter_cons_of_pos hb, since_cons_ne hba, since_cons_ne hba, ih, filter_cons_of_pos hb]
      · rw [filter_cons_of_neg hb, since_cons_ne hba, ih, filter_cons_of_neg hb]

/-- Erasing another key commutes with looking for a key. -/
theorem since_erase {a b : α} (hba : b ≠ a) (l : List α) :
    since a (l.erase b) = (since a l).erase b := by
  induction l with
  | nil => rfl
  | cons x l ih =>
    by_cases hxb : x = b
    · subst hxb
      rw [since_cons_ne hba, erase_cons_head, erase_cons_head]
    · have hne : ¬ (x == b) = true := by simpa using hxb
      rw [erase_cons_tail hne]
      by_cases hxa : x = a
      · subst hxa
        rw [since_cons_self, since_cons_self]
        rfl
      · rw [since_cons_ne hxa, since_cons_ne hxa, erase_cons_tail hne, ih]

/-- What stands before a key is what was used after it. -/
theorem since_order (a : α) (h : List α) : (since a (order h)).toFinset = (since a h).toFinset := by
  induction h with
  | nil => rfl
  | cons b h ih =>
    rw [order_cons]
    by_cases hba : b = a
    · subst hba
      rw [since_cons_self, since_cons_self]
    · rw [since_cons_ne hba, since_cons_ne hba, since_erase hba, toFinset_cons, toFinset_cons, ← ih]
      ext x
      simp only [Finset.mem_insert, mem_toFinset]
      by_cases hxb : x = b
      · simp [hxb]
      · rw [mem_erase_of_ne hxb]

theorem mem_take_iff (a : α) (l : List α) (n : Nat) :
    a ∈ l.take n ↔ a ∈ l ∧ (since a l).length < n := by
  induction l generalizing n with
  | nil => simp
  | cons x l ih =>
    cases n with
    | zero => simp
    | succ n =>
      by_cases hxa : x = a
      · subst hxa
        simp
      · have hax : a ≠ x := fun h => hxa h.symm
        simp [since_cons_ne hxa, hax, ih]

/-- Behind the uses since it stands the key itself. -/
theorem getElem?_since {a : α} {l : List α} (ha : a ∈ l) : l[(since a l).length]? = some a := by
  induction l with
  | nil => cases ha
  | cons b l ih =>
    by_cases hba : b = a
    · subst hba
      rw [since_cons_self]
      rfl
    · have hin : a ∈ l := (mem_cons.mp ha).resolve_left fun h => hba h.symm
      rw [since_cons_ne hba, length_cons, getElem?_cons_succ]
      exact ih hin

/-- Of two keys, the one used since the other has fewer uses behind it. -/
theorem mem_since_iff {a : α} {l : List α} (ha : a ∈ l) (b : α) :
    a ∈ since b l ↔ (since a l).length < (since b l).length := by
  have hfirst : since b l = l.take (since b l).length := prefix_iff_eq_take.mp ( takeWhile_prefix _)
  conv_lhs => rw [hfirst]
  rw [mem_take_iff]
  exact and_iff_right ha

/-- The stack distance of a key. -/
theorem mem_take_order (a : α) (h : List α) (n : Nat) :
    a ∈ (order h).take n ↔ a ∈ h ∧ (since a h).toFinset.card < n := by
  have hnodup : (since a (order h)).Nodup := (order_nodup h).sublist (takeWhile_sublist _)
  rw [mem_take_iff, mem_order, ← toFinset_card_of_nodup hnodup, since_order]

/-! ## One use -/

/-- Only the keys before the place of an erased key are where they were. -/
theorem take_erase_of_notMem {a : α} {l : List α} {n : Nat} (h : a ∉ l.take n) :
    (l.erase a).take n = l.take n := by
  induction l generalizing n with
  | nil => rfl
  | cons x l ih =>
    cases n with
    | zero => rfl
    | succ n =>
      rw [take_succ_cons, mem_cons, not_or] at h
      have hxa : ¬ (x == a) = true := by simpa using fun hx : x = a => h.1 hx.symm
      rw [erase_cons_tail hxa, take_succ_cons, take_succ_cons, ih h.2]

theorem take_erase_of_mem {a : α} {l : List α} {n : Nat} (h : a ∈ l.take (n + 1)) :
    (l.erase a).take n = (l.take (n + 1)).erase a := by
  induction l generalizing n with
  | nil => cases h
  | cons x l ih =>
    rw [take_succ_cons] at h ⊢
    by_cases hxa : x = a
    · subst hxa
      rw [erase_cons_head, erase_cons_head]
    · have hne : ¬ (x == a) = true := by simpa using hxa
      rcases mem_cons.mp h with heq | hmem
      · exact absurd heq.symm hxa
      · cases n with
        | zero => simp at hmem
        | succ n => rw [erase_cons_tail hne, erase_cons_tail hne, take_succ_cons, ih hmem]

/-- A key that is among the first `n` moves to the front. -/
theorem take_order_hit {a : α} {h : List α} {n : Nat} (hmem : a ∈ (order h).take n) :
    (order (a :: h)).take n = a :: ((order h).take n).erase a := by
  cases n with
  | zero => simp at hmem
  | succ n => rw [order_cons, take_succ_cons, take_erase_of_mem hmem]

/-- A key that is not pushes out the last of them. -/
theorem take_order_miss {a : α} {h : List α} {n : Nat} (hn : 0 < n) (hmiss : a ∉ (order h).take n) :
    (order (a :: h)).take n = (a :: (order h).take n).take n := by
  cases n with
  | zero => exact absurd hn (Nat.lt_irrefl 0)
  | succ n =>
    have hbefore : a ∉ (order h).take n := fun hm =>
      hmiss ((take_prefix_take_left (Nat.le_succ n)).subset hm)
    rw [order_cons, take_succ_cons, take_succ_cons, take_erase_of_notMem hbefore,
      take_take, Nat.min_eq_left (Nat.le_succ n)]

end Recency
