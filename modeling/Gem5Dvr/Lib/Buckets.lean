/-
  Queues by priority.

  A vector of queues, one for each priority, is a list of buckets; what is in it is the list
  `flatten`.  A member is pushed into one bucket and removed from one, and the search looks into the
  bucket of highest priority first.  The rules read each of these on the flat list, up to order.
-/
import Mathlib.Data.List.Basic
import Mathlib.Data.List.Perm.Basic

namespace Buckets

open List

variable {α : Type} {bs : List (List α)} {q : List α} {a : α} {i j : Nat}

/-- `bs[i].push_back(a)`. -/
def push (bs : List (List α)) (i : Nat) (a : α) : List (List α) := bs.modify i (· ++ [a])

/-- `bs[i].erase(j)`. -/
def remove (bs : List (List α)) (i j : Nat) : List (List α) := bs.modify i (·.eraseIdx j)

/-- The member that `choose` finds in the last bucket where it finds one, with its place. -/
def search (choose : List α → Option Nat) : List (List α) → Nat → Option (Nat × Nat × α)
  | [], _ => none
  | q :: rest, i =>
    match search choose rest (i + 1) with
    | some x => some x
    | none => (choose q).bind fun j => q[j]?.map fun a => (i, j, a)

@[simp] theorem length_push : (push bs i a).length = bs.length := length_modify ..

@[simp] theorem length_remove : (remove bs i j).length = bs.length := length_modify ..

theorem flatten_push (hi : i < bs.length) : (push bs i a).flatten.Perm (a :: bs.flatten) := by
  induction bs generalizing i with
  | nil => exact absurd hi (Nat.not_lt_zero i)
  | cons q bs ih =>
    cases i with
    | zero =>
      show ((q ++ [a]) ++ bs.flatten).Perm (a :: (q ++ bs.flatten))
      rw [append_assoc]
      exact perm_middle
    | succ i =>
      show (q ++ (push bs i a).flatten).Perm (a :: (q ++ bs.flatten))
      exact ((ih (Nat.lt_of_succ_lt_succ hi)).append_left q).trans perm_middle

theorem perm_eraseIdx : ∀ {q : List α} {j : Nat}, q[j]? = some a → q.Perm (a :: q.eraseIdx j) := by
  intro q
  induction q with
  | nil => exact fun h => by simp at h
  | cons b q ih =>
    intro j h
    cases j with
    | zero =>
      cases h
      exact .refl _
    | succ j =>
      exact ((ih h).cons b).trans (.swap a b _)

theorem flatten_remove (hi : bs[i]? = some q) (hj : q[j]? = some a) :
    bs.flatten.Perm (a :: (remove bs i j).flatten) := by
  induction bs generalizing i with
  | nil => simp at hi
  | cons q' bs ih =>
    cases i with
    | zero =>
      cases hi
      show (q ++ bs.flatten).Perm (a :: (q.eraseIdx j ++ bs.flatten))
      exact (perm_eraseIdx hj).append_right bs.flatten
    | succ i =>
      show (q' ++ bs.flatten).Perm (a :: (q' ++ (remove bs i j).flatten))
      exact ((ih hi).append_left q').trans perm_middle

/-- What is found is where it is said to be. -/
theorem search_some {choose : List α → Option Nat} : ∀ {bs : List (List α)} {n : Nat},
    search choose bs n = some (i, j, a) → n ≤ i ∧ ∃ q, bs[i - n]? = some q ∧ q[j]? = some a := by
  intro bs
  induction bs with
  | nil => exact fun h => by cases h
  | cons q bs ih =>
    intro n h
    rw [search] at h
    cases hrest : search choose bs (n + 1) with
    | some x =>
      rw [hrest] at h
      cases h
      obtain ⟨hle, q', hq', ha⟩ := ih hrest
      refine ⟨Nat.le_of_succ_le hle, q', ?_, ha⟩
      rw [show i - n = i - (n + 1) + 1 by omega, getElem?_cons_succ]
      exact hq'
    | none =>
      rw [hrest] at h
      obtain ⟨j', -, hmap⟩ := Option.bind_eq_some_iff.mp h
      obtain ⟨a', ha, heq⟩ := Option.map_eq_some_iff.mp hmap
      cases heq
      refine ⟨Nat.le_refl _, q, ?_, ha⟩
      rw [Nat.sub_self, getElem?_cons_zero]

/-- Where every bucket that is not empty has a choice, one is found unless all are empty. -/
theorem search_isSome {choose : List α → Option Nat}
    (hchoose : ∀ q ∈ bs, q ≠ [] → ∃ j < q.length, choose q = some j) (hne : bs.flatten ≠ [])
    (n : Nat) : ∃ x, search choose bs n = some x := by
  induction bs generalizing n with
  | nil => exact absurd rfl hne
  | cons q bs ih =>
    rw [search]
    by_cases hrest : bs.flatten = []
    · have hq : q ≠ [] := by
        rintro rfl
        exact hne (by rw [flatten_cons, hrest, append_nil])
      obtain ⟨j, hj, hchosen⟩ := hchoose q mem_cons_self hq
      cases search choose bs (n + 1) with
      | some x => exact ⟨x, rfl⟩
      | none =>
        refine ⟨(n, j, q[j]), ?_⟩
        simp only [hchosen, Option.bind_some, getElem?_eq_getElem hj, Option.map_some]
    · obtain ⟨x, hx⟩ := ih (fun q hq => hchoose q (mem_cons_of_mem _ hq)) hrest (n + 1)
      exact ⟨x, by rw [hx]⟩

/-- The buckets with a member of a kind, when there is at most one such member. -/
theorem countP_any {p : α → Bool} (hone : bs.flatten.countP p ≤ 1) :
    bs.countP (fun q => q.any p) = bs.flatten.countP p := by
  induction bs with
  | nil => rfl
  | cons q bs ih =>
    rw [flatten_cons, countP_append] at hone ⊢
    rw [countP_cons, ih (by omega), Nat.add_comm]
    congr 1
    by_cases hany : q.any p = true
    · rw [if_pos hany]
      obtain ⟨x, hx, hpx⟩ := any_eq_true.mp hany
      have hpos : 0 < q.countP p := countP_pos_iff.mpr ⟨x, hx, hpx⟩
      omega
    · rw [if_neg hany]
      refine (countP_eq_zero.mpr fun x hx hpx => ?_).symm
      exact hany (any_eq_true.mpr ⟨x, hx, hpx⟩)

end Buckets
