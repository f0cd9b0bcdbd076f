/-
  Sums over a finite map.

  A map is Mathlib's `AList`, whose keys are distinct by construction.  `total f s` adds `f` over the
  entries of `s`, in any commutative monoid: with values in `Nat` it counts, with values in
  `Multiset` it lists.  The rules say how each update of the map changes it.
-/
import Mathlib.Data.List.AList
import Mathlib.Algebra.BigOperators.Group.List.Basic

namespace Table

variable {α β : Type} [DecidableEq α]

theorem perm_cons_erase {s : AList fun _ : α => β} {a : α} {b : β} (h : s.lookup a = some b) :
    s.entries.Perm (⟨a, b⟩ :: (s.erase a).entries) := by
  have hmem : a ∈ s.entries.keys := by
    rw [← List.dlookup_isSome]
    exact Option.isSome_iff_exists.mpr ⟨b, h⟩
  obtain ⟨c, l, r, -, hsplit, herase⟩ := List.exists_of_kerase hmem
  have hc : c = b := by
    have hin : (⟨a, c⟩ : Sigma fun _ : α => β) ∈ s.entries := by simp [hsplit]
    have hlook := List.mem_dlookup s.nodupKeys hin
    have heq : some b = some c := h.symm.trans hlook
    exact (Option.some.inj heq).symm
  show s.entries.Perm (⟨a, b⟩ :: List.kerase a s.entries)
  rw [herase, hsplit, hc]
  exact List.perm_middle

theorem erase_of_lookup_none {s : AList fun _ : α => β} {a : α} (h : s.lookup a = none) :
    s.erase a = s :=
  AList.ext (List.kerase_of_notMem_keys (AList.lookup_eq_none.mp h))

variable {M : Type} [AddCommMonoid M]

/-- The sum of `f` over the entries. -/
def total (f : α → β → M) (s : AList fun _ : α => β) : M := (s.entries.map fun e => f e.1 e.2).sum

variable (f : α → β → M) {s : AList fun _ : α => β} {a : α} {b : β}

theorem total_insert (h : s.lookup a = none) (b : β) :
    total f (s.insert a b) = f a b + total f s := by
  rw [total, AList.entries_insert_of_notMem (AList.lookup_eq_none.mp h)]
  rfl

theorem total_erase (h : s.lookup a = some b) : total f s = f a b + total f (s.erase a) := by
  have hsum := ((perm_cons_erase h).map fun e => f e.1 e.2).sum_eq
  exact hsum

/-- Overwriting is erasing and inserting. -/
theorem total_overwrite (b : β) : total f (s.insert a b) = f a b + total f (s.erase a) := rfl

omit [DecidableEq α] in
theorem total_one_eq_length (s : AList fun _ : α => β) :
    total (fun _ _ => 1) s = s.entries.length := by
  simp [total]

end Table
