/-
  A set kept by hand.

  A program that wants to know which keys occur among its members often keeps a plain set of them
  next to the members: a new member inserts its key, a leaving one erases it.  An insertion is
  always right; an erasure is right just when no member is left that has the same key, which is
  what a counting map would have seen.
-/
import Mathlib.Data.Finset.Basic

/-- The set is that of the keys. -/
def Mirror {α : Type} (S : Finset α) (keys : List α) : Prop := ∀ a, a ∈ S ↔ a ∈ keys

namespace Mirror

variable {α : Type} [DecidableEq α] {S : Finset α} {keys keys' : List α} {a : α}

omit [DecidableEq α] in
theorem empty : Mirror (∅ : Finset α) [] := fun a => by simp

theorem cons (h : Mirror S keys) (a : α) : Mirror (insert a S) (a :: keys) := fun b => by
  rw [Finset.mem_insert, List.mem_cons, h b]

theorem concat (h : Mirror S keys) (a : α) : Mirror (insert a S) (keys ++ [a]) := fun b => by
  rw [Finset.mem_insert, List.mem_append, List.mem_singleton, h b, or_comm]

omit [DecidableEq α] in
theorem perm (h : Mirror S keys) (hp : keys.Perm keys') : Mirror S keys' := fun b =>
  (h b).trans hp.mem_iff

/-- A key is erased that is none of the members': right when none has it. -/
theorem erase_iff (h : Mirror S keys) : Mirror (S.erase a) keys ↔ a ∉ keys := by
  constructor
  · intro hmirror hmem
    exact Finset.notMem_erase a S ((hmirror a).mpr hmem)
  · intro hnot
    rwa [Finset.erase_eq_of_notMem fun hmem => hnot ((h a).mp hmem)]

/-- A member leaves: right when no other has its key. -/
theorem erase_cons_iff (h : Mirror S (a :: keys)) : Mirror (S.erase a) keys ↔ a ∉ keys := by
  constructor
  · intro hmirror hmem
    exact Finset.notMem_erase a S ((hmirror a).mpr hmem)
  · intro hnot b
    rw [Finset.mem_erase, h b, List.mem_cons]
    constructor
    · rintro ⟨hne, heq | hmem⟩
      · exact absurd heq hne
      · exact hmem
    · exact fun hmem => ⟨fun heq => hnot (heq ▸ hmem), .inr hmem⟩

/-- A member leaves and comes back. -/
theorem insert_erase (h : Mirror S (a :: keys)) : Mirror (insert a (S.erase a)) (a :: keys) := by
  rwa [Finset.insert_erase ((h a).mpr List.mem_cons_self)]

end Mirror
