/-
  Loops over a list of distinct indices.

  A C loop `for (i : L) s = f(s, i)` is `L.foldl f s`.  Its invariant is usually a statement about
  the indices done SO FAR, so the rule below hands the prefix to the invariant, together with the
  fact that the next index is not in it.
-/
import Mathlib.Data.List.Nodup
import Mathlib.Algebra.BigOperators.Group.Finset.Basic
import Mathlib.Algebra.BigOperators.Fin

namespace Fold

open Function

variable {α β : Type}

/-- The loop rule: `P pre s` holds of the state `s` after the indices `pre`. -/
theorem foldl_prefix {P : List α → β → Prop} {f : β → α → β} {b : β} (h0 : P [] b)
    (hs : ∀ pre a s, a ∉ pre → P pre s → P (pre ++ [a]) (f s a)) :
    ∀ {l : List α}, l.Nodup → P l (l.foldl f b) := by
  have main : ∀ (l pre : List α) (s : β), (pre ++ l).Nodup → P pre s →
      P (pre ++ l) (l.foldl f s) := by
    intro l
    induction l with
    | nil => intro pre s _ h; simpa using h
    | cons a l ih =>
      intro pre s hnd h
      have ha : a ∉ pre := fun hmem =>
        (List.nodup_append.mp hnd).2.2 a hmem a List.mem_cons_self rfl
      have hnext := ih (pre ++ [a]) (f s a) (by simpa using hnd) (hs pre a s ha h)
      simpa using hnext
  intro l hnd
  exact main l [] b hnd h0

/-- A loop that writes one entry of a table for each index. -/
theorem foldl_update {ι γ : Type} [DecidableEq ι] (g : ι → γ) (l : List ι) (f : ι → γ) (i : ι) :
    l.foldl (fun f j => update f j (g j)) f i = if i ∈ l then g i else f i := by
  induction l generalizing f with
  | nil => simp
  | cons j l ih =>
    rw [List.foldl_cons, ih]
    by_cases hl : i ∈ l
    · simp [hl]
    · by_cases hij : i = j
      · subst hij
        simp [hl]
      · simp [hl, hij]

/-- Changing one summand, the summands being a function `h` of the entries of a table `g`. -/
theorem sum_update {ι γ : Type} [Fintype ι] [DecidableEq ι] (g : ι → γ) (h : γ → Nat) (i : ι)
    (v : γ) : ∑ j, h (update g i v j) + h (g i) = ∑ j, h (g j) + h v := by
  have hcomp : (fun j => h (update g i v j)) = update (fun j => h (g j)) i (h v) := by
    funext j
    by_cases hj : j = i
    · subst hj; simp
    · simp [hj]
  have hupd : ∑ j, h (update g i v j) = h v + ∑ j ∈ Finset.univ.erase i, h (g j) := by
    rw [hcomp, Finset.sum_update_of_mem (Finset.mem_univ i), Finset.sdiff_singleton_eq_erase]
  have herase := Finset.add_sum_erase Finset.univ (fun j => h (g j)) (Finset.mem_univ i)
  omega

end Fold
