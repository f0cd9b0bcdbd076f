/-
  Lists that correspond element by element.

  A loop that rewrites the elements of a list in place is described by `List.Forall₂ R old new`: `R`
  says what may happen to one element.  The rules below read that description from either side.
-/
import Mathlib.Data.List.Forall2
import Mathlib.Data.List.Nodup

namespace Pointwise

open List

variable {α β γ : Type} {R : α → β → Prop} {as : List α} {bs : List β}

/-- Every new element comes from an old one. -/
theorem exists_left (h : Forall₂ R as bs) {b : β} (hb : b ∈ bs) : ∃ a ∈ as, R a b := by
  induction h with
  | nil => cases hb
  | cons hab _ ih =>
    rcases mem_cons.mp hb with rfl | hb
    · exact ⟨_, mem_cons_self, hab⟩
    · obtain ⟨a, ha, hr⟩ := ih hb
      exact ⟨a, mem_cons_of_mem _ ha, hr⟩

/-- Every old element has become a new one. -/
theorem exists_right (h : Forall₂ R as bs) {a : α} (ha : a ∈ as) : ∃ b ∈ bs, R a b := by
  induction h with
  | nil => cases ha
  | cons hab _ ih =>
    rcases mem_cons.mp ha with rfl | ha
    · exact ⟨_, mem_cons_self, hab⟩
    · obtain ⟨b, hb, hr⟩ := ih ha
      exact ⟨b, mem_cons_of_mem _ hb, hr⟩

/-- The correspondence, with the old elements at hand. -/
theorem with_mem (h : Forall₂ R as bs) : Forall₂ (fun a b => a ∈ as ∧ R a b) as bs := by
  induction h with
  | nil => exact .nil
  | cons hab _ ih =>
    exact .cons ⟨mem_cons_self, hab⟩ (ih.imp fun a b hr => ⟨mem_cons_of_mem _ hr.1, hr.2⟩)

/-- What the loop does not touch is the same list of values. -/
theorem map_eq {f : α → γ} {g : β → γ} (h : Forall₂ R as bs)
    (hR : ∀ a b, R a b → g b = f a) : bs.map g = as.map f := by
  induction h with
  | nil => rfl
  | cons hab _ ih => rw [map_cons, map_cons, hR _ _ hab, ih]

/-- A loop over a loop. -/
theorem trans {S : β → γ → Prop} {T : α → γ → Prop} {cs : List γ} (h : Forall₂ R as bs)
    (h' : Forall₂ S bs cs) (hT : ∀ a b c, R a b → S b c → T a c) : Forall₂ T as cs := by
  induction h generalizing cs with
  | nil =>
    cases h'
    exact .nil
  | cons hab _ ih =>
    cases h' with
    | cons hbc htail => exact .cons (hT _ _ _ hab hbc) (ih htail)

/-- A loop that applies one function. -/
theorem forall₂_map {f : α → β} (h : ∀ a ∈ as, R a (f a)) : Forall₂ R as (as.map f) := by
  induction as with
  | nil => exact .nil
  | cons a as ih =>
    exact .cons (h a mem_cons_self) (ih fun b hb => h b (mem_cons_of_mem a hb))

end Pointwise
