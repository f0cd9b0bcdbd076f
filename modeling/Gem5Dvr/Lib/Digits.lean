/-
  Digits of a number taken off one at a time, the lowest first.

    1. `card_filter_digit`: below `m * k`, a condition on the lowest digit to base `m` and one on
       what is left above it are met independently.
    2. `card_filter_skip` and `card_filter_mod`, the two ways a decoder uses a digit: it drops it, so
       that any value counts, or it asks for one value.

  A decoder that peels a number digit by digit is counted by one rewrite for each digit.
-/
import Mathlib.Data.Finset.Card
import Mathlib.Data.Finset.Prod
import Mathlib.Order.Interval.Finset.Nat

namespace Digits

variable (m k : Nat) (P Q : Nat → Prop) [DecidablePred P] [DecidablePred Q]

/-- The lowest digit and the rest are chosen independently. -/
theorem card_filter_digit : ((Finset.range (m * k)).filter fun n => Q (n % m) ∧ P (n / m)).card =
      ((Finset.range m).filter Q).card * ((Finset.range k).filter P).card := by
  rw [← Finset.card_product]
  refine Finset.card_bij (fun n _ => (n % m, n / m)) ?_ ?_ ?_
  · intro n hn
    obtain ⟨hlt, hQ, hP⟩ := by simpa using hn
    have hm : 0 < m := by
      rcases Nat.eq_zero_or_pos m with rfl | hm
      · simp at hlt
      · exact hm
    have hk : n / m < k := Nat.div_lt_of_lt_mul hlt
    simp [hQ, hP, hk, Nat.mod_lt n hm]
  · intro n _ n' _ heq
    obtain ⟨hmod, hdiv⟩ := Prod.mk.inj heq
    rw [← Nat.div_add_mod n m, ← Nat.div_add_mod n' m, hmod, hdiv]
  · rintro ⟨d, q⟩ hdq
    obtain ⟨⟨hd, hQ⟩, hq, hP⟩ := by simpa using hdq
    have hmod : (d + m * q) % m = d := by
      rw [Nat.add_mul_mod_self_left, Nat.mod_eq_of_lt hd]
    have hdiv : (d + m * q) / m = q := by
      rw [Nat.add_mul_div_left d q (by omega), Nat.div_eq_of_lt hd, Nat.zero_add]
    have hlt : d + m * q < m * k := by
      have := Nat.mul_le_mul_left m (show q + 1 ≤ k from hq)
      rw [Nat.mul_succ] at this
      omega
    refine ⟨d + m * q, ?_, by rw [hmod, hdiv]⟩
    simp [hmod, hdiv, hQ, hP, hlt]

/-- A digit that is dropped takes every value. -/
theorem card_filter_skip : ((Finset.range (m * k)).filter fun n => P (n / m)).card =
      m * ((Finset.range k).filter P).card := by
  have h := card_filter_digit m k P fun _ => True
  simpa using h

/-- A digit that is asked for takes one value. -/
theorem card_filter_mod {d : Nat} (hd : d < m) :
    ((Finset.range (m * k)).filter fun n => n % m = d ∧ P (n / m)).card =
      ((Finset.range k).filter P).card := by
  have h := card_filter_digit m k P fun x => x = d
  rw [h, Finset.filter_eq', if_pos (Finset.mem_range.mpr hd), Finset.card_singleton, Nat.one_mul]

end Digits
