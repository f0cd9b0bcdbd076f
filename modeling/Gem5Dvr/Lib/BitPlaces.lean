/-
  Places of bits around a set of removed positions.

  Delete the bits at the positions `p₀ < p₁ < …` from a word and the others close up; `place` says
  where the `j`-th bit of the closed-up word stood.  It enumerates, in order, exactly the positions
  that are not deleted, so a word with bits deleted and the word with bits put back at the same
  positions are read through one function.

  The crux is `skip_comm`: the positions may be taken from the low end with each later one moved
  down by one (as a loop that deletes does), or from the low end as they are (as a loop that puts
  back does), and both read the same places.
-/
import Mathlib.Data.List.Basic
import Mathlib.Order.Monotone.Basic
import Mathlib.Tactic.SplitIfs

namespace BitPlaces

open List

/-! ## One position -/

/-- The `j`-th natural number other than `p`. -/
def skip (p j : Nat) : Nat := if j < p then j else j + 1

theorem skip_ne (p j : Nat) : skip p j ≠ p := by
  unfold skip
  split <;> omega

theorem le_skip (p j : Nat) : j ≤ skip p j := by
  unfold skip
  split <;> omega

theorem skip_strictMono (p : Nat) : StrictMono (skip p) := by
  intro i j hij
  show skip p i < skip p j
  unfold skip
  split <;> split <;> omega

variable {p q w : Nat} {L : List Nat}

/-- Every other number is skipped to. -/
theorem exists_skip (h : q ≠ p) : ∃ j, skip p j = q := by
  rcases Nat.lt_or_gt_of_ne h with hlt | hgt
  · exact ⟨q, if_pos hlt⟩
  · refine ⟨q - 1, ?_⟩
    unfold skip
    rw [if_neg (by omega)]
    omega

/-- Leaving out `p` and then the greater `q` is leaving out `q - 1` and then `p`. -/
theorem skip_comm (h : p < q) (j : Nat) : skip q (skip p j) = skip p (skip (q - 1) j) := by
  simp only [skip]
  split_ifs <;> omega

/-! ## A list of positions -/

/-- The `j`-th number outside `L`, for an increasing `L`. -/
def place : List Nat → Nat → Nat
  | [], j => j
  | p :: ps, j => place ps (skip p j)

theorem le_place (L : List Nat) (j : Nat) : j ≤ place L j := by
  induction L generalizing j with
  | nil => exact Nat.le_refl j
  | cons p ps ih => exact Nat.le_trans (le_skip p j) (ih (skip p j))

theorem place_strictMono (L : List Nat) : StrictMono (place L) := by
  induction L with
  | nil => exact fun i j hij => hij
  | cons p ps ih => exact fun i j hij => ih (skip_strictMono p hij)

/-- Below every position of `L` nothing has moved. -/
theorem place_of_lt {j : Nat} (h : ∀ p ∈ L, j < p) : place L j = j := by
  induction L with
  | nil => rfl
  | cons p ps ih =>
    have hp : j < p := h p mem_cons_self
    show place ps (skip p j) = j
    rw [skip, if_pos hp]
    exact ih fun q hq => h q (mem_cons_of_mem p hq)

theorem place_notMem (hL : L.Pairwise (· < ·)) (j : Nat) : place L j ∉ L := by
  induction L generalizing j with
  | nil => exact not_mem_nil
  | cons p ps ih =>
    obtain ⟨hp, hps⟩ := pairwise_cons.mp hL
    show place ps (skip p j) ∉ p :: ps
    intro hmem
    rcases mem_cons.mp hmem with heq | hmem
    · -- `p` itself is the place of `p` among `ps`, and `skip` never yields `p`
      have hself : place ps p = p := place_of_lt hp
      exact skip_ne p j ((place_strictMono ps).injective (heq.trans hself.symm))
    · exact ih hps (skip p j) hmem

theorem exists_place (hL : L.Pairwise (· < ·)) (hq : q ∉ L) : ∃ j, place L j = q := by
  induction L generalizing q with
  | nil => exact ⟨q, rfl⟩
  | cons p ps ih =>
    obtain ⟨hp, hps⟩ := pairwise_cons.mp hL
    obtain ⟨x, hx⟩ := ih hps fun h => hq (mem_cons_of_mem p h)
    have hxp : x ≠ p := by
      rintro rfl
      exact hq (mem_cons.mpr (.inl (hx.symm.trans (place_of_lt hp))))
    obtain ⟨j, hj⟩ := exists_skip hxp
    exact ⟨j, by rw [place, hj, hx]⟩

/-- With all of `L` below `w`, the first `w - L.length` places are the ones below `w`. -/
theorem place_lt_iff (hL : L.Pairwise (· < ·)) (hw : ∀ p ∈ L, p < w)
    (j : Nat) : place L j < w ↔ j + L.length < w := by
  induction L generalizing j with
  | nil => rfl
  | cons p ps ih =>
    obtain ⟨hp, hps⟩ := pairwise_cons.mp hL
    have ih' := ih hps fun q hq => hw q (mem_cons_of_mem p hq)
    have hroom : p + ps.length < w := by
      rw [← ih' p, place_of_lt hp]
      exact hw p mem_cons_self
    show place ps (skip p j) < w ↔ j + (ps.length + 1) < w
    rw [ih', skip]
    split <;> omega

/-- There are at most `w` positions below `w`. -/
theorem length_le (hL : L.Pairwise (· < ·)) (hw : ∀ p ∈ L, p < w) : L.length ≤ w := by
  cases L with
  | nil => exact Nat.zero_le w
  | cons p ps =>
    obtain ⟨hp, hps⟩ := pairwise_cons.mp hL
    have hself : place ps p = p := place_of_lt hp
    have hroom := (place_lt_iff hps (fun q hq => hw q (mem_cons_of_mem p hq)) p).mp
      (by rw [hself]; exact hw p mem_cons_self)
    rw [length_cons]
    omega

/-- Above every position of `L` all of them have been passed. -/
theorem place_of_ge (hL : L.Pairwise (· < ·)) (hw : ∀ p ∈ L, p < w)
    {j : Nat} (hj : w ≤ j + L.length) : place L j = j + L.length := by
  induction L generalizing j with
  | nil => rfl
  | cons p ps ih =>
    obtain ⟨hp, hps⟩ := pairwise_cons.mp hL
    have hw' : ∀ q ∈ ps, q < w := fun q hq => hw q (mem_cons_of_mem p hq)
    have hroom : p + ps.length < w := by
      rw [← place_lt_iff hps hw' p, place_of_lt hp]
      exact hw p mem_cons_self
    rw [length_cons] at hj ⊢
    show place ps (skip p j) = j + (ps.length + 1)
    rw [skip, if_neg (by omega), ih hps hw' (by omega)]
    omega

/-- Deleting `p` first moves the later positions down by one. -/
theorem skip_place_pred {ps : List Nat} (h : ∀ q ∈ ps, p < q) (j : Nat) :
    skip p (place (ps.map (· - 1)) j) = place ps (skip p j) := by
  induction ps generalizing j with
  | nil => rfl
  | cons q qs ih =>
    show skip p (place (qs.map (· - 1)) (skip (q - 1) j)) = place qs (skip q (skip p j))
    rw [ih fun r hr => h r (mem_cons_of_mem q hr), skip_comm (h q mem_cons_self)]

end BitPlaces
