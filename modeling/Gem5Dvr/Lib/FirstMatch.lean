/-
  The first match decides.

  A table is searched from its least index for an entry with a property `p`; the first one found is
  asked a question `q`, and a search that finds none answers no.  `Decides p q` is this answer over
  any well-founded linear order, `scan` the loop that computes it over a list of indices.

    * `scan_finRange` — the loop over a whole table computes the answer.
    * `decides_iff_decides` — when two searches of one table, with different properties and
      questions, answer alike: it depends on the first entry that either of them finds.
-/
import Mathlib.Data.List.FinRange
import Mathlib.Order.WellFounded

namespace FirstMatch

open List

variable {α : Type} [LinearOrder α] {p p' q q' : α → Prop} {i k : α}

/-- The first index with the property. -/
def First (p : α → Prop) (i : α) : Prop := p i ∧ ∀ j, j < i → ¬ p j

/-- Some index has the property, and the first one that has it answers yes. -/
def Decides (p q : α → Prop) : Prop := ∃ i, First p i ∧ q i

/-- The same search, begun after an index. -/
def After (i : α) (p q : α → Prop) : Prop := ∃ k, i < k ∧ p k ∧ (∀ j, i < j → j < k → ¬ p j) ∧ q k

section decidable

variable {n : Nat} (a b : Fin n → Prop) [DecidablePred a] [DecidablePred b]

instance (i : Fin n) : Decidable (First a i) := inferInstanceAs (Decidable (_ ∧ _))

instance : Decidable (Decides a b) := inferInstanceAs (Decidable (∃ _, _))

instance (i : Fin n) : Decidable (After i a b) := inferInstanceAs (Decidable (∃ _, _))

end decidable

/-! ## One search -/

theorem First.unique (hi : First p i) (hk : First p k) : i = k := by
  rcases lt_trichotomy i k with hlt | heq | hgt
  · exact absurd hi.1 (hk.2 i hlt)
  · exact heq
  · exact absurd hk.1 (hi.2 k hgt)

theorem First.decides_iff (hi : First p i) : Decides p q ↔ q i := by
  constructor
  · rintro ⟨k, hk, hq⟩
    rwa [hi.unique hk]
  · intro hq
    exact ⟨i, hi, hq⟩

/-- A search that finds nothing up to an index goes on after it. -/
theorem decides_iff_after (h : ∀ j, j ≤ i → ¬ p j) : Decides p q ↔ After i p q := by
  constructor
  · rintro ⟨k, hk, hq⟩
    have hlt : i < k := by
      by_contra hle
      exact h k (not_lt.mp hle) hk.1
    exact ⟨k, hlt, hk.1, fun j _ hjk => hk.2 j hjk, hq⟩
  · rintro ⟨k, -, hp, hbetween, hq⟩
    refine ⟨k, ⟨hp, ?_⟩, hq⟩
    intro j hjk
    by_cases hij : i < j
    · exact hbetween j hij hjk
    · exact h j (not_lt.mp hij)

theorem not_decides (h : ∀ j, ¬ p j) : ¬ Decides p q := by
  rintro ⟨k, hk, -⟩
  exact h k hk.1

theorem exists_first [WellFoundedLT α] (h : ∃ i, p i) : ∃ i, First p i := by
  obtain ⟨i, hi, hmin⟩ := WellFounded.has_min (wellFounded_lt (α := α)) {i | p i} h
  exact ⟨i, hi, fun j hj hp => hmin j hp hj⟩

/-! ## Two searches -/

/-- Two searches answer alike just when they do at the first index that either finds: where both
    find it, it answers both questions alike; where one passes it by, the other's answer is the one
    that the first finds later. -/
theorem decides_iff_decides [WellFoundedLT α] :
    (Decides p q ↔ Decides p' q') ↔ ∀ i, First (fun j => p j ∨ p' j) i →
      (p i → p' i → (q i ↔ q' i)) ∧ (p i → ¬ p' i → (q i ↔ After i p' q')) ∧
        (¬ p i → p' i → (After i p q ↔ q' i)) := by
  by_cases hex : ∃ i, p i ∨ p' i
  · obtain ⟨i, hi⟩ := exists_first hex
    have hbefore : ∀ j, j < i → ¬ p j ∧ ¬ p' j := fun j hj => not_or.mp (hi.2 j hj)
    have honly : (∀ k, First (fun j => p j ∨ p' j) k →
        (p k → p' k → (q k ↔ q' k)) ∧ (p k → ¬ p' k → (q k ↔ After k p' q')) ∧
          (¬ p k → p' k → (After k p q ↔ q' k))) ↔
        (p i → p' i → (q i ↔ q' i)) ∧ (p i → ¬ p' i → (q i ↔ After i p' q')) ∧
          (¬ p i → p' i → (After i p q ↔ q' i)) := by
      constructor
      · intro hall
        exact hall i hi
      · intro hone k hk
        rwa [← hi.unique hk]
    rw [honly]
    -- each search has stopped at `i` or passed it by
    have hstop : p i → (Decides p q ↔ q i) := fun hp =>
      First.decides_iff ⟨hp, fun j hj => (hbefore j hj).1⟩
    have hstop' : p' i → (Decides p' q' ↔ q' i) := fun hp =>
      First.decides_iff ⟨hp, fun j hj => (hbefore j hj).2⟩
    have hpass : ¬ p i → (Decides p q ↔ After i p q) := by
      intro hp
      apply decides_iff_after
      intro j hj
      exact hj.lt_or_eq.elim (fun hlt => (hbefore j hlt).1) fun heq => heq ▸ hp
    have hpass' : ¬ p' i → (Decides p' q' ↔ After i p' q') := by
      intro hp
      apply decides_iff_after
      intro j hj
      exact hj.lt_or_eq.elim (fun hlt => (hbefore j hlt).2) fun heq => heq ▸ hp
    by_cases hp : p i
    · by_cases hp' : p' i
      · rw [hstop hp, hstop' hp']
        simp [hp, hp']
      · rw [hstop hp, hpass' hp']
        simp [hp, hp']
    · have hp' : p' i := hi.1.resolve_left hp
      rw [hpass hp, hstop' hp']
      simp [hp, hp']
  · have hno : ∀ j, ¬ p j ∧ ¬ p' j := fun j => not_or.mp fun h => hex ⟨j, h⟩
    constructor
    · intro _ i hi
      exact absurd ⟨i, hi.1⟩ hex
    · intro _
      exact iff_of_false (not_decides fun j => (hno j).1) (not_decides fun j => (hno j).2)

/-! ## The loop -/

/-- Go through the indices and ask the first that has the property. -/
def scan (found ask : α → Bool) : List α → Bool
  | [] => false
  | i :: is => if found i then ask i else scan found ask is

theorem scan_iff {found ask : α → Bool} {is : List α} (hsorted : is.Pairwise (· < ·)) :
    scan found ask is = true ↔
      ∃ i ∈ is, found i = true ∧ (∀ j ∈ is, j < i → ¬ found j = true) ∧ ask i = true := by
  induction is with
  | nil => simp [scan]
  | cons i is ih =>
    obtain ⟨hlt, hrest⟩ := pairwise_cons.mp hsorted
    by_cases hi : found i = true
    · rw [scan, if_pos hi]
      constructor
      · intro hask
        refine ⟨i, mem_cons_self, hi, ?_, hask⟩
        intro j hj hji
        rcases mem_cons.mp hj with rfl | hj
        · exact absurd hji (lt_irrefl j)
        · exact absurd hji (hlt j hj).asymm
      · rintro ⟨k, hk, -, hfirst, hask⟩
        rcases mem_cons.mp hk with rfl | hk
        · exact hask
        · exact absurd hi (hfirst i mem_cons_self (hlt k hk))
    · rw [scan, if_neg hi, ih hrest]
      constructor
      · rintro ⟨k, hk, hp, hfirst, hask⟩
        refine ⟨k, mem_cons_of_mem i hk, hp, ?_, hask⟩
        intro j hj hjk
        rcases mem_cons.mp hj with rfl | hj
        · exact hi
        · exact hfirst j hj hjk
      · rintro ⟨k, hk, hp, hfirst, hask⟩
        rcases mem_cons.mp hk with rfl | hk
        · exact absurd hp hi
        · exact ⟨k, hk, hp, fun j hj => hfirst j (mem_cons_of_mem i hj), hask⟩

/-- The loop over a whole table. -/
theorem scan_finRange {n : Nat} {found ask : Fin n → Bool} : scan found ask (finRange n) = true ↔
      Decides (fun i => found i = true) (fun i => ask i = true) := by
  rw [scan_iff (pairwise_lt_finRange n)]
  constructor
  · rintro ⟨i, -, hp, hfirst, hask⟩
    exact ⟨i, ⟨hp, fun j hj => hfirst j (mem_finRange j) hj⟩, hask⟩
  · rintro ⟨i, ⟨hp, hfirst⟩, hask⟩
    exact ⟨i, mem_finRange i, hp, fun j _ hj => hfirst j hj, hask⟩

end FirstMatch
