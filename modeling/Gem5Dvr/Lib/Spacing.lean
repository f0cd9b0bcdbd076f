/-
  Events that must keep a distance from each other.

    1. A `rule` gives the least distance of a later event of kind `k'` from an earlier one of kind
       `k`, where there is one; a log is `Spaced` when every pair of its events keeps it.  The times
       need not be in order.
    2. A scheduler keeps a floor for each kind.  When the floors are beyond all that the log asks for
       (`Covers`), an event at its floor or later may follow (`Spaced.snoc`), and raising the floors
       keeps that so (`Covers.mono`).
    3. A log is `Windowed` when an event and the `n`-th after it are at least `w` apart.  A ring of
       the last `n` times is enough to keep it so (`ring_snoc`, `getLast?_ring`).
-/
import Mathlib.Data.List.Basic

namespace Spacing

open List

variable {K : Type}

/-- An event and its time. -/
structure Stamped (K : Type) where
  kind : K
  time : Nat
  deriving DecidableEq

variable {rule : K → K → Option Nat} {floor floor' : K → Nat} {log : List (Stamped K)}

/-- The second event keeps the distance from the first. -/
def Apart (rule : K → K → Option Nat) (c d : Stamped K) : Prop :=
  ∀ g ∈ rule c.kind d.kind, c.time + g ≤ d.time

instance (c d : Stamped K) : Decidable (Apart rule c d) :=
  inferInstanceAs (Decidable (∀ g ∈ rule c.kind d.kind, c.time + g ≤ d.time))

def Spaced (rule : K → K → Option Nat) (log : List (Stamped K)) : Prop := log.Pairwise (Apart rule)

/-- The floors are beyond all that an event asks for. -/
def Clears (rule : K → K → Option Nat) (floor : K → Nat) (c : Stamped K) : Prop :=
  ∀ k, ∀ g ∈ rule c.kind k, c.time + g ≤ floor k

def Covers (rule : K → K → Option Nat) (floor : K → Nat) (log : List (Stamped K)) : Prop :=
  ∀ c ∈ log, Clears rule floor c

theorem spaced_nil : Spaced rule [] := List.Pairwise.nil

theorem covers_nil : Covers rule floor [] := fun _ h => nomatch h

/-- An event at its floor or later may follow. -/
theorem Spaced.snoc (h : Spaced rule log) (hc : Covers rule floor log) {d : Stamped K}
    (hd : floor d.kind ≤ d.time) : Spaced rule (log ++ [d]) := by
  refine pairwise_append.mpr ⟨h, pairwise_singleton _ _, fun c hmem e he g hg => ?_⟩
  obtain rfl := mem_singleton.mp he
  exact Nat.le_trans (hc c hmem e.kind g hg) hd

/-- An event that nothing asks anything of may follow. -/
theorem Spaced.snoc_free (h : Spaced rule log) {d : Stamped K}
    (hd : ∀ c ∈ log, rule c.kind d.kind = none) : Spaced rule (log ++ [d]) := by
  refine pairwise_append.mpr ⟨h, pairwise_singleton _ _, fun c hmem e he g hg => ?_⟩
  obtain rfl := mem_singleton.mp he
  rw [hd c hmem] at hg
  cases hg

theorem Covers.mono (h : Covers rule floor log) (hle : ∀ k, floor k ≤ floor' k) :
    Covers rule floor' log :=
  fun c hc k g hg => Nat.le_trans (h c hc k g hg) (hle k)

theorem Covers.snoc (h : Covers rule floor log) (hle : ∀ k, floor k ≤ floor' k) {d : Stamped K}
    (hd : Clears rule floor' d) : Covers rule floor' (log ++ [d]) := by
  intro c hc
  rcases mem_append.mp hc with hc | hc
  · exact h.mono hle c hc
  · obtain rfl := mem_singleton.mp hc
    exact hd

/-! ## A window over a number of events -/

/-- An event and the `n`-th after it are at least `w` apart. -/
def Windowed (n w : Nat) (times : List Nat) : Prop :=
  ∀ i a b, times[i]? = some a → times[i + n]? = some b → a + w ≤ b

theorem windowed_nil (n w : Nat) : Windowed n w [] := fun _ _ _ h _ => by simp at h

/-- The next event may come when it keeps the distance from the oldest of the last `n`. -/
theorem Windowed.snoc {n w t : Nat} {times : List Nat} (h : Windowed n w times) (hn : 0 < n)
    (hold : ∀ a, n ≤ times.length → times[times.length - n]? = some a → a + w ≤ t) :
    Windowed n w (times ++ [t]) := by
  intro i a b ha hb
  rcases Nat.lt_trichotomy (i + n) times.length with hlt | heq | hgt
  · rw [getElem?_append_left hlt] at hb
    rw [getElem?_append_left (by omega)] at ha
    exact h i a b ha hb
  · -- the new event against the oldest of the window
    rw [heq, getElem?_concat_length] at hb
    obtain rfl := Option.some.inj hb
    rw [getElem?_append_left (by omega)] at ha
    refine hold a (by omega) ?_
    rw [show times.length - n = i by omega]
    exact ha
  · rw [getElem?_eq_none (by rw [length_append, length_singleton]; omega)] at hb
    cases hb

/-- The last `n` times, the newest first, with zeros for those there have not been. -/
def ring (n : Nat) (times : List Nat) : List Nat := (times.reverse ++ replicate n 0).take n

theorem ring_nil (n : Nat) : ring n [] = replicate n 0 := by
  simp [ring, take_replicate]

theorem length_ring (n : Nat) (times : List Nat) : (ring n times).length = n := by
  rw [ring, length_take, length_append, length_replicate]
  omega

/-- A new time pushes the oldest out. -/
theorem ring_snoc {n : Nat} (hn : 0 < n) (times : List Nat) (t : Nat) :
    ring n (times ++ [t]) = t :: (ring n times).dropLast := by
  obtain ⟨m, rfl⟩ := Nat.exists_eq_succ_of_ne_zero (Nat.pos_iff_ne_zero.mp hn)
  have hlen : m + 1 ≤ (times.reverse ++ replicate (m + 1) 0).length := by
    rw [length_append, length_replicate]
    omega
  have htail : (ring (m + 1) times).dropLast = (times.reverse ++ replicate (m + 1) 0).take m := by
    rw [ring, dropLast_eq_take, length_take, Nat.min_eq_left hlen, Nat.add_sub_cancel,
      take_take, Nat.min_eq_left (Nat.le_succ m)]
  rw [htail, ring, reverse_append, reverse_singleton, append_assoc,
    singleton_append, take_succ_cons]

/-- The oldest of the ring. -/
theorem getLast?_ring {n : Nat} (hn : 0 < n) (times : List Nat) {x : Nat}
    (hx : (ring n times).getLast? = some x) :
    (n ≤ times.length → times[times.length - n]? = some x) ∧ (times.length < n → x = 0) := by
  rw [getLast?_eq_getElem?, length_ring, ring, getElem?_take_of_lt (by omega)] at hx
  constructor
  · intro hle
    rw [getElem?_append_left (by rw [length_reverse]; omega), getElem?_reverse (by omega)] at hx
    rw [show times.length - n = times.length - 1 - (n - 1) by omega]
    exact hx
  · intro hlt
    rw [getElem?_append_right (by rw [length_reverse]; omega), getElem?_replicate] at hx
    split at hx
    · exact (Option.some.inj hx).symm
    · cases hx

end Spacing
