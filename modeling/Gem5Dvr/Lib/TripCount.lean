/-
  Trip counts of counting loops on wrapping integers.

  A machine word shows the integers modulo `M` in a window `[lo, lo + M)`, signed or unsigned.  A loop
  counts from `c` by `s` as long as the word is below (or not below) a bound.  The number of turns
  is the distance divided by the step, rounded up, if and only if the word that ends the loop is in
  the window: one that leaves the window comes back at the other end and the loop goes on.
-/
import Mathlib.Data.Int.Basic

namespace TripCount

variable {lo M : Int}

/-- The integer that the window shows for `x`. -/
def wrapTo (lo M x : Int) : Int := lo + (x - lo) % M

/-- A distance in steps, rounded up. -/
def trips (d s : Int) : Int := (d + s - 1) / s

theorem wrapTo_of_mem {x : Int} (h : lo ≤ x) (h' : x < lo + M) : wrapTo lo M x = x := by
  unfold wrapTo
  rw [Int.emod_eq_of_lt (by omega) (by omega)]
  omega

theorem wrapTo_above {x : Int} (h : lo + M ≤ x) (h' : x < lo + M + M) : wrapTo lo M x = x - M := by
  unfold wrapTo
  rw [← Int.sub_emod_right, Int.emod_eq_of_lt (by omega) (by omega)]
  omega

theorem wrapTo_below {x : Int} (h : lo - M ≤ x) (h' : x < lo) : wrapTo lo M x = x + M := by
  unfold wrapTo
  rw [← Int.add_emod_right, Int.emod_eq_of_lt (by omega) (by omega)]
  omega

theorem wrapTo_add (lo M x y : Int) : wrapTo lo M (wrapTo lo M x + y) = wrapTo lo M (x + y) := by
  unfold wrapTo
  have hsum : lo + (x - lo) % M + y - lo = (x - lo) % M + y := by omega
  rw [hsum, Int.emod_add_emod]
  have hsame : x - lo + y = x + y - lo := by omega
  rw [hsame]

/-! ## Steps -/

section Steps

variable {d s : Int}

theorem le_trips_mul (hs : 0 < s) : d ≤ trips d s * s := by
  have hdiv := Int.emod_add_mul_ediv (d + s - 1) s
  have hmod := Int.emod_lt_of_pos (d + s - 1) hs
  have hcomm : trips d s * s = s * ((d + s - 1) / s) := Int.mul_comm _ _
  omega

/-- One turn fewer does not cover the distance. -/
theorem mul_lt_of_lt_trips (hs : 0 < s) {k : Int} (hk : k < trips d s) : k * s < d := by
  have hle : k * s + s ≤ trips d s * s := by
    have hmul := Int.mul_le_mul_of_nonneg_right (show k + 1 ≤ trips d s by omega) (Int.le_of_lt hs)
    rw [Int.add_mul, Int.one_mul] at hmul
    exact hmul
  have hlast : trips d s * s ≤ d + s - 1 := by
    have hdiv := Int.emod_add_mul_ediv (d + s - 1) s
    have hmod := Int.emod_nonneg (d + s - 1) (Int.ne_of_gt hs)
    have hcomm : trips d s * s = s * ((d + s - 1) / s) := Int.mul_comm _ _
    omega
  omega

theorem trips_pos (hs : 0 < s) (hd : 0 < d) : 0 < trips d s := by
  by_contra hno
  have hle := le_trips_mul (d := d) hs
  have hneg : trips d s * s ≤ 0 := Int.mul_nonpos_of_nonpos_of_nonneg (by omega) (Int.le_of_lt hs)
  omega

/-- The last turn goes past the distance by less than a step. -/
theorem trips_mul_lt (hs : 0 < s) : trips d s * s < d + s := by
  have hlt := mul_lt_of_lt_trips (d := d) hs (k := trips d s - 1) (by omega)
  rw [Int.sub_mul, Int.one_mul] at hlt
  omega

theorem trips_of_dvd (hs : 0 < s) (h : d % s = 0) : trips d s * s = d := by
  have hge := le_trips_mul (d := d) hs
  have hlt := trips_mul_lt (d := d) hs
  obtain ⟨q, rfl⟩ := Int.dvd_of_emod_eq_zero h
  have hq : trips (s * q) s = q := by
    rcases Int.lt_trichotomy (trips (s * q) s) q with hl | he | hg
    · have := Int.mul_lt_mul_of_pos_right hl hs
      rw [Int.mul_comm q s] at this
      omega
    · exact he
    · have := Int.mul_le_mul_of_nonneg_right (show q + 1 ≤ trips (s * q) s by omega)
        (Int.le_of_lt hs)
      rw [Int.add_mul, Int.one_mul, Int.mul_comm q s] at this
      omega
  rw [hq, Int.mul_comm]

end Steps

/-! ## Loops -/

variable {b c s : Int}

/-- Counting up while below `b`: no turn before the last leaves the window. -/
theorem up_taken (hs : 0 < s) (hc : lo ≤ c) (hb : b ≤ lo + M) {k : Int} (hk : 0 ≤ k)
    (hlt : k < trips (b - c) s) : wrapTo lo M (c + k * s) < b := by
  have hmul := mul_lt_of_lt_trips hs hlt
  have hnonneg : 0 ≤ k * s := Int.mul_nonneg hk (Int.le_of_lt hs)
  rw [wrapTo_of_mem (by omega) (by omega)]
  omega

/-- It ends there if and only if the word stays in the window. -/
theorem up_ends_iff (hs : 0 < s) (hsM : s ≤ M) (hc : lo ≤ c) (hb : b ≤ lo + M) (hcb : c < b) :
    ¬ wrapTo lo M (c + trips (b - c) s * s) < b ↔ c + trips (b - c) s * s < lo + M := by
  have hge := le_trips_mul (d := b - c) hs
  have hlt := trips_mul_lt (d := b - c) hs
  constructor
  · intro hend
    by_contra hno
    rw [wrapTo_above (by omega) (by omega)] at hend
    omega
  · intro hin
    rw [wrapTo_of_mem (by omega) hin]
    omega

/-- Counting down while not below `b`. -/
theorem down_taken (hs : 0 < s) (hc : c < lo + M) (hb : lo ≤ b) {k : Int} (hk : 0 ≤ k)
    (hlt : k < trips (c - b + 1) s) : b ≤ wrapTo lo M (c - k * s) := by
  have hmul := mul_lt_of_lt_trips hs hlt
  have hnonneg : 0 ≤ k * s := Int.mul_nonneg hk (Int.le_of_lt hs)
  rw [wrapTo_of_mem (by omega) (by omega)]
  omega

theorem down_ends_iff (hs : 0 < s) (hsM : s ≤ M) (hc : c < lo + M) (hb : lo ≤ b) (hbc : b ≤ c) :
    ¬ b ≤ wrapTo lo M (c - trips (c - b + 1) s * s) ↔ lo ≤ c - trips (c - b + 1) s * s := by
  have hge := le_trips_mul (d := c - b + 1) hs
  have hlt := trips_mul_lt (d := c - b + 1) hs
  constructor
  · intro hend
    by_contra hno
    rw [wrapTo_below (by omega) (by omega)] at hend
    omega
  · intro hin
    rw [wrapTo_of_mem hin (by omega)]
    omega

end TripCount
