/-
  Shift registers of `n` cells with feedback.

  A clock moves every cell down by one and fills the last one with the feedback of the register as it
  was.  The register only ever holds a window of one sequence, its OUTPUT: cell `j` after `i` clocks is
  output `i + j` (`iterate_clock`), and the feedback is the recurrence the output obeys
  (`output_add`).

  For the feedback `xor` of the first cell and the last the recurrence is the characteristic
  polynomial: `n` clocks are `n - 1` clocks and the register itself, added (`clock_characteristic`).
-/
import Mathlib.Logic.Function.Iterate

namespace ShiftRegister

variable {α : Type} {n : Nat} {feed : (Nat → α) → α}

/-- One clock. -/
def clock (n : Nat) (feed : (Nat → α) → α) (x : Nat → α) : Nat → α := fun j =>
  if j + 1 = n then feed x else x (j + 1)

/-- The cells that leave the register, one a clock. -/
def output (n : Nat) (feed : (Nat → α) → α) (x : Nat → α) (k : Nat) : α := (clock n feed)^[k] x 0

theorem iterate_clock (x : Nat → α) {j : Nat} (hj : j < n) (i : Nat) :
    (clock n feed)^[i] x j = output n feed x (i + j) := by
  induction j generalizing i with
  | zero => rfl
  | succ j ih =>
    have hmove : (clock n feed)^[i + 1] x j = (clock n feed)^[i] x (j + 1) := by
      rw [Function.iterate_succ_apply']
      exact if_neg (by omega)
    rw [← hmove, ih (by omega), Nat.add_right_comm, Nat.add_assoc]

theorem output_of_lt (x : Nat → α) {k : Nat} (hk : k < n) : output n feed x k = x k := by
  have h : (clock n feed)^[0] x k = output n feed x (0 + k) := iterate_clock x hk 0
  rw [Nat.zero_add] at h
  exact h.symm

/-- The recurrence. -/
theorem output_add (x : Nat → α) (hn : 0 < n) (i : Nat) :
    output n feed x (i + n) = feed ((clock n feed)^[i] x) := by
  have h : (clock n feed)^[i + 1] x (n - 1) = output n feed x (i + 1 + (n - 1)) :=
    iterate_clock x (by omega) (i + 1)
  rw [show i + 1 + (n - 1) = i + n by omega, Function.iterate_succ_apply'] at h
  rw [← h]
  exact if_pos (by omega)

/-- The feedback of the hash: the first cell and the last, added. -/
def ends (n : Nat) (x : Nat → Bool) : Bool := x (n - 1) ^^ x 0

/-- `Hⁿ = Hⁿ⁻¹ + 1`, on the cells of the register. -/
theorem clock_characteristic (x : Nat → Bool) {j : Nat} (hj : j < n) :
    (clock n (ends n))^[n] x j = ((clock n (ends n))^[n - 1] x j ^^ x j) := by
  have hn : 0 < n := by omega
  calc (clock n (ends n))^[n] x j = output n (ends n) x (j + n) := by
        rw [iterate_clock x hj, Nat.add_comm]
    _ = ((clock n (ends n))^[j] x (n - 1) ^^ (clock n (ends n))^[j] x 0) := output_add x hn j
    _ = (output n (ends n) x (j + (n - 1)) ^^ output n (ends n) x (j + 0)) := by
        rw [iterate_clock x (by omega), iterate_clock x hn]
    _ = ((clock n (ends n))^[n - 1] x j ^^ x j) := by
        rw [iterate_clock x hj, Nat.add_comm (n - 1) j, Nat.add_zero, output_of_lt x hj]

end ShiftRegister
