/-
  Trip counts from the recorded loop branch (`DVRLoopBoundDetector::infer`, `cpu/o3/pre.cc` 2532-2659).

    1. **Program** — `signedDelta`, which source is the bound, the distance and the step of each
       comparison, the rounded-up quotient.
    2. **Specification** — the branch itself, evaluated again and again while the induction register
       moves by the increment; and the overflow flags of the sums and differences taken.
    3. When the count is exact.

  The crux: a word is seen through a window of the integers, signed or unsigned, and the count is
  `TripCount.trips`; so it is exact just when the word that ends the loop is in the window.  The code
  asks of BOTH roles that the induction register be on the side that the comparison has on the left;
  with the bound on the left the branch compares the other way.
-/
import Gem5Dvr.LoopBound
import Gem5Dvr.Lib.TripCount

namespace Gem5Dvr.LoopBound

open BitVec (intMax toInt_add toInt_eq_toNat_cond toNat_add toNat_neg toNat_sub)

open TripCount (trips wrapTo)

/-! ## Inference -/

/-- `signedDelta`: a difference, saturated at the limits of `int64_t`. -/
def signedDelta (finish_value start_value : RegVal) : BitVec 64 :=
  if start_value ≤ finish_value then
    let delta := finish_value - start_value
    if intMax 64 < delta then intMax 64 else delta
  else
    let delta := start_value - finish_value
    if intMax 64 < delta then BitVec.intMin 64 else -delta

/-- The two operands of the branch: one stays, the other was `before` and is `current`. -/
structure Roles where
  /-- The bound is the first source. -/
  boundFirst : Bool
  bound : RegVal
  current : RegVal
  before : RegVal
  deriving DecidableEq

def Roles.increment (r : Roles) : BitVec 64 := signedDelta r.current r.before

def MaxArchitecturalIntRegs : Nat := 32

/-- The operand that the snapshots, or the snapshot at the branch, show fixed is the bound. -/
def Detector.roles (d : Detector) (start finish : Snapshot) : Option Roles :=
  match d.boundSource0, d.boundSource1 with
  | some source0, some source1 =>
    if d.seenBranch = false ∨ d.earlyExitSeen = true ∨
        MaxArchitecturalIntRegs ≤ source0.val ∨ MaxArchitecturalIntRegs ≤ source1.val then none
    else
      let start0 := start source0.val
      let start1 := start source1.val
      let finish0 := finish source0.val
      let finish1 := finish source1.val
      if start0 = finish0 ∧ start1 ≠ finish1 then some ⟨true, finish0, finish1, start1⟩
      else if start1 = finish1 ∧ start0 ≠ finish0 then some ⟨false, finish1, finish0, start0⟩
      else if d.branchValuesValid = true ∧ start0 = d.branchValue0 ∧ start1 ≠ d.branchValue1 then
        some ⟨true, d.branchValue0, d.branchValue1, start1⟩
      else if d.branchValuesValid = true ∧ start1 = d.branchValue1 ∧ start0 ≠ d.branchValue0 then
        some ⟨false, d.branchValue1, d.branchValue0, start0⟩
      else none
  | _, _ => none

/-- `uint64_t(-(increment + 1)) + 1`. -/
def negated (increment : BitVec 64) : RegVal := -(increment + 1) + 1

/-- The distance and the step of each comparison. -/
def plan (comparison : Comparison) (bound current : RegVal) (increment : BitVec 64) :
    Option (RegVal × RegVal) :=
  match comparison with
  | .SignedLess =>
    if increment.toInt ≤ 0 ∨ bound.toInt ≤ current.toInt then none
    else some (bound - current, increment)
  | .UnsignedLess =>
    if increment.toInt ≤ 0 ∨ bound ≤ current then none else some (bound - current, increment)
  | .SignedGreaterEqual =>
    if 0 ≤ increment.toInt ∨ current.toInt < bound.toInt then none
    else some (current - bound + 1, negated increment)
  | .UnsignedGreaterEqual =>
    if 0 ≤ increment.toInt ∨ current < bound then none
    else some (current - bound + 1, negated increment)
  | .NotEqual =>
    if increment.toInt = 0 then none
    else
      let magnitude := if 0 < increment.toInt then increment else negated increment
      let away := if 0 < increment.toInt then bound ≤ current else current ≤ bound
      let distance := if 0 < increment.toInt then bound - current else current - bound
      if away ∨ distance = 0 ∨ distance % magnitude ≠ 0 then none else some (distance, magnitude)
  | _ => none

structure Inference where
  matched : Bool := false
  fallback : Bool := false
  bound : RegVal := 0
  increment : BitVec 64 := 0
  remaining : BitVec 64 := 0
  lanes : BitVec 32 := 0

/-- `(distance + step - 1) / step`. -/
def roundUp (distance step : RegVal) : BitVec 64 := (distance + step - 1) / step

def Detector.infer (d : Detector) (start finish : Snapshot) (max_lanes : BitVec 32) : Inference :=
  let fallback : Inference :=
    { fallback := true, lanes := if max_lanes < 128 then max_lanes else 128 }
  match d.roles start finish with
  | none => fallback
  | some r =>
    match plan d.comparison r.bound r.current r.increment with
    | none => fallback
    | some (distance, step) =>
      { matched := true
        bound := r.bound
        increment := r.increment
        remaining := roundUp distance step
        lanes :=
          if max_lanes.setWidth 64 < roundUp distance step then max_lanes
          else (roundUp distance step).setWidth 32 }

/-! ## What is counted -/

/-- A branch of RV64 with this comparison is taken. -/
def branchTaken (comparison : Comparison) (value0 value1 : RegVal) : Bool :=
  match comparison with
  | .Equal => value0 == value1
  | .NotEqual => value0 != value1
  | .SignedLess => value0.slt value1
  | .SignedGreaterEqual => value1.sle value0
  | .UnsignedLess => value0.ult value1
  | .UnsignedGreaterEqual => value1.ule value0
  | .Unknown => false

/-- The induction register after some iterations. -/
def inductionAt (current : RegVal) (increment : BitVec 64) : Nat → RegVal
  | 0 => current
  | n + 1 => inductionAt current increment n + increment

/-- The branch after some iterations, its sources in their encoded order. -/
def Roles.takenAt (r : Roles) (comparison : Comparison) (increment : BitVec 64) (n : Nat) : Bool :=
  let value := inductionAt r.current increment n
  if r.boundFirst = true then branchTaken comparison r.bound value
  else branchTaken comparison value r.bound

/-- The overflow flags of `signedDelta`. -/
def deltaWraps (finish_value start_value : RegVal) : Bool :=
  if start_value ≤ finish_value then finish_value.usubOverflow start_value
  else
    start_value.usubOverflow finish_value ||
      (decide (start_value - finish_value ≤ intMax 64) &&
        (start_value - finish_value).negOverflow)

/-- Those of the distance. -/
def distanceWraps (comparison : Comparison) (bound current : RegVal) (increment : BitVec 64) :
    Bool :=
  match comparison with
  | .SignedLess => bound.ssubOverflow current
  | .UnsignedLess => bound.usubOverflow current
  | .SignedGreaterEqual => current.ssubOverflow bound || (current - bound).uaddOverflow 1
  | .UnsignedGreaterEqual => current.usubOverflow bound || (current - bound).uaddOverflow 1
  | .NotEqual =>
    if 0 < increment.toInt then bound.usubOverflow current else current.usubOverflow bound
  | _ => false

/-- Those of `negated`. -/
def negatedWraps (increment : BitVec 64) : Bool :=
  increment.saddOverflow 1 || (increment + 1).negOverflow || (-(increment + 1)).uaddOverflow 1

/-- Those of the rounding up. -/
def roundUpWraps (distance step : RegVal) : Bool :=
  distance.uaddOverflow step || (distance + step).usubOverflow 1

/-- Some sum or difference that `infer` takes wraps. -/
def Roles.wraps (r : Roles) (comparison : Comparison) : Bool :=
  deltaWraps r.current r.before || distanceWraps comparison r.bound r.current r.increment ||
    (decide (r.increment.toInt < 0) && negatedWraps r.increment) ||
    (plan comparison r.bound r.current r.increment).any fun p => roundUpWraps p.1 p.2

/-- The count is exact. -/
structure Exact (r : Roles) (comparison : Comparison) (inf : Inference) (max_lanes : BitVec 32) :
    Prop where
  remaining_pos : 1 ≤ inf.remaining.toNat
  taken : ∀ n < inf.remaining.toNat, r.takenAt comparison inf.increment n = true
  ends : r.takenAt comparison inf.increment inf.remaining.toNat = false
  lanes : inf.lanes.toNat = min inf.remaining.toNat max_lanes.toNat
  no_wrap : r.wraps comparison = false

/-! ## Windows -/

/-- The integer a word stands for. -/
def view (signed : Bool) (x : RegVal) : Int := if signed then x.toInt else x.toNat

def lowest (signed : Bool) : Int := if signed then -2 ^ 63 else 0

/-- What a difference must stay below. -/
def room (signed : Bool) : Int := if signed then 2 ^ 63 else 2 ^ 64

/-- With `c` the captured value, `b` the bound and `s` the size of the increment:

    * below the bound — the induction register is the first source, `b - c` and `b - c + s` stay in
      range, and the first value from `c` in steps of `s` that is not below `b` is representable;
    * not below the bound — `c - b` and `c - b + 1 + s` stay in range, and the first value below `b`
      is representable; or the bound is the first source, `c` is `b` and the next value wraps;
    * unequal — the distance and the step together stay in range. -/
def Roles.CountsOut (r : Roles) : Comparison → Prop
  | .SignedLess => less true
  | .UnsignedLess => less false
  | .SignedGreaterEqual => greaterEqual true
  | .UnsignedGreaterEqual => greaterEqual false
  | .NotEqual => |view false r.bound - view false r.current| + |r.increment.toInt| < 2 ^ 64
  | _ => False
where
  less (signed : Bool) : Prop :=
    let c := view signed r.current
    let b := view signed r.bound
    let s := |r.increment.toInt|
    r.boundFirst = false ∧ b - c < room signed ∧ b - c + s < 2 ^ 64 ∧
      c + trips (b - c) s * s < lowest signed + 2 ^ 64
  greaterEqual (signed : Bool) : Prop :=
    let c := view signed r.current
    let b := view signed r.bound
    let s := |r.increment.toInt|
    c - b < room signed ∧ c - b + 1 + s < 2 ^ 64 ∧
      if r.boundFirst = true then c = b ∧ c - s < lowest signed
      else lowest signed ≤ c - trips (c - b + 1) s * s

section

variable {signed : Bool} {x y : RegVal}

theorem lowest_le_view (signed : Bool) (x : RegVal) : lowest signed ≤ view signed x := by
  have hlo := x.le_toInt
  cases signed with
  | true => exact hlo
  | false => exact Int.natCast_nonneg _

theorem view_lt (signed : Bool) (x : RegVal) : view signed x < lowest signed + 2 ^ 64 := by
  have hhi := x.toInt_lt
  cases signed with
  | true =>
    show x.toInt < -2 ^ 63 + 2 ^ 64
    omega
  | false =>
    show (x.toNat : Int) < 0 + 2 ^ 64
    omega

/-- Adding moves along the window and comes back at the other end. -/
theorem view_add (signed : Bool) (x y : RegVal) :
    view signed (x + y) = wrapTo (lowest signed) (2 ^ 64) (view signed x + y.toInt) := by
  cases signed with
  | true =>
    show (x + y).toInt = -2 ^ 63 + (x.toInt + y.toInt - -2 ^ 63) % 2 ^ 64
    rw [toInt_add, Int.bmod_def]
    omega
  | false =>
    show ((x + y).toNat : Int) = 0 + (x.toNat + y.toInt - 0) % 2 ^ 64
    rw [toNat_add, toInt_eq_toNat_cond]
    omega

theorem view_inductionAt (signed : Bool) (current : RegVal) (increment : BitVec 64) (n : Nat) :
    view signed (inductionAt current increment n) =
      wrapTo (lowest signed) (2 ^ 64) (view signed current + n * increment.toInt) := by
  induction n with
  | zero =>
    have hlo := lowest_le_view signed current
    have hhi := view_lt signed current
    rw [TripCount.wrapTo_of_mem (by omega) (by omega)]
    show view signed current = _
    omega
  | succ n ih =>
    show view signed (inductionAt current increment n + increment) = _
    rw [view_add, ih, TripCount.wrapTo_add, Int.add_assoc]
    push_cast
    rw [Int.add_mul, Int.one_mul]

/-- A difference of words is the difference of what they stand for, when that is not negative. -/
theorem toNat_sub_of_view (h : view signed y ≤ view signed x) :
    ((x - y).toNat : Int) = view signed x - view signed y := by
  rw [toNat_sub]
  cases signed with
  | true =>
    have h : y.toInt ≤ x.toInt := h
    show _ = x.toInt - y.toInt
    rw [toInt_eq_toNat_cond, toInt_eq_toNat_cond] at *
    omega
  | false =>
    have h : (y.toNat : Int) ≤ x.toNat := h
    show _ = (x.toNat : Int) - y.toNat
    omega

end

/-! ## Overflow -/

/-- `signedDelta` takes no difference that wraps. -/
theorem deltaWraps_eq_false (finish_value start_value : RegVal) :
    deltaWraps finish_value start_value = false := by
  unfold deltaWraps
  by_cases hle : start_value ≤ finish_value
  · rw [if_pos hle]
    exact decide_eq_false (Nat.not_lt.mpr hle)
  rw [if_neg hle, Bool.or_eq_false_iff]
  constructor
  · exact decide_eq_false fun hlt => hle (Nat.le_of_lt hlt)
  rw [Bool.and_eq_false_iff]
  by_cases hmax : start_value - finish_value ≤ intMax 64
  · -- at most the maximum, so not the minimum
    right
    have hnat : (start_value - finish_value).toNat ≤ 2 ^ 63 - 1 := hmax
    show decide _ = false
    rw [decide_eq_false_iff_not, toInt_eq_toNat_cond]
    omega
  · left
    exact decide_eq_false hmax

variable {increment : BitVec 64}

theorem toNat_negated (h : increment.toInt < 0) :
    ((negated increment).toNat : Int) = -increment.toInt := by
  have hneg : negated increment = -increment := by
    unfold negated
    bv_omega
  rw [toInt_eq_toNat_cond] at *
  rw [hneg, toNat_neg]
  omega

theorem negatedWraps_eq_false (h : increment.toInt < 0) : negatedWraps increment = false := by
  have hlo := increment.le_toInt
  have hsucc : (increment + 1).toInt = increment.toInt + 1 := by
    rw [toInt_add, Int.bmod_def]
    have hone : (1 : BitVec 64).toInt = 1 := rfl
    omega
  have hneg : ((-(increment + 1)).toNat : Int) = -(increment.toInt + 1) := by
    rw [toInt_eq_toNat_cond (increment + 1)] at hsucc
    rw [toNat_neg]
    omega
  have hone : (1 : BitVec 64).toInt = 1 := rfl
  have hone' : (1 : BitVec 64).toNat = 1 := rfl
  unfold negatedWraps
  rw [Bool.or_eq_false_iff, Bool.or_eq_false_iff]
  refine ⟨⟨?_, ?_⟩, ?_⟩
  · unfold BitVec.saddOverflow
    rw [Bool.or_eq_false_iff, decide_eq_false_iff_not, decide_eq_false_iff_not]
    omega
  · show decide _ = false
    rw [decide_eq_false_iff_not]
    omega
  · show decide _ = false
    rw [decide_eq_false_iff_not]
    omega

theorem ssubOverflow_eq_false {x y : RegVal} (h : y.toInt ≤ x.toInt) :
    x.ssubOverflow y = false ↔ x.toInt - y.toInt < 2 ^ 63 := by
  unfold BitVec.ssubOverflow
  rw [Bool.or_eq_false_iff, decide_eq_false_iff_not, decide_eq_false_iff_not]
  omega

theorem usubOverflow_eq_false {x y : RegVal} (h : y.toNat ≤ x.toNat) :
    x.usubOverflow y = false := decide_eq_false (Nat.not_lt.mpr h)

theorem uaddOverflow_eq_false {x y : RegVal} :
    x.uaddOverflow y = false ↔ x.toNat + y.toNat < 2 ^ 64 := by
  unfold BitVec.uaddOverflow
  rw [decide_eq_false_iff_not]
  omega

theorem roundUpWraps_eq_false {distance step : RegVal} (hstep : 0 < step.toNat) :
    roundUpWraps distance step = false ↔ distance.toNat + step.toNat < 2 ^ 64 := by
  unfold roundUpWraps
  rw [Bool.or_eq_false_iff, uaddOverflow_eq_false]
  constructor
  · exact And.left
  · intro h
    refine ⟨h, usubOverflow_eq_false ?_⟩
    rw [toNat_add, Nat.mod_eq_of_lt h]
    show 1 ≤ distance.toNat + step.toNat
    omega

/-- Without wrapping, the quotient is the number of trips. -/
theorem toNat_roundUp {distance step : RegVal} (hstep : 0 < step.toNat)
    (h : distance.toNat + step.toNat < 2 ^ 64) :
    ((roundUp distance step).toNat : Int) = trips distance.toNat step.toNat := by
  unfold roundUp trips
  have hsum : (distance + step - 1).toNat = distance.toNat + step.toNat - 1 := by
    rw [toNat_sub, toNat_add, Nat.mod_eq_of_lt h]
    show (2 ^ 64 - 1 + (distance.toNat + step.toNat)) % 2 ^ 64 = _
    omega
  rw [BitVec.toNat_udiv, hsum, Int.natCast_ediv, Int.natCast_sub (by omega)]
  rfl

/-- `std::min` of a `uint64_t` and an `unsigned`. -/
theorem toNat_lanes (remaining : BitVec 64) (max_lanes : BitVec 32) :
    (if max_lanes.setWidth 64 < remaining then max_lanes else remaining.setWidth 32).toNat =
      min remaining.toNat max_lanes.toNat := by
  have hwide : (max_lanes.setWidth 64).toNat = max_lanes.toNat := by
    rw [BitVec.toNat_setWidth]
    omega
  by_cases hlt : max_lanes.setWidth 64 < remaining
  · have hnat : max_lanes.toNat < remaining.toNat := by
      exact hlt
    rw [if_pos hlt]
    omega
  · have hnat : remaining.toNat ≤ max_lanes.toNat := by
      exact Nat.not_lt.mp hlt
    rw [if_neg hlt, BitVec.toNat_setWidth]
    omega

/-! ## Exactness -/

section

variable {r : Roles} {comparison : Comparison} {p : RegVal × RegVal} {inf : Inference}
  {max_lanes : BitVec 32}

/-- The branch is taken `N` times from the captured value on, and then it is not. -/
def Roles.TakenFor (r : Roles) (comparison : Comparison) (N : Nat) : Prop :=
  (∀ n < N, r.takenAt comparison r.increment n = true) ∧ r.takenAt comparison r.increment N = false

/-- What is left of exactness once the quotient is known to be the number of trips. -/
theorem plan_exact_iff (hplan : plan comparison r.bound r.current r.increment = some p)
    (hstep : 0 < p.2.toNat)
    (hdist : distanceWraps comparison r.bound r.current r.increment = false → 0 < p.1.toNat)
    (hremaining : inf.remaining = roundUp p.1 p.2) (hincrement : inf.increment = r.increment)
    (hlanes : inf.lanes =
      if max_lanes.setWidth 64 < roundUp p.1 p.2 then max_lanes else (roundUp p.1 p.2).setWidth 32) :
    Exact r comparison inf max_lanes ↔
      distanceWraps comparison r.bound r.current r.increment = false ∧
        p.1.toNat + p.2.toNat < 2 ^ 64 ∧
          ∃ N : Nat, (N : Int) = trips p.1.toNat p.2.toNat ∧ r.TakenFor comparison N := by
  have hwraps : r.wraps comparison = false ↔
      distanceWraps comparison r.bound r.current r.increment = false ∧
        p.1.toNat + p.2.toNat < 2 ^ 64 := by
    unfold Roles.wraps
    have hneg : (decide (r.increment.toInt < 0) && negatedWraps r.increment) = false := by
      by_cases h : r.increment.toInt < 0
      · rw [negatedWraps_eq_false h, Bool.and_false]
      · rw [decide_eq_false h, Bool.false_and]
    rw [deltaWraps_eq_false, Bool.false_or, hneg, Bool.or_false, hplan, Option.any_some,
      Bool.or_eq_false_iff, roundUpWraps_eq_false hstep]
  constructor
  · intro h
    obtain ⟨hdistance, hsum⟩ := hwraps.mp h.no_wrap
    have htaken := h.taken
    have hends := h.ends
    rw [hremaining, hincrement] at htaken hends
    exact ⟨hdistance, hsum, (roundUp p.1 p.2).toNat, toNat_roundUp hstep hsum, htaken, hends⟩
  · rintro ⟨hdistance, hsum, N, hN, htaken, hends⟩
    have hquot := toNat_roundUp hstep hsum
    have hcount : inf.remaining.toNat = N := by
      rw [hremaining]
      omega
    have hpos := TripCount.trips_pos (d := p.1.toNat) (s := p.2.toNat) (by omega)
      (by have := hdist hdistance; omega)
    constructor
    · omega
    · rw [hcount, hincrement]
      exact htaken
    · rw [hcount, hincrement]
      exact hends
    · rw [hlanes, toNat_lanes, hremaining]
    · exact hwraps.mpr ⟨hdistance, hsum⟩

end

/-- Signed or unsigned less. -/
def lessOf (signed : Bool) : Comparison := if signed then .SignedLess else .UnsignedLess

/-- Signed or unsigned not less. -/
def greaterEqualOf (signed : Bool) : Comparison :=
  if signed then .SignedGreaterEqual else .UnsignedGreaterEqual

theorem branchTaken_lessOf (signed : Bool) (x y : RegVal) :
    branchTaken (lessOf signed) x y = decide (view signed x < view signed y) := by
  cases signed with
  | true => rfl
  | false => exact decide_eq_decide.mpr Int.ofNat_lt.symm

theorem branchTaken_greaterEqualOf (signed : Bool) (x y : RegVal) :
    branchTaken (greaterEqualOf signed) x y = decide (view signed y ≤ view signed x) := by
  cases signed with
  | true => rfl
  | false => exact decide_eq_decide.mpr Int.ofNat_le.symm

theorem plan_lessOf (signed : Bool) (bound current : RegVal) (increment : BitVec 64) :
    plan (lessOf signed) bound current increment =
      if increment.toInt ≤ 0 ∨ view signed bound ≤ view signed current then none
      else some (bound - current, increment) := by
  cases signed with
  | true => rfl
  | false => exact if_congr (or_congr_right Int.ofNat_le.symm) rfl rfl

theorem plan_greaterEqualOf (signed : Bool) (bound current : RegVal) (increment : BitVec 64) :
    plan (greaterEqualOf signed) bound current increment =
      if 0 ≤ increment.toInt ∨ view signed current < view signed bound then none
      else some (current - bound + 1, negated increment) := by
  cases signed with
  | true => rfl
  | false => exact if_congr (or_congr_right Int.ofNat_lt.symm) rfl rfl

theorem distanceWraps_lessOf {signed : Bool} {bound current : RegVal} {increment : BitVec 64}
    (h : view signed current ≤ view signed bound) :
    distanceWraps (lessOf signed) bound current increment = false ↔
      view signed bound - view signed current < room signed := by
  cases signed with
  | true => exact ssubOverflow_eq_false h
  | false =>
    have hnat : current.toNat ≤ bound.toNat := Int.ofNat_le.mp h
    refine iff_of_true (usubOverflow_eq_false hnat) ?_
    show (bound.toNat : Int) - current.toNat < 2 ^ 64
    omega

theorem distanceWraps_greaterEqualOf {signed : Bool} {bound current : RegVal}
    {increment : BitVec 64} (h : view signed bound ≤ view signed current) :
    distanceWraps (greaterEqualOf signed) bound current increment = false ↔
      view signed current - view signed bound < room signed ∧
        view signed current - view signed bound + 1 < 2 ^ 64 := by
  have hsub := toNat_sub_of_view h
  have hone : (1 : BitVec 64).toNat = 1 := rfl
  have hsucc : (current - bound).uaddOverflow 1 = false ↔
      view signed current - view signed bound + 1 < 2 ^ 64 := by
    rw [uaddOverflow_eq_false]
    omega
  rw [← hsucc]
  cases signed with
  | true =>
    show (_ || _) = false ↔ _
    rw [Bool.or_eq_false_iff, ssubOverflow_eq_false h]
    exact Iff.rfl
  | false =>
    have hnat : bound.toNat ≤ current.toNat := Int.ofNat_le.mp h
    show (_ || _) = false ↔ _
    rw [Bool.or_eq_false_iff, usubOverflow_eq_false hnat]
    refine and_congr_left fun _ => iff_of_true rfl ?_
    show (current.toNat : Int) - bound.toNat < 2 ^ 64
    omega

/-! ### Each comparison -/

section

variable {r : Roles} {p : RegVal × RegVal} {inf : Inference} {max_lanes : BitVec 32}

/-- Counting up below the bound. -/
theorem takenFor_lessOf (signed : Bool) (hside : r.boundFirst = false)
    (hinc : 0 < r.increment.toInt) (hlt : view signed r.current < view signed r.bound) {N : Nat}
    (hN : (N : Int) = trips (view signed r.bound - view signed r.current) r.increment.toInt) :
    r.TakenFor (lessOf signed) N ↔
      view signed r.current + N * r.increment.toInt < lowest signed + 2 ^ 64 := by
  have hlo := lowest_le_view signed r.current
  have hhi := view_lt signed r.bound
  have hmax := r.increment.toInt_lt
  have hat : ∀ n, r.takenAt (lessOf signed) r.increment n =
      decide (wrapTo (lowest signed) (2 ^ 64) (view signed r.current + n * r.increment.toInt) <
        view signed r.bound) := by
    intro n
    unfold Roles.takenAt
    rw [hside, if_neg Bool.false_ne_true, branchTaken_lessOf, view_inductionAt]
  have hends := TripCount.up_ends_iff (M := 2 ^ 64) hinc (by omega) hlo (by omega) hlt
  rw [← hN] at hends
  unfold Roles.TakenFor
  rw [hat N, decide_eq_false_iff_not, hends]
  refine and_iff_right_of_imp fun _ n hn => ?_
  rw [hat n, decide_eq_true_iff]
  exact TripCount.up_taken hinc hlo (by omega) (by omega) (by omega)

/-- Counting down as long as not below the bound. -/
theorem takenFor_greaterEqualOf (signed : Bool) (hside : r.boundFirst = false)
    (hinc : r.increment.toInt < 0) (hle : view signed r.bound ≤ view signed r.current) {N : Nat}
    (hN : (N : Int) =
      trips (view signed r.current - view signed r.bound + 1) (-r.increment.toInt)) :
    r.TakenFor (greaterEqualOf signed) N ↔
      lowest signed ≤ view signed r.current - N * -r.increment.toInt := by
  have hlo := lowest_le_view signed r.bound
  have hhi := view_lt signed r.current
  have hmin := r.increment.le_toInt
  have hat : ∀ n, r.takenAt (greaterEqualOf signed) r.increment n =
      decide (view signed r.bound ≤
        wrapTo (lowest signed) (2 ^ 64) (view signed r.current - n * -r.increment.toInt)) := by
    intro n
    unfold Roles.takenAt
    rw [hside, if_neg Bool.false_ne_true, branchTaken_greaterEqualOf, view_inductionAt, Int.mul_neg,
      Int.sub_neg]
  have hends := TripCount.down_ends_iff (M := 2 ^ 64) (s := -r.increment.toInt) (by omega)
    (by omega) hhi hlo hle
  rw [← hN] at hends
  unfold Roles.TakenFor
  rw [hat N, decide_eq_false_iff_not, hends]
  refine and_iff_right_of_imp fun _ n hn => ?_
  rw [hat n, decide_eq_true_iff]
  exact TripCount.down_taken (by omega) hhi hlo (by omega) (by omega)

/-- With the bound on the left a branch on less is not taken at all. -/
theorem not_takenFor_lessOf (signed : Bool) (hside : r.boundFirst = true)
    (hlt : view signed r.current < view signed r.bound) {N : Nat} (hN : 0 < N) :
    ¬ r.TakenFor (lessOf signed) N := by
  rintro ⟨htaken, _⟩
  have hfirst := htaken 0 hN
  unfold Roles.takenAt at hfirst
  rw [hside, if_pos rfl, branchTaken_lessOf, decide_eq_true_iff] at hfirst
  have hsame : view signed r.bound < view signed r.current := hfirst
  omega

/-- With the bound on the left a branch on not less is taken once, if the next value wraps. -/
theorem takenFor_greaterEqualOf_swapped (signed : Bool) (hside : r.boundFirst = true)
    (hinc : r.increment.toInt < 0) (hle : view signed r.bound ≤ view signed r.current) {N : Nat}
    (hN : (N : Int) =
      trips (view signed r.current - view signed r.bound + 1) (-r.increment.toInt)) :
    r.TakenFor (greaterEqualOf signed) N ↔ view signed r.current = view signed r.bound ∧
        view signed r.current - -r.increment.toInt < lowest signed := by
  have hlo := lowest_le_view signed r.current
  have hhi := view_lt signed r.current
  have hmin := r.increment.le_toInt
  have hat : ∀ n, r.takenAt (greaterEqualOf signed) r.increment n =
      decide (wrapTo (lowest signed) (2 ^ 64) (view signed r.current + n * r.increment.toInt) ≤
        view signed r.bound) := by
    intro n
    unfold Roles.takenAt
    rw [hside, if_pos rfl, branchTaken_greaterEqualOf, view_inductionAt]
  have hpos := TripCount.trips_pos (d := view signed r.current - view signed r.bound + 1)
    (s := -r.increment.toInt) (by omega) (by omega)
  have hfirst : r.takenAt (greaterEqualOf signed) r.increment 0 =
      decide (view signed r.current ≤ view signed r.bound) := by
    rw [hat 0, TripCount.wrapTo_of_mem (by omega) (by omega)]
    simp
  have hsecond : r.takenAt (greaterEqualOf signed) r.increment 1 =
      decide (wrapTo (lowest signed) (2 ^ 64) (view signed r.current + r.increment.toInt) ≤
        view signed r.bound) := by
    rw [hat 1, Int.natCast_one, Int.one_mul]
  have honce : view signed r.current = view signed r.bound → N = 1 := by
    intro heq
    have hone : trips (0 + 1) (-r.increment.toInt) = 1 := by
      have hge := TripCount.mul_lt_of_lt_trips (d := 0 + 1) (s := -r.increment.toInt) (by omega)
        (k := 1)
      have hpos := TripCount.trips_pos (d := 0 + 1) (s := -r.increment.toInt) (by omega) (by omega)
      omega
    rw [heq, Int.sub_self, hone] at hN
    omega
  constructor
  · rintro ⟨htaken, hends⟩
    have hle' := htaken 0 (by omega)
    rw [hfirst, decide_eq_true_iff] at hle'
    have heq : view signed r.current = view signed r.bound := by omega
    refine ⟨heq, ?_⟩
    by_contra hno
    rw [honce heq, hsecond, TripCount.wrapTo_of_mem (by omega) (by omega),
      decide_eq_false_iff_not] at hends
    omega
  · rintro ⟨heq, hwrap⟩
    rw [honce heq]
    constructor
    · intro n hn
      obtain rfl : n = 0 := by omega
      rw [hfirst, decide_eq_true_iff]
      omega
    · rw [hsecond, TripCount.wrapTo_below (by omega) (by omega), decide_eq_false_iff_not]
      omega

/-- Counting in whole steps towards the bound, on either side of the branch. -/
theorem takenFor_notEqual {s : Int} (hs : 0 < s)
    (hdvd : |view false r.bound - view false r.current| % s = 0)
    (hinc : r.increment.toInt = s ∧ view false r.current < view false r.bound ∨
      r.increment.toInt = -s ∧ view false r.bound < view false r.current) {N : Nat}
    (hN : (N : Int) = trips |view false r.bound - view false r.current| s) :
    r.TakenFor .NotEqual N := by
  have hlo := lowest_le_view false r.current
  have hhi := view_lt false r.current
  have hlo' := lowest_le_view false r.bound
  have hhi' := view_lt false r.bound
  have hat : ∀ n, r.takenAt .NotEqual r.increment n =
      decide (wrapTo (lowest false) (2 ^ 64) (view false r.current + n * r.increment.toInt) ≠
        view false r.bound) := by
    intro n
    rw [← view_inductionAt]
    have hne : ∀ x y : RegVal, (x != y) = decide (view false x ≠ view false y) := by
      intro x y
      have hiff : x ≠ y ↔ view false x ≠ view false y := by
        rw [not_iff_not, BitVec.toNat_eq]
        exact Int.ofNat_inj.symm
      rw [Bool.eq_iff_iff, bne_iff_ne, decide_eq_true_iff, hiff]
    unfold Roles.takenAt
    split
    · exact (hne _ _).trans (decide_eq_decide.mpr ne_comm)
    · exact hne _ _
  have hlast := TripCount.trips_of_dvd hs hdvd
  rw [← hN] at hlast
  constructor
  · intro n hn
    have hbefore := TripCount.mul_lt_of_lt_trips (d := |view false r.bound - view false r.current|)
      hs (k := n) (by omega)
    have hnonneg : 0 ≤ (n : Int) * s := Int.mul_nonneg (Int.natCast_nonneg n) (Int.le_of_lt hs)
    rw [hat n, decide_eq_true_iff]
    rcases hinc with ⟨hinc, hlt⟩ | ⟨hinc, hlt⟩
    · rw [abs_of_pos (by omega)] at hbefore
      rw [hinc, TripCount.wrapTo_of_mem (by omega) (by omega)]
      omega
    · rw [abs_of_neg (by omega)] at hbefore
      rw [hinc, Int.mul_neg, TripCount.wrapTo_of_mem (by omega) (by omega)]
      omega
  · rw [hat N, decide_eq_false_iff_not, not_not]
    rcases hinc with ⟨hinc, hlt⟩ | ⟨hinc, hlt⟩
    · rw [abs_of_pos (by omega)] at hlast
      rw [hinc, TripCount.wrapTo_of_mem (by omega) (by omega)]
      omega
    · rw [abs_of_neg (by omega)] at hlast
      rw [hinc, Int.mul_neg, TripCount.wrapTo_of_mem (by omega) (by omega)]
      omega

/-! ### The inference -/

theorem abs_toInt_of_pos {x : BitVec 64} (h : 0 < x.toInt) : |x.toInt| = x.toNat := by
  rw [abs_of_pos h]
  rw [toInt_eq_toNat_cond] at *
  omega

/-- The distance and the step of BNE, whichever way the register counts. -/
theorem plan_notEqual {bound current : RegVal} {increment : BitVec 64} {p : RegVal × RegVal}
    (hplan : plan .NotEqual bound current increment = some p) :
    (p.1.toNat : Int) = |view false bound - view false current| ∧
      (p.2.toNat : Int) = |increment.toInt| ∧ 0 < p.1.toNat ∧ 0 < p.2.toNat ∧
        p.1.toNat % p.2.toNat = 0 ∧ distanceWraps .NotEqual bound current increment = false ∧
            (increment.toInt = |increment.toInt| ∧ view false current < view false bound ∨
              increment.toInt = -|increment.toInt| ∧ view false bound < view false current) := by
  unfold plan at hplan
  by_cases hzero : increment.toInt = 0
  · rw [if_pos hzero] at hplan
    exact nomatch hplan
  rw [if_neg hzero] at hplan
  unfold distanceWraps
  have hview : ∀ x : RegVal, view false x = x.toNat := fun _ => rfl
  by_cases hinc : 0 < increment.toInt
  · simp only [if_pos hinc] at hplan ⊢
    by_cases hno : bound ≤ current ∨ bound - current = 0 ∨ (bound - current) % increment ≠ 0
    · rw [if_pos hno] at hplan
      exact nomatch hplan
    rw [if_neg hno] at hplan
    obtain rfl := Option.some.inj hplan
    obtain ⟨hlt, hpos, hmod⟩ := by simpa only [not_or, not_not] using hno
    have hlt : current.toNat < bound.toNat := Nat.not_le.mp hlt
    have hsub : ((bound - current).toNat : Int) = bound.toNat - current.toNat :=
      @toNat_sub_of_view false _ _ (Int.ofNat_le.mpr (Nat.le_of_lt hlt))
    have hstep := abs_toInt_of_pos hinc
    have habs := abs_of_pos hinc
    have hdistance : 0 < (bound - current).toNat := by omega
    have hmagnitude : 0 < increment.toNat := by omega
    rw [hview, hview, abs_of_pos (by omega)]
    refine ⟨hsub, hstep.symm, hdistance, hmagnitude, ?_,
      usubOverflow_eq_false (Nat.le_of_lt hlt), .inl ⟨habs.symm, by omega⟩⟩
    exact congrArg BitVec.toNat hmod
  · simp only [if_neg hinc] at hplan ⊢
    have hneg : increment.toInt < 0 := by omega
    by_cases hno : current ≤ bound ∨ current - bound = 0 ∨ (current - bound) % negated increment ≠ 0
    · rw [if_pos hno] at hplan
      exact nomatch hplan
    rw [if_neg hno] at hplan
    obtain rfl := Option.some.inj hplan
    obtain ⟨hlt, hpos, hmod⟩ := by simpa only [not_or, not_not] using hno
    have hlt : bound.toNat < current.toNat := Nat.not_le.mp hlt
    have hsub : ((current - bound).toNat : Int) = current.toNat - bound.toNat :=
      @toNat_sub_of_view false _ _ (Int.ofNat_le.mpr (Nat.le_of_lt hlt))
    have hstep := toNat_negated hneg
    have habs := abs_of_neg hneg
    have hdistance : 0 < (current - bound).toNat := by omega
    have hmagnitude : 0 < (negated increment).toNat := by omega
    rw [hview, hview, abs_of_neg (by omega), Int.neg_sub]
    refine ⟨hsub, hstep.trans habs.symm, hdistance, hmagnitude, ?_,
      usubOverflow_eq_false (Nat.le_of_lt hlt), .inr ⟨by omega, by omega⟩⟩
    exact congrArg BitVec.toNat hmod

variable (hremaining : inf.remaining = roundUp p.1 p.2) (hincrement : inf.increment = r.increment)
  (hlanes : inf.lanes =
    if max_lanes.setWidth 64 < roundUp p.1 p.2 then max_lanes else (roundUp p.1 p.2).setWidth 32)

include hremaining hincrement hlanes

theorem exact_lessOf_iff (signed : Bool)
    (hplan : plan (lessOf signed) r.bound r.current r.increment = some p) :
    Exact r (lessOf signed) inf max_lanes ↔ Roles.CountsOut.less r signed := by
  have hcond := hplan
  rw [plan_lessOf] at hcond
  by_cases hno : r.increment.toInt ≤ 0 ∨ view signed r.bound ≤ view signed r.current
  · rw [if_pos hno] at hcond
    exact nomatch hcond
  rw [if_neg hno] at hcond
  obtain ⟨hinc, hlt⟩ : 0 < r.increment.toInt ∧ view signed r.current < view signed r.bound := by
    omega
  have hstep : (p.2.toNat : Int) = r.increment.toInt := by
    rw [← Option.some.inj hcond, ← abs_toInt_of_pos hinc, abs_of_pos hinc]
  have hdistance : (p.1.toNat : Int) = view signed r.bound - view signed r.current := by
    rw [← Option.some.inj hcond]
    exact toNat_sub_of_view (Int.le_of_lt hlt)
  rw [plan_exact_iff hplan (by omega) (fun _ => by omega) hremaining hincrement hlanes,
    distanceWraps_lessOf (Int.le_of_lt hlt), hdistance, hstep]
  unfold Roles.CountsOut.less
  rw [abs_of_pos hinc]
  have hpos := TripCount.trips_pos (d := view signed r.bound - view signed r.current)
    (s := r.increment.toInt) hinc (by omega)
  constructor
  · rintro ⟨hroom, hsum, N, hN, htaken⟩
    have hside : r.boundFirst = false := by
      by_contra hside
      exact not_takenFor_lessOf signed (by simpa using hside) hlt (by omega) htaken
    refine ⟨hside, hroom, by omega, ?_⟩
    rw [← hN]
    exact (takenFor_lessOf signed hside hinc hlt hN).mp htaken
  · rintro ⟨hside, hroom, hsum, hlast⟩
    obtain ⟨N, hN⟩ := Int.eq_ofNat_of_zero_le (Int.le_of_lt hpos)
    rw [hN] at hlast
    exact ⟨hroom, by omega, N, hN.symm, (takenFor_lessOf signed hside hinc hlt hN.symm).mpr hlast⟩

theorem exact_greaterEqualOf_iff (signed : Bool)
    (hplan : plan (greaterEqualOf signed) r.bound r.current r.increment = some p) :
    Exact r (greaterEqualOf signed) inf max_lanes ↔ Roles.CountsOut.greaterEqual r signed := by
  have hcond := hplan
  rw [plan_greaterEqualOf] at hcond
  by_cases hno : 0 ≤ r.increment.toInt ∨ view signed r.current < view signed r.bound
  · rw [if_pos hno] at hcond
    exact nomatch hcond
  rw [if_neg hno] at hcond
  obtain ⟨hinc, hle⟩ : r.increment.toInt < 0 ∧ view signed r.bound ≤ view signed r.current := by
    omega
  have hstep : (p.2.toNat : Int) = -r.increment.toInt := by
    rw [← Option.some.inj hcond]
    exact toNat_negated hinc
  have hsub := toNat_sub_of_view hle
  have hone : (1 : BitVec 64).toNat = 1 := rfl
  have hdistance : view signed r.current - view signed r.bound + 1 < 2 ^ 64 →
      (p.1.toNat : Int) = view signed r.current - view signed r.bound + 1 := by
    intro hroom
    rw [← Option.some.inj hcond, toNat_add]
    omega
  rw [plan_exact_iff hplan (by omega) (fun hwraps => by
      have hroom := ((distanceWraps_greaterEqualOf hle).mp hwraps).2
      omega)
    hremaining hincrement hlanes, distanceWraps_greaterEqualOf hle]
  unfold Roles.CountsOut.greaterEqual
  rw [abs_of_neg hinc]
  have hpos := TripCount.trips_pos (d := view signed r.current - view signed r.bound + 1)
    (s := -r.increment.toInt) (by omega) (by omega)
  constructor
  · rintro ⟨⟨hroom, hsucc⟩, hsum, N, hN, htaken⟩
    rw [hdistance hsucc, hstep] at hN
    refine ⟨hroom, by have := hdistance hsucc; omega, ?_⟩
    by_cases hside : r.boundFirst = true
    · rw [if_pos hside]
      exact (takenFor_greaterEqualOf_swapped signed hside hinc hle hN).mp htaken
    · rw [if_neg hside, ← hN]
      exact (takenFor_greaterEqualOf signed (by simpa using hside) hinc hle hN).mp htaken
  · rintro ⟨hroom, hsum, hlast⟩
    have hsucc : view signed r.current - view signed r.bound + 1 < 2 ^ 64 := by omega
    obtain ⟨N, hN⟩ := Int.eq_ofNat_of_zero_le (Int.le_of_lt hpos)
    refine ⟨⟨hroom, hsucc⟩, by have := hdistance hsucc; omega, N, ?_, ?_⟩
    · rw [hdistance hsucc, hstep]
      exact hN.symm
    · by_cases hside : r.boundFirst = true
      · rw [if_pos hside] at hlast
        exact (takenFor_greaterEqualOf_swapped signed hside hinc hle hN.symm).mpr hlast
      · rw [if_neg hside, hN] at hlast
        exact (takenFor_greaterEqualOf signed (by simpa using hside) hinc hle hN.symm).mpr hlast

theorem exact_notEqual_iff (hplan : plan .NotEqual r.bound r.current r.increment = some p) :
    Exact r .NotEqual inf max_lanes ↔ r.CountsOut .NotEqual := by
  obtain ⟨hdistance, hstep, hpos, hstepPos, hmod, hwraps, hways⟩ := plan_notEqual hplan
  rw [plan_exact_iff hplan hstepPos (fun _ => hpos) hremaining hincrement hlanes, hdistance, hstep]
  unfold Roles.CountsOut
  constructor
  · rintro ⟨_, hsum, _⟩
    omega
  · intro hsum
    have htrips := TripCount.trips_pos (d := |view false r.bound - view false r.current|)
      (s := |r.increment.toInt|) (by omega) (by omega)
    obtain ⟨N, hN⟩ := Int.eq_ofNat_of_zero_le (Int.le_of_lt htrips)
    refine ⟨hwraps, by omega, N, hN.symm, takenFor_notEqual (by omega) ?_ hways hN.symm⟩
    rw [← hdistance, ← hstep]
    exact_mod_cast hmod

end

/-- The inference is exact. -/
def Detector.InfersExactly (d : Detector) (start finish : Snapshot) (max_lanes : BitVec 32) : Prop :=
  ∃ r ∈ d.roles start finish, Exact r d.comparison (d.infer start finish max_lanes) max_lanes

/-- For every detector, every two snapshots and every number of lanes: a matched inference is exact if
    and only if the register that moves is on the side that the comparison counts on and no value up
    to the one that ends the loop leaves its range. -/
theorem infer_exact_iff (d : Detector) (start finish : Snapshot) (max_lanes : BitVec 32)
    (hmatched : (d.infer start finish max_lanes).matched = true) :
    d.InfersExactly start finish max_lanes ↔
      ∃ r ∈ d.roles start finish, r.CountsOut d.comparison := by
  unfold Detector.InfersExactly
  unfold Detector.infer at hmatched ⊢
  cases hroles : d.roles start finish with
  | none =>
    rw [hroles] at hmatched
    exact Bool.noConfusion hmatched
  | some r =>
    cases hplan : plan d.comparison r.bound r.current r.increment with
    | none =>
      rw [hroles] at hmatched
      dsimp only at hmatched
      rw [hplan] at hmatched
      exact Bool.noConfusion hmatched
    | some p =>
      dsimp only
      rw [hplan]
      refine exists_congr fun r' => and_congr_right fun hr => ?_
      obtain rfl : r = r' := Option.some.inj hr
      generalize d.comparison = comparison at hplan
      cases comparison with
      | SignedLess => exact exact_lessOf_iff rfl rfl rfl true hplan
      | UnsignedLess => exact exact_lessOf_iff rfl rfl rfl false hplan
      | SignedGreaterEqual => exact exact_greaterEqualOf_iff rfl rfl rfl true hplan
      | UnsignedGreaterEqual => exact exact_greaterEqualOf_iff rfl rfl rfl false hplan
      | NotEqual => exact exact_notEqual_iff rfl rfl rfl hplan
      | Equal => exact nomatch hplan
      | Unknown => exact nomatch hplan

/-- `BLT x5, x6` at `0x24`, back to `0x10`. -/
def branchOnLess : Inst where
  pc := 0x24#64
  encoded := 0xfe62c6e3#64
  srcRegs := [regId 5, regId 6]
  isCondCtrl := true
  isDirectCtrl := true
  branchTarget := some 0x10#64

/-- The detector that has found it. -/
def foundLess : Detector :=
  ((begin 0x14#64).updateFinalLoad 0x18#64).observeAll [(branchOnLess, none)]

/-- A snapshot of `x5` and `x6`. -/
def snapshot (x5 x6 : RegVal) : Snapshot := fun reg =>
  if reg = 5 then x5 else if reg = 6 then x6 else 0

/-- `x5` counts up to `x6`. -/
theorem infer_exact_counting : foundLess.InfersExactly (snapshot 0 100) (snapshot 1 100) 128 :=
  (infer_exact_iff foundLess (snapshot 0 100) (snapshot 1 100) 128 (by decide)).mpr
    ⟨⟨false, 100, 1, 0⟩, by decide, rfl, by decide, by decide, by decide⟩

/-- The other way round: `x6` moves away from below `x5`, 99 turns are predicted, and the branch is not
    taken once. -/
theorem infer_not_exact_swapped :
    (foundLess.infer (snapshot 100 0) (snapshot 100 1) 128).matched = true ∧
      ¬ foundLess.InfersExactly (snapshot 100 0) (snapshot 100 1) 128 := by
  refine ⟨by decide, ?_⟩
  rintro ⟨r, hr, hexact⟩
  have hroles : foundLess.roles (snapshot 100 0) (snapshot 100 1) = some ⟨true, 100, 1, 0⟩ := by decide
  obtain rfl := Option.some.inj (hroles.symm.trans hr)
  have hfirst := hexact.taken 0 hexact.remaining_pos
  exact Bool.noConfusion (hfirst.symm.trans (by decide : _ = false))

end Gem5Dvr.LoopBound
