/-
  Training of the affine relation between a source value and the address of a dependent load
  (`CPU::trainDVRAddressRelation`, `cpu/o3/cpu.cc` 5951-5993).

    1. **Program** — one relation per trigger and load.  An `int64_t` operation whose result does
       not fit has no defined result: the call fails and names the operation.  The difference that
       gives the offset wraps.
    2. **Specification** — `Exact`: what a relation says of the samples it was trained on.
    3. **The crux (`learn_spec`)** — of two samples in a row the first division is safe unless the
       address moves by `-2^63` and the value by one; past it only the product for the offset can
       overflow (`Safe`).

  Samples are counted in 32 bits: after `2^32` of them the next one counts as the first.
-/
import Mathlib.Tactic.Ring
import Mathlib.Data.BitVec
import Gem5Dvr.Uop

namespace Gem5Dvr.AddressRelation

open List
open BitVec (allOnes getLsbD_and ofInt ofInt_mul ofInt_toInt ofNat)

/-! ## Signed arithmetic -/

/-- A signed operation that overflowed. -/
inductive SignedOp
  | remainder | division | negation | multiplication
  deriving DecidableEq, Repr

/-- The value fits an `int64_t`. -/
def InInt64 (x : Int) : Prop := -2 ^ 63 ≤ x ∧ x < 2 ^ 63

instance (x : Int) : Decidable (InInt64 x) := inferInstanceAs (Decidable (_ ∧ _))

/-- The result of a signed operation. -/
def checked (op : SignedOp) (x : Int) : Except SignedOp Int :=
  if InInt64 x then .ok x else .error op

/-- `a % b` is undefined where `a / b` is not representable. -/
def remainder (a b : Int) : Except SignedOp Int :=
  (checked .remainder (a.tdiv b)).map fun _ => a.tmod b

/-- `std::abs`. -/
def absolute (a : Int) : Except SignedOp Int := checked .negation (if a < 0 then -a else a)

/-! ## The program -/

structure DVRAddressRelation where
  hasPrevious : Bool := false
  trained : Bool := false
  previousValue : RegVal := 0
  previousAddress : Addr := 0
  scale : BitVec 64 := 0
  offset : BitVec 64 := 0
  stableMask : RegVal := allOnes 64
  pattern : RegVal := 0
  minAddress : Addr := 0
  maxAddress : Addr := 0
  samples : BitVec 32 := 0

namespace DVRAddressRelation

variable (r : DVRAddressRelation)

/-- The masks and the bounds. -/
def widen (source_value : RegVal) (dependent_address : Addr) : DVRAddressRelation :=
  if r.samples = 0 then
    { r with
      pattern := source_value
      minAddress := dependent_address
      maxAddress := dependent_address }
  else
    let stableMask := r.stableMask &&& ~~~(r.previousValue ^^^ source_value)
    { r with
      stableMask := stableMask
      pattern := r.pattern &&& stableMask
      minAddress :=
        if dependent_address < r.minAddress then dependent_address else r.minAddress
      maxAddress :=
        if r.maxAddress < dependent_address then dependent_address else r.maxAddress }

/-- A sample whose value differs from the one before. -/
def learn (source_value : RegVal) (dependent_address : Addr) :
    Except SignedOp DVRAddressRelation :=
  let value_delta := (source_value - r.previousValue).toInt
  let address_delta := (dependent_address - r.previousAddress).toInt
  if value_delta = 0 then .ok r
  else
    (remainder address_delta value_delta).bind fun rem =>
    if rem ≠ 0 then .ok r
    else
      (checked .division (address_delta.tdiv value_delta)).bind fun scale =>
      if scale = 0 then .ok r
      else
        (absolute scale).bind fun magnitude =>
        if magnitude ≤ 4096 then
          (checked .multiplication (scale * source_value.toInt)).map fun product =>
            { r with
              scale := ofInt 64 scale
              offset := dependent_address - ofInt 64 product
              trained := true }
        else .ok r

/-- `trainDVRAddressRelation`. -/
def train (source_value : RegVal) (dependent_address : Addr) :
    Except SignedOp DVRAddressRelation :=
  let r := r.widen source_value dependent_address
  let r := { r with samples := r.samples + 1 }
  (if r.hasPrevious = true ∧ source_value ≠ r.previousValue then
      r.learn source_value dependent_address
    else .ok r).map fun r =>
    { r with
      hasPrevious := true
      previousValue := source_value
      previousAddress := dependent_address }

end DVRAddressRelation

structure Sample where
  value : RegVal
  address : Addr
  deriving DecidableEq

/-- A sequence of calls. -/
def run (r : DVRAddressRelation) : List Sample → Except SignedOp DVRAddressRelation
  | [] => .ok r
  | x :: xs => (r.train x.value x.address).bind fun r => run r xs

/-! ## The specification -/

section Pair

variable (p : Sample × Sample)

def valueDelta : Int := (p.2.value - p.1.value).toInt

def addressDelta : Int := (p.2.address - p.1.address).toInt

def scaleOf : Int := (addressDelta p).tdiv (valueDelta p)

/-- Two samples in a row that update the relation. -/
def Trains : Prop := valueDelta p ≠ 0 ∧ (addressDelta p).tmod (valueDelta p) = 0 ∧ scaleOf p ≠ 0 ∧
    (scaleOf p).natAbs ≤ 4096

instance : Decidable (Trains p) := inferInstanceAs (Decidable (_ ∧ _))

/-- No signed operation overflows on them. -/
def Safe : Prop := ¬ (addressDelta p = -2 ^ 63 ∧ (valueDelta p).natAbs = 1) ∧
    (Trains p → InInt64 (scaleOf p * p.2.value.toInt))

instance : Decidable (Safe p) := inferInstanceAs (Decidable (_ ∧ _))

end Pair

/-- The pairs of samples in a row. -/
def pairs (samples : List Sample) : List (Sample × Sample) := samples.zip samples.tail

/-- The pair that last updated the relation. -/
def lastTrained (samples : List Sample) : Option (Sample × Sample) :=
  ((pairs samples).filter fun p => decide (Trains p)).getLast?

/-- The relation is that of the samples. -/
structure Exact (samples : List Sample) (r : DVRAddressRelation) : Prop where
  stable : ∀ i < 64, r.stableMask.getLsbD i = true ↔
    ∀ x ∈ samples, ∀ y ∈ samples, x.value.getLsbD i = y.value.getLsbD i
  pattern : ∀ x ∈ samples, r.pattern = x.value &&& r.stableMask
  min_le : ∀ x ∈ samples, r.minAddress ≤ x.address
  min_mem : samples ≠ [] → ∃ x ∈ samples, x.address = r.minAddress
  le_max : ∀ x ∈ samples, x.address ≤ r.maxAddress
  max_mem : samples ≠ [] → ∃ x ∈ samples, x.address = r.maxAddress
  trained : r.trained = (lastTrained samples).isSome
  affine : ∀ p ∈ lastTrained samples, p.1.address = r.scale * p.1.value + r.offset ∧
    p.2.address = r.scale * p.2.value + r.offset
  scale : ∀ p ∈ lastTrained samples, 0 < r.scale.toInt.natAbs ∧ r.scale.toInt.natAbs ≤ 4096

/-! ## One pair -/

theorem inInt64_toInt (x : BitVec 64) : InInt64 x.toInt := ⟨BitVec.le_toInt x, BitVec.toInt_lt⟩

variable {x : Int} {samples : List Sample} {r : DVRAddressRelation}

theorem inInt64_of_natAbs (h : x.natAbs < 2 ^ 63) : InInt64 x := by
  constructor <;> omega

/-- A quotient of full magnitude is one of full magnitude by one. -/
theorem natAbs_tdiv_lt {a b : Int} (ha : InInt64 a) (h : ¬ (a = -2 ^ 63 ∧ b.natAbs = 1)) :
    (a.tdiv b).natAbs < 2 ^ 63 := by
  obtain ⟨_, hhi⟩ := ha
  rw [Int.natAbs_tdiv]
  show a.natAbs / b.natAbs < 2 ^ 63
  by_cases hb : b.natAbs = 1
  · have hne : a ≠ -2 ^ 63 := fun hmin => h ⟨hmin, hb⟩
    rw [hb, Nat.div_one]
    omega
  · rcases Nat.eq_zero_or_pos b.natAbs with hzero | hpos
    · rw [hzero, Nat.div_zero]
      exact Nat.two_pow_pos 63
    · have hle : a.natAbs / b.natAbs ≤ a.natAbs / 2 := Nat.div_le_div_left (by omega) (by decide)
      omega

theorem toInt_sub_ne_zero {a b : BitVec 64} (h : a ≠ b) : (a - b).toInt ≠ 0 := by
  intro hz
  have hsub : a - b = 0#64 := BitVec.eq_of_toInt_eq (by rw [hz]; rfl)
  exact h (sub_eq_zero.mp hsub)

/-- What a pair teaches. -/
def taught (r : DVRAddressRelation) (p : Sample × Sample) : DVRAddressRelation :=
  if Trains p then
    { r with
      scale := ofInt 64 (scaleOf p)
      offset := p.2.address - ofInt 64 (scaleOf p * p.2.value.toInt)
      trained := true }
  else r

theorem checked_ok {op : SignedOp} (h : InInt64 x) : checked op x = .ok x := if_pos h

theorem checked_error {op : SignedOp} (h : ¬ InInt64 x) : checked op x = .error op := if_neg h

theorem learn_spec (r : DVRAddressRelation) (x y : Sample) (hv : r.previousValue = x.value)
    (ha : r.previousAddress = x.address) (hne : y.value ≠ x.value) :
    (Safe (x, y) ∧ r.learn y.value y.address = .ok (taught r (x, y))) ∨
    (¬ Safe (x, y) ∧ ∃ op, r.learn y.value y.address = .error op) := by
  have hin : InInt64 (addressDelta (x, y)) := inInt64_toInt _
  have hvd : valueDelta (x, y) ≠ 0 := toInt_sub_ne_zero hne
  have hunfold : r.learn y.value y.address =
      (remainder (addressDelta (x, y)) (valueDelta (x, y))).bind fun rem =>
      if rem ≠ 0 then .ok r
      else
        (checked .division (scaleOf (x, y))).bind fun scale =>
        if scale = 0 then .ok r
        else
          (absolute scale).bind fun magnitude =>
          if magnitude ≤ 4096 then
            (checked .multiplication (scale * y.value.toInt)).map fun product =>
              { r with
                scale := ofInt 64 scale
                offset := y.address - ofInt 64 product
                trained := true }
          else .ok r := by
    unfold DVRAddressRelation.learn
    rw [hv, ha]
    exact if_neg hvd
  rw [hunfold]
  clear hunfold
  unfold remainder
  by_cases hbad : addressDelta (x, y) = -2 ^ 63 ∧ (valueDelta (x, y)).natAbs = 1
  · refine .inr ⟨fun h => h.1 hbad, ?_⟩
    obtain ⟨hmin, hone⟩ := hbad
    rcases Int.natAbs_eq_iff.mp hone with hpos | hneg
    · -- by 1: the quotient is `-2^63`, which has no absolute value
      have hq : scaleOf (x, y) = -2 ^ 63 := by
        unfold scaleOf
        rw [hmin, hpos]
        decide
      have hrem : (addressDelta (x, y)).tmod (valueDelta (x, y)) = 0 := by
        rw [hmin, hpos]
        decide
      refine ⟨.negation, ?_⟩
      have hmod : checked .remainder (-2 ^ 63) = .ok (-2 ^ 63) := checked_ok (by decide)
      have hdiv : checked .division (-2 ^ 63) = .ok (-2 ^ 63) := checked_ok (by decide)
      have habs : absolute (-2 ^ 63) = .error .negation := checked_error (by decide)
      rw [show (addressDelta (x, y)).tdiv (valueDelta (x, y)) = -2 ^ 63 from hq, hq, hrem, hmod,
        hdiv]
      rfl
    · refine ⟨.remainder, ?_⟩
      have hq : (addressDelta (x, y)).tdiv (valueDelta (x, y)) = 2 ^ 63 := by
        rw [hmin, hneg]
        decide
      rw [hq, checked_error (by decide)]
      rfl
  · have hlt : (scaleOf (x, y)).natAbs < 2 ^ 63 := natAbs_tdiv_lt hin hbad
    have hq : InInt64 (scaleOf (x, y)) := inInt64_of_natAbs hlt
    rw [show checked .remainder ((addressDelta (x, y)).tdiv (valueDelta (x, y))) = .ok _ from
      checked_ok hq]
    show (Safe (x, y) ∧ (if (addressDelta (x, y)).tmod (valueDelta (x, y)) ≠ 0 then _ else _) = _) ∨
      (_ ∧ ∃ op, (if (addressDelta (x, y)).tmod (valueDelta (x, y)) ≠ 0 then _ else _) = _)
    -- a pair that does not train is safe
    have hidle : ¬ Trains (x, y) → Safe (x, y) ∧ taught r (x, y) = r := fun hno =>
      ⟨⟨hbad, fun ht => absurd ht hno⟩, if_neg hno⟩
    by_cases hrem : (addressDelta (x, y)).tmod (valueDelta (x, y)) = 0
    · rw [if_neg fun h => h hrem, checked_ok hq]
      show (Safe (x, y) ∧ (if scaleOf (x, y) = 0 then _ else _) = _) ∨
        (_ ∧ ∃ op, (if scaleOf (x, y) = 0 then _ else _) = _)
      by_cases hzero : scaleOf (x, y) = 0
      · obtain ⟨hsafe, hsame⟩ := hidle fun ht => ht.2.2.1 hzero
        rw [if_pos hzero, hsame]
        exact .inl ⟨hsafe, rfl⟩
      · rw [if_neg hzero]
        have habs : absolute (scaleOf (x, y)) = .ok ((scaleOf (x, y)).natAbs : Int) := by
          have heq : (if scaleOf (x, y) < 0 then -scaleOf (x, y) else scaleOf (x, y)) =
              ((scaleOf (x, y)).natAbs : Int) := by
            split <;> omega
          unfold absolute
          rw [heq]
          exact checked_ok (inInt64_of_natAbs (by omega))
        rw [habs]
        show (Safe (x, y) ∧ (if ((scaleOf (x, y)).natAbs : Int) ≤ 4096 then _ else _) = _) ∨
          (_ ∧ ∃ op, (if ((scaleOf (x, y)).natAbs : Int) ≤ 4096 then _ else _) = _)
        by_cases hsmall : (scaleOf (x, y)).natAbs ≤ 4096
        · have ht : Trains (x, y) := ⟨hvd, hrem, hzero, hsmall⟩
          have hcast : ((scaleOf (x, y)).natAbs : Int) ≤ 4096 := by omega
          rw [if_pos hcast]
          by_cases hprod : InInt64 (scaleOf (x, y) * y.value.toInt)
          · refine .inl ⟨⟨hbad, fun _ => hprod⟩, ?_⟩
            rw [checked_ok hprod, show taught r (x, y) = _ from if_pos ht]
            rfl
          · refine .inr ⟨fun h => hprod (h.2 ht), .multiplication, ?_⟩
            rw [checked_error hprod]
            rfl
        · obtain ⟨hsafe, hsame⟩ := hidle fun ht => hsmall ht.2.2.2
          have hcast : ¬ ((scaleOf (x, y)).natAbs : Int) ≤ 4096 := by omega
          rw [if_neg hcast, hsame]
          exact .inl ⟨hsafe, rfl⟩
    · obtain ⟨hsafe, hsame⟩ := hidle fun ht => hrem ht.2.1
      rw [if_pos hrem, hsame]
      exact .inl ⟨hsafe, rfl⟩

/-- The line through the two samples. -/
theorem affine_of_trains {p : Sample × Sample} (h : Trains p) :
    p.1.address = ofInt 64 (scaleOf p) * p.1.value +
        (p.2.address - ofInt 64 (scaleOf p * p.2.value.toInt)) ∧
      p.2.address = ofInt 64 (scaleOf p) * p.2.value +
        (p.2.address - ofInt 64 (scaleOf p * p.2.value.toInt)) := by
  have hprod : ofInt 64 (scaleOf p * p.2.value.toInt) =
      ofInt 64 (scaleOf p) * p.2.value := by
    rw [ofInt_mul, ofInt_toInt]
  have hdelta : p.2.address - p.1.address =
      ofInt 64 (scaleOf p) * (p.2.value - p.1.value) := by
    have hexact : scaleOf p * valueDelta p = addressDelta p := by
      have hdiv := Int.tdiv_mul_add_tmod (addressDelta p) (valueDelta p)
      rw [h.2.1, Int.add_zero] at hdiv
      exact hdiv
    have hword := congrArg (ofInt 64) hexact
    rw [ofInt_mul, valueDelta, addressDelta, ofInt_toInt, ofInt_toInt] at hword
    exact hword.symm
  rw [hprod]
  constructor
  · have hfirst : p.1.address = p.2.address - (p.2.address - p.1.address) := by ring
    rw [hdelta] at hfirst
    rw [hfirst]
    ring
  · ring

/-! ## A sequence of calls -/

theorem pairs_concat (samples : List Sample) (x y : Sample) :
    pairs (samples ++ [x] ++ [y]) = pairs (samples ++ [x]) ++ [(x, y)] := by
  induction samples with
  | nil => rfl
  | cons z rest ih =>
    cases rest with
    | nil => rfl
    | cons z' rest => exact congrArg ((z, z') :: ·) ih

theorem lastTrained_concat (samples : List Sample) (x y : Sample) :
    lastTrained (samples ++ [x] ++ [y]) =
      if Trains (x, y) then some (x, y) else lastTrained (samples ++ [x]) := by
  unfold lastTrained
  rw [pairs_concat, filter_append]
  by_cases ht : Trains (x, y)
  · have hone : [(x, y)].filter (fun p => decide (Trains p)) = [(x, y)] := by simp [ht]
    rw [if_pos ht, hone, getLast?_append]
    rfl
  · have hnone : [(x, y)].filter (fun p => decide (Trains p)) = [] := by simp [ht]
    rw [if_neg ht, hnone, append_nil]

/-- After the samples, of which `x` is the last. -/
structure Seen (samples : List Sample) (x : Sample) (r : DVRAddressRelation) : Prop where
  exact : Exact (samples ++ [x]) r
  hasPrevious : r.hasPrevious = true
  value : r.previousValue = x.value
  address : r.previousAddress = x.address
  samples : r.samples = ofNat 32 (samples.length + 1)

/-- The first sample: nothing is compared. -/
theorem seen_first (x : Sample) :
    ∃ r, DVRAddressRelation.train {} x.value x.address = .ok r ∧ Seen [] x r := by
  refine ⟨_, rfl, ?_, rfl, rfl, rfl, rfl⟩
  have hmem : ∀ y ∈ ([] ++ [x] : List Sample), y = x := fun y hy => by simpa using hy
  constructor
  · intro i hi
    refine ⟨fun _ y hy z hz => by rw [hmem y hy, hmem z hz], fun _ => ?_⟩
    show (allOnes 64).getLsbD i = true
    rw [BitVec.getLsbD_allOnes, decide_eq_true hi]
  · intro y hy
    rw [hmem y hy]
    exact BitVec.and_allOnes.symm
  · intro y hy
    rw [hmem y hy]
    exact BitVec.le_refl _
  · exact fun _ => ⟨x, mem_singleton.mpr rfl, rfl⟩
  · intro y hy
    rw [hmem y hy]
    exact BitVec.le_refl _
  · exact fun _ => ⟨x, mem_singleton.mpr rfl, rfl⟩
  · rfl
  · exact fun p hp => nomatch hp
  · exact fun p hp => nomatch hp

/-- The masks and the bounds after one more sample. -/
structure Widened (samples : List Sample) (r r' : DVRAddressRelation) : Prop where
  stable : ∀ i < 64, r'.stableMask.getLsbD i = true ↔
    ∀ x ∈ samples, ∀ y ∈ samples, x.value.getLsbD i = y.value.getLsbD i
  pattern : ∀ x ∈ samples, r'.pattern = x.value &&& r'.stableMask
  min_le : ∀ x ∈ samples, r'.minAddress ≤ x.address
  min_mem : ∃ x ∈ samples, x.address = r'.minAddress
  le_max : ∀ x ∈ samples, x.address ≤ r'.maxAddress
  max_mem : ∃ x ∈ samples, x.address = r'.maxAddress
  rest : r' = { r with
    stableMask := r'.stableMask, pattern := r'.pattern, minAddress := r'.minAddress,
    maxAddress := r'.maxAddress }

theorem Seen.widen {x : Sample}
    (h : Seen samples x r) (hlen : samples.length + 1 < 2 ^ 32) (y : Sample) :
    Widened (samples ++ [x] ++ [y]) r (r.widen y.value y.address) := by
  have hcount : r.samples ≠ 0 := by
    rw [h.samples]
    intro hzero
    have hval := congrArg BitVec.toNat hzero
    rw [BitVec.toNat_ofNat, Nat.mod_eq_of_lt hlen] at hval
    exact Nat.succ_ne_zero _ hval
  have hx : x ∈ samples ++ [x] := mem_append_right _ (mem_singleton.mpr rfl)
  have hmem : ∀ z, z ∈ samples ++ [x] ++ [y] ↔ z ∈ samples ++ [x] ∨ z = y := fun z => by
    rw [mem_append, mem_singleton]
  have he := h.exact
  have hbit : ∀ i, (r.stableMask &&& ~~~(r.previousValue ^^^ y.value)).getLsbD i =
      (r.stableMask.getLsbD i && (x.value.getLsbD i == y.value.getLsbD i)) := by
    intro i
    rw [h.value, getLsbD_and, BitVec.getLsbD_not, BitVec.getLsbD_xor]
    by_cases hi : i < 64
    · rw [decide_eq_true hi, Bool.true_and]
      cases x.value.getLsbD i <;> cases y.value.getLsbD i <;> rfl
    · rw [BitVec.getLsbD_of_ge r.stableMask i (by omega), Bool.false_and, Bool.false_and]
  unfold DVRAddressRelation.widen
  rw [if_neg hcount]
  constructor
  · intro i hi
    show (r.stableMask &&& ~~~(r.previousValue ^^^ y.value)).getLsbD i = true ↔ _
    rw [hbit, Bool.and_eq_true, he.stable i hi, beq_iff_eq]
    constructor
    · rintro ⟨hall, hxy⟩ a ha b hb
      have hto : ∀ z ∈ samples ++ [x] ++ [y], z.value.getLsbD i = x.value.getLsbD i := by
        intro z hz
        rcases (hmem z).mp hz with hz | rfl
        · exact hall z hz x hx
        · exact hxy.symm
      rw [hto a ha, hto b hb]
    · intro hall
      exact ⟨fun a ha b hb => hall a ((hmem a).mpr (.inl ha)) b ((hmem b).mpr (.inl hb)),
        hall x ((hmem x).mpr (.inl hx)) y ((hmem y).mpr (.inr rfl))⟩
  · intro z hz
    show r.pattern &&& (r.stableMask &&& ~~~(r.previousValue ^^^ y.value)) =
      z.value &&& (r.stableMask &&& ~~~(r.previousValue ^^^ y.value))
    apply BitVec.eq_of_getLsbD_eq
    intro i hi
    have hpat : ∀ a ∈ samples ++ [x], r.pattern.getLsbD i =
        (a.value.getLsbD i && r.stableMask.getLsbD i) := by
      intro a ha
      rw [he.pattern a ha, getLsbD_and]
    have hand : ∀ a : RegVal,
        (a &&& (r.stableMask &&& ~~~(r.previousValue ^^^ y.value))).getLsbD i =
          (a.getLsbD i && (r.stableMask.getLsbD i && (x.value.getLsbD i == y.value.getLsbD i))) :=
      fun a => by rw [getLsbD_and, hbit]
    rw [hand, hand]
    rcases (hmem z).mp hz with hz | rfl
    · rw [hpat z hz]
      cases z.value.getLsbD i <;> cases r.stableMask.getLsbD i <;> rfl
    · rw [hpat x hx]
      cases x.value.getLsbD i <;> cases r.stableMask.getLsbD i <;> cases z.value.getLsbD i <;> rfl
  · intro z hz
    show (if y.address < r.minAddress then y.address else r.minAddress) ≤ z.address
    split
    · rename_i hlt
      rcases (hmem z).mp hz with hz | rfl
      · exact Nat.le_of_lt (Nat.lt_of_lt_of_le hlt (he.min_le z hz))
      · exact BitVec.le_refl _
    · rename_i hge
      rcases (hmem z).mp hz with hz | rfl
      · exact he.min_le z hz
      · exact BitVec.not_lt.mp hge
  · show ∃ z ∈ samples ++ [x] ++ [y], z.address = if y.address < r.minAddress then y.address else r.minAddress
    split
    · exact ⟨y, (hmem y).mpr (.inr rfl), rfl⟩
    · obtain ⟨z, hz, heq⟩ := he.min_mem (ne_nil_of_mem hx)
      exact ⟨z, (hmem z).mpr (.inl hz), heq⟩
  · intro z hz
    show z.address ≤ if r.maxAddress < y.address then y.address else r.maxAddress
    split
    · rename_i hlt
      rcases (hmem z).mp hz with hz | rfl
      · exact Nat.le_of_lt (Nat.lt_of_le_of_lt (he.le_max z hz) hlt)
      · exact BitVec.le_refl _
    · rename_i hge
      rcases (hmem z).mp hz with hz | rfl
      · exact he.le_max z hz
      · exact BitVec.not_lt.mp hge
  · show ∃ z ∈ samples ++ [x] ++ [y], z.address = if r.maxAddress < y.address then y.address else r.maxAddress
    split
    · exact ⟨y, (hmem y).mpr (.inr rfl), rfl⟩
    · obtain ⟨z, hz, heq⟩ := he.max_mem (ne_nil_of_mem hx)
      exact ⟨z, (hmem z).mpr (.inl hz), heq⟩
  · rfl

/-- Two samples of the same value are not compared. -/
theorem idle_of_eq {x y : Sample} (h : y.value = x.value) : Safe (x, y) ∧ ¬ Trains (x, y) := by
  have hz : valueDelta (x, y) = 0 := by
    show (y.value - x.value).toInt = 0
    rw [h, BitVec.sub_self]
    rfl
  have hno : ¬ Trains (x, y) := fun ht => ht.1 hz
  refine ⟨⟨fun hbad => ?_, fun ht => absurd ht hno⟩, hno⟩
  rw [hz] at hbad
  exact absurd hbad.2 (by decide)

/-- One more sample. -/
theorem Seen.next {x : Sample}
    (h : Seen samples x r) (hlen : samples.length + 1 < 2 ^ 32) (y : Sample) :
    (Safe (x, y) ∧ ∃ r', r.train y.value y.address = .ok r' ∧ Seen (samples ++ [x]) y r') ∨
    (¬ Safe (x, y) ∧ ∃ op, r.train y.value y.address = .error op) := by
  have hw := h.widen hlen y
  generalize hr₁ : r.widen y.value y.address = r₁ at hw
  let r₂ : DVRAddressRelation := { r₁ with samples := r₁.samples + 1 }
  have hsame := hw.rest
  have hprev : r₂.hasPrevious = true := by
    show r₁.hasPrevious = true
    rw [hsame]
    exact h.hasPrevious
  have hvalue : r₂.previousValue = x.value := by
    show r₁.previousValue = _
    rw [hsame]
    exact h.value
  have haddress : r₂.previousAddress = x.address := by
    show r₁.previousAddress = _
    rw [hsame]
    exact h.address
  have htrain : r.train y.value y.address =
      (if r₂.hasPrevious = true ∧ y.value ≠ r₂.previousValue then r₂.learn y.value y.address
        else .ok r₂).map fun r =>
      { r with hasPrevious := true, previousValue := y.value, previousAddress := y.address } := by
    unfold DVRAddressRelation.train
    rw [hr₁]
  have hdone : Seen (samples ++ [x]) y { taught r₂ (x, y) with
        hasPrevious := true, previousValue := y.value, previousAddress := y.address } := by
    have hold : r₂.trained = r.trained ∧ r₂.scale = r.scale ∧ r₂.offset = r.offset := by
      show r₁.trained = _ ∧ r₁.scale = _ ∧ r₁.offset = _
      rw [hsame]
      exact ⟨rfl, rfl, rfl⟩
    have hcount : r₂.samples = ofNat 32 ((samples ++ [x]).length + 1) := by
      show r₁.samples + 1 = _
      rw [hsame]
      show r.samples + 1 = _
      rw [h.samples, length_append, length_singleton, BitVec.ofNat_add (samples.length + 1)]
      rfl
    by_cases ht : Trains (x, y)
    · have hscale : (ofInt 64 (scaleOf (x, y))).toInt = scaleOf (x, y) := by
        have hsmall := ht.2.2.2
        rw [BitVec.toInt_ofInt]
        exact Int.bmod_eq_of_le (by omega) (by omega)
      rw [show taught r₂ (x, y) = _ from if_pos ht]
      refine ⟨⟨hw.stable, hw.pattern, hw.min_le, fun _ => hw.min_mem, hw.le_max,
        fun _ => hw.max_mem, ?_, ?_, ?_⟩, rfl, rfl, rfl, hcount⟩
      · rw [lastTrained_concat, if_pos ht]
        rfl
      · intro p hp
        rw [lastTrained_concat, if_pos ht, Option.mem_some_iff] at hp
        subst hp
        exact affine_of_trains ht
      · intro p hp
        show 0 < (ofInt 64 (scaleOf (x, y))).toInt.natAbs ∧
          (ofInt 64 (scaleOf (x, y))).toInt.natAbs ≤ 4096
        rw [hscale]
        exact ⟨Int.natAbs_pos.mpr ht.2.2.1, ht.2.2.2⟩
    · rw [show taught r₂ (x, y) = r₂ from if_neg ht]
      obtain ⟨htrained, hscale, hoffset⟩ := hold
      refine ⟨⟨hw.stable, hw.pattern, hw.min_le, fun _ => hw.min_mem, hw.le_max,
        fun _ => hw.max_mem, ?_, ?_, ?_⟩, rfl, rfl, rfl, hcount⟩
      · rw [lastTrained_concat, if_neg ht]
        exact htrained.trans h.exact.trained
      · intro p hp
        rw [lastTrained_concat, if_neg ht] at hp
        show p.1.address = r₂.scale * _ + r₂.offset ∧ p.2.address = r₂.scale * _ + r₂.offset
        rw [hscale, hoffset]
        exact h.exact.affine p hp
      · intro p hp
        rw [lastTrained_concat, if_neg ht] at hp
        show 0 < r₂.scale.toInt.natAbs ∧ r₂.scale.toInt.natAbs ≤ 4096
        rw [hscale]
        exact h.exact.scale p hp
  rw [htrain, hvalue]
  by_cases hne : y.value = x.value
  · obtain ⟨hsafe, hno⟩ := idle_of_eq hne
    rw [if_neg fun hand => hand.2 hne]
    rw [show taught r₂ (x, y) = r₂ from if_neg hno] at hdone
    exact .inl ⟨hsafe, _, rfl, hdone⟩
  · rw [if_pos ⟨hprev, hne⟩]
    rcases learn_spec r₂ x y hvalue haddress hne with ⟨hsafe, hlearn⟩ | ⟨hrisky, op, hlearn⟩
    · rw [hlearn]
      exact .inl ⟨hsafe, _, rfl, hdone⟩
    · rw [hlearn]
      exact .inr ⟨hrisky, op, rfl⟩

theorem run_seen {x : Sample}
    (h : Seen samples x r) (rest : List Sample) (hlen : samples.length + 1 + rest.length ≤ 2 ^ 32) :
    (∃ r', run r rest = .ok r' ∧ Exact (samples ++ [x] ++ rest) r') ↔
      ∀ p ∈ pairs (x :: rest), Safe p := by
  induction rest generalizing samples x r with
  | nil =>
    refine ⟨fun _ p (hp : p ∈ []) => absurd hp not_mem_nil, fun _ => ⟨r, rfl, ?_⟩⟩
    rw [append_nil]
    exact h.exact
  | cons y rest ih =>
    rw [length_cons] at hlen
    have hpairs : (∀ p ∈ pairs (x :: y :: rest), Safe p) ↔
        Safe (x, y) ∧ ∀ p ∈ pairs (y :: rest), Safe p := forall_mem_cons
    have happ : samples ++ [x] ++ y :: rest = samples ++ [x] ++ [y] ++ rest := append_cons _ y rest
    rw [hpairs, happ]
    show (∃ r', (r.train y.value y.address).bind _ = _ ∧ _) ↔ _
    rcases h.next (by omega) y with ⟨hsafe, r', htrain, hseen⟩ | ⟨hrisky, op, htrain⟩
    · have hlong : (samples ++ [x]).length + 1 + rest.length ≤ 2 ^ 32 := by
        rw [length_append, length_singleton]
        omega
      rw [htrain]
      exact (ih hseen hlong).trans ⟨fun hall => ⟨hsafe, hall⟩, fun hall => hall.2⟩
    · rw [htrain]
      constructor
      · rintro ⟨r', hr', _⟩
        exact nomatch hr'
      · exact fun hall => absurd hall.1 hrisky

/-- Up to `2^32` samples the relation is exact and no operation overflows, if and only if every two
    samples in a row are safe. -/
theorem trained_exactly_iff (samples : List Sample) (hlen : samples.length ≤ 2 ^ 32) :
    (∃ r, run {} samples = .ok r ∧ Exact samples r) ↔ ∀ p ∈ pairs samples, Safe p := by
  cases samples with
  | nil =>
    refine ⟨fun _ p (hp : p ∈ []) => absurd hp not_mem_nil, fun _ => ⟨{}, rfl, ?_⟩⟩
    refine ⟨fun i hi => ⟨fun _ x hx => absurd hx not_mem_nil, fun _ => ?_⟩, nofun, nofun, fun h => absurd rfl h,
      nofun, fun h => absurd rfl h, rfl, nofun, nofun⟩
    show (allOnes 64).getLsbD i = true
    rw [BitVec.getLsbD_allOnes, decide_eq_true hi]
  | cons x rest =>
    rw [length_cons] at hlen
    obtain ⟨r, htrain, hseen⟩ := seen_first x
    show (∃ r', (DVRAddressRelation.train {} x.value x.address).bind _ = _ ∧ _) ↔ _
    rw [htrain]
    exact run_seen hseen rest (by
      rw [length_nil]
      omega)

/-- An array of words: the relation is learnt from two neighbours. -/
theorem trained_exactly_words : ∃ r, run {} [⟨3#64, 0x1018#64⟩, ⟨4#64, 0x1020#64⟩] = .ok r ∧
      Exact [⟨3#64, 0x1018#64⟩, ⟨4#64, 0x1020#64⟩] r :=
  (trained_exactly_iff _ (by decide)).mpr (by decide)

/-- The address moves by `-2^63` and the value by `-1`: the first division traps. -/
theorem train_traps : ¬ ∃ r, run {} [⟨1#64, 0#64⟩, ⟨0#64, 0x8000000000000000#64⟩] = .ok r ∧
    Exact [⟨1#64, 0#64⟩, ⟨0#64, 0x8000000000000000#64⟩] r := by
  rintro ⟨r, hr, _⟩
  have htrap : run {} [⟨1#64, 0#64⟩, ⟨0#64, 0x8000000000000000#64⟩] = .error .remainder := rfl
  exact nomatch hr

end Gem5Dvr.AddressRelation
