/-
  The subset test against an interleaved range (`AddrRange::isSubset`, `granularity`).

    1. `contains` is the same throughout an aligned block of the lowest mask bit
       (`contains_congr`), so a range no longer than a block is settled by its two ends.
    2. `granularity` is the size of that block, as long as some mask has a bit below 32.

  The crux is the width of `combined_mask`.  `auto combined_mask = 0` is an `int`, so the mask bits
  from 32 on are lost; where the masks have no others it stays 0 and the shift by `ctz64(0)` is
  undefined.
-/
import Gem5Dvr.AddrRangeTiling

namespace Gem5Dvr.AddrRange

open Bitfield

/-- The bits of the masks, in `w` bits. -/
def combined (w : Nat) (r : AddrRange) : BitVec w :=
  r.masks.foldl (fun c m => c ||| m.setWidth w) 0

/-- The lowest bit set in a mask. -/
def lowestBit (r : AddrRange) : Nat := ctz64 (r.combined 64)

/-- `x` lies in one aligned block of the size of the lowest mask bit of `r`. -/
def InBlock (x r : AddrRange) : Prop :=
  x._start.toNat / 2 ^ r.lowestBit = (x._end.toNat - 1) / 2 ^ r.lowestBit

instance (x r : AddrRange) : Decidable (InBlock x r) := inferInstanceAs (Decidable (_ = _))

/-- What `isSubset` is to say: the truth for an `x` in one block, and for any other `x` with both
    ends in `r` nothing untrue. -/
def SubsetExact (x r : AddrRange) : Prop :=
  (InBlock x r → (x.isSubset r = some true ↔ ∀ a, InRange x a → r.contains a = some true)) ∧
  (¬ InBlock x r → r.contains x._start = some true → r.contains (x._end - 1#64) = some true →
    x.isSubset r = some true → ∀ a, InRange x a → r.contains a = some true)

/-! ## The lowest mask bit -/

theorem getLsbD_combined {w i : Nat} (hi : i < w) (r : AddrRange) :
    (r.combined w).getLsbD i = r.masks.any (·.getLsbD i) := by
  have hfold : ∀ (ms : List Addr) (c : BitVec w), (ms.foldl (fun c m => c ||| m.setWidth w)
      c).getLsbD i = (c.getLsbD i || ms.any (·.getLsbD i)) := by
    intro ms
    induction ms with
    | nil => simp
    | cons m ms ih =>
      intro c
      rw [List.foldl_cons, ih, BitVec.getLsbD_or, BitVec.getLsbD_setWidth, List.any_cons,
        decide_eq_true hi, Bool.true_and, Bool.or_assoc]
  rw [combined, hfold]
  simp

theorem combined_ne {r : AddrRange} (h : Interleaving r) : r.combined 64 ≠ 0 := by
  intro hzero
  obtain ⟨m, hm⟩ := List.exists_mem_of_ne_nil _ h.some_mask
  have hbit := getLsbD_combined (ctz64_lt (h.nonzero m hm)) r
  rw [hzero, List.any_eq_true.mpr ⟨m, hm, getLsbD_ctz64 (h.nonzero m hm)⟩] at hbit
  simp at hbit

/-- No mask has a bit below the lowest. -/
theorem lowestBit_le {r : AddrRange} (h : Interleaving r) {m : Addr} (hm : m ∈ r.masks) {j : Nat}
    (hj : m.getLsbD j = true) : r.lowestBit ≤ j := by
  by_contra hlt
  have hclear := getLsbD_lt_ctz64 (combined_ne h) (Nat.not_le.mp hlt)
  rw [getLsbD_combined (BitVec.lt_of_getLsbD hj), List.any_eq_true.mpr ⟨m, hm, hj⟩] at hclear
  cases hclear

/-- What `combined_mask` gives: the lowest bit if the `int` holds it, else 64. -/
theorem ctz64_combined {r : AddrRange} (h : Interleaving r) :
    ctz64 ((r.combined 32).signExtend 64) = if r.lowestBit < 32 then r.lowestBit else 64 := by
  have hint : ∀ i < 32, ((r.combined 32).signExtend 64).getLsbD i = (r.combined 64).getLsbD i := by
    intro i hi
    have hi64 : i < 64 := by omega
    rw [BitVec.getLsbD_signExtend, if_pos hi, getLsbD_combined hi, getLsbD_combined hi64]
    simp [hi64]
  split
  · rename_i hlow
    have hset := (hint _ hlow).trans (getLsbD_ctz64 (combined_ne h))
    have hne : (r.combined 32).signExtend 64 ≠ 0 := fun hzero => by simp [hzero] at hset
    generalize (r.combined 32).signExtend 64 = int at *
    rcases Nat.lt_trichotomy (ctz64 int) r.lowestBit with hlt | heq | hgt
    · have hbit := getLsbD_ctz64 hne
      rw [hint _ (by omega), getLsbD_lt_ctz64 (combined_ne h) hlt] at hbit
      cases hbit
    · exact heq
    · rw [getLsbD_lt_ctz64 hne hgt] at hset
      cases hset
  · rename_i hhigh
    have hzero : r.combined 32 = 0 := BitVec.eq_of_getLsbD_eq fun i hi => by
      rw [getLsbD_combined hi, ← getLsbD_combined (show i < 64 by omega),
        getLsbD_lt_ctz64 (combined_ne h) (show i < r.lowestBit by omega)]
      simp
    rw [hzero]
    decide

theorem granularity_eq {r : AddrRange} (h : Interleaving r) :
    r.granularity = if r.lowestBit < 32 then some (1#64 <<< r.lowestBit) else none := by
  rw [granularity, if_pos h.interleaved]
  show (if ctz64 ((r.combined 32).signExtend 64) < 64 then
    some (1#64 <<< ctz64 ((r.combined 32).signExtend 64)) else none) = _
  rw [ctz64_combined h]
  split
  · rename_i hlow
    exact if_pos (by omega)
  · rfl

/-! ## A block is contained as a whole -/

theorem contains_congr {r : AddrRange} (h : Interleaving r) {a b : Addr}
    (hab : a.toNat / 2 ^ r.lowestBit = b.toNat / 2 ^ r.lowestBit) (hb : InRange r b)
    (ha : r.contains a = some true) : r.contains b = some true := by
  by_cases hlen : r.masks.length ≤ 32
  · rw [contains_iff h.some_mask hlen] at ha ⊢
    refine ⟨hb, fun i m hm => (parity_congr fun j hj => ?_).trans (ha.2 i m hm)⟩
    have hge := lowestBit_le h (List.mem_of_getElem? hm) hj
    have hdiv := congrArg (Nat.testBit · (j - r.lowestBit)) hab
    simp only [Nat.testBit_div_two_pow, Nat.sub_add_cancel hge] at hdiv
    exact hdiv.symm
  · exact absurd ha (not_contains (by omega) a)

/-! ## The subset test -/

theorem isSubset_iff {x r : AddrRange} (hx : x.interleaved = false) (h : Interleaving r) :
    x.isSubset r = some true ↔ r.contains x._start = some true ∧
      r.contains (x._end - 1#64) = some true ∧ r.lowestBit < 32 ∧
        (x._end - x._start).toNat ≤ 2 ^ r.lowestBit := by
  have hmasks : x.masks.length = 0 := by simpa [interleaved] using hx
  have hsize : x.size = x._end - x._start := by
    rw [size, hmasks]
    exact BitVec.ushiftRight_zero _
  rw [isSubset, hx, h.interleaved, granularity_eq h, hsize]
  rcases r.contains x._start with _ | _ | _
  · simp
  · simp
  · rcases r.contains (x._end - 1#64) with _ | _ | _
    · simp
    · simp
    · by_cases hlow : r.lowestBit < 32
      · have hpow : (1#64 <<< r.lowestBit).toNat = 2 ^ r.lowestBit := by
          have hlt : 2 ^ r.lowestBit < 2 ^ 64 := Nat.pow_lt_pow_right (by decide) (by omega)
          rw [BitVec.toNat_shiftLeft, Nat.shiftLeft_eq, BitVec.toNat_one (by decide), one_mul,
            Nat.mod_eq_of_lt hlt]
        simp [hlow, ← hpow]
      · simp [hlow]

theorem inRange_of_contains {r : AddrRange} {a : Addr} (h : r.contains a = some true) :
    InRange r a := by
  unfold contains at h
  by_contra hout
  have hfalse : (decide (r._start.toNat ≤ a.toNat) && decide (a.toNat < r._end.toNat)) = false := by
    simpa [InRange] using hout
  rw [hfalse] at h
  cases h

section Exact

variable {x r : AddrRange} (hx : x.interleaved = false) (hne : x._start.toNat < x._end.toNat)
  (h : Interleaving r)
include hne

theorem toNat_last : (x._end - 1#64).toNat = x._end.toNat - 1 := by
  have := x._end.isLt
  rw [BitVec.toNat_sub, BitVec.toNat_ofNat]
  omega

include h

/-- Both ends are in `r`: so is every address in the block of one of them. -/
theorem contained_of_ends (hs : r.contains x._start = some true)
    (he : r.contains (x._end - 1#64) = some true) {a : Addr} (ha : InRange x a)
    (hblock : a.toNat / 2 ^ r.lowestBit = x._start.toNat / 2 ^ r.lowestBit ∨
      a.toNat / 2 ^ r.lowestBit = (x._end.toNat - 1) / 2 ^ r.lowestBit) :
    r.contains a = some true := by
  have hlast := (inRange_of_contains he).2
  rw [← toNat_last hne] at hblock
  rw [toNat_last hne] at hlast
  have hin : InRange r a := ⟨Nat.le_trans (inRange_of_contains hs).1 ha.1, by have := ha.2; omega⟩
  rcases hblock with hblock | hblock
  · exact contains_congr h hblock.symm hin hs
  · exact contains_congr h hblock.symm hin he

theorem contained_of_inBlock (hin : InBlock x r) (hs : r.contains x._start = some true)
    (he : r.contains (x._end - 1#64) = some true) {a : Addr} (ha : InRange x a) :
    r.contains a = some true := by
  refine contained_of_ends hne h hs he ha (.inl ?_)
  have hle := Nat.div_le_div_right (c := 2 ^ r.lowestBit) ha.1
  have hge : a.toNat / 2 ^ r.lowestBit ≤ (x._end.toNat - 1) / 2 ^ r.lowestBit :=
    Nat.div_le_div_right (by have := ha.2; omega)
  unfold InBlock at hin
  omega

/-- `x` is no longer than a block, so it meets two of them at most. -/
theorem contained_of_short (hshort : (x._end - x._start).toNat ≤ 2 ^ r.lowestBit)
    (hs : r.contains x._start = some true) (he : r.contains (x._end - 1#64) = some true) {a : Addr}
    (ha : InRange x a) : r.contains a = some true := by
  refine contained_of_ends hne h hs he ha ?_
  rw [BitVec.toNat_sub_of_le (BitVec.le_def.mpr (Nat.le_of_lt hne))] at hshort
  have hpos : 0 < 2 ^ r.lowestBit := Nat.two_pow_pos _
  have hle := Nat.div_le_div_right (c := 2 ^ r.lowestBit) ha.1
  have hge : a.toNat / 2 ^ r.lowestBit ≤ (x._end.toNat - 1) / 2 ^ r.lowestBit :=
    Nat.div_le_div_right (by have := ha.2; omega)
  have hnext : (x._end.toNat - 1) / 2 ^ r.lowestBit ≤ x._start.toNat / 2 ^ r.lowestBit + 1 := by
    rw [← Nat.add_div_right _ hpos]
    exact Nat.div_le_div_right (by omega)
  omega

include hx

/-- In a block the answer is right, unless the granularity is undefined where it is asked for. -/
theorem exact_inBlock (hin : InBlock x r) :
    (x.isSubset r = some true ↔ ∀ a, InRange x a → r.contains a = some true) ↔
      r.lowestBit < 32 ∨ ¬ (r.contains x._start = some true ∧
        r.contains (x._end - 1#64) = some true) := by
  have hends : (∀ a, InRange x a → r.contains a = some true) ↔
      r.contains x._start = some true ∧ r.contains (x._end - 1#64) = some true := by
    refine ⟨fun hall => ⟨hall _ ⟨Nat.le_refl _, hne⟩, hall _ ?_⟩,
      fun hends a ha => contained_of_inBlock hne h hin hends.1 hends.2 ha⟩
    rw [InRange, toNat_last hne]
    omega
  have hshort : (x._end - x._start).toNat ≤ 2 ^ r.lowestBit := by
    rw [BitVec.toNat_sub_of_le (BitVec.le_def.mpr (Nat.le_of_lt hne))]
    have hpos : 0 < 2 ^ r.lowestBit := Nat.two_pow_pos _
    have hlast := Nat.lt_div_mul_add hpos (a := x._end.toNat - 1)
    have hfirst := Nat.div_mul_le_self x._start.toNat (2 ^ r.lowestBit)
    unfold InBlock at hin
    rw [← hin] at hlast
    omega
  rw [isSubset_iff hx h, hends]
  tauto

/-- **The subset test is exact** unless every mask bit is 32 or above and both ends of a range
    within one block are contained. -/
theorem isSubset_exact_iff : SubsetExact x r ↔ r.lowestBit < 32 ∨ ¬ (InBlock x r ∧
    r.contains x._start = some true ∧ r.contains (x._end - 1#64) = some true) := by
  by_cases hin : InBlock x r
  · have hexact := exact_inBlock hx hne h hin
    unfold SubsetExact
    tauto
  · refine iff_of_true ⟨fun hin' => absurd hin' hin, fun _ hs he hsub a ha => ?_⟩
      (.inr fun hends => hin hends.1)
    exact contained_of_short hne h ((isSubset_iff hx h).mp hsub).2.2.2 hs he ha

end Exact

/-- Two stripes told apart by bit 32, and a page of the first. -/
def stripeAt32 : AddrRange := ⟨0, 0x10000000000, [0x100000000], 0, fun _ => by decide⟩

def firstPage : AddrRange := ⟨0, 0x1000, [], 0, fits_nil⟩

theorem stripeAt32_interleaving : Interleaving stripeAt32 :=
  ⟨by decide, by simp [stripeAt32], List.pairwise_singleton _ _⟩

/-- The page lies within the stripe, which `isSubset` does not find. -/
theorem firstPage_not_exact : ¬ SubsetExact firstPage stripeAt32 := by
  intro hexact
  have hin : InBlock firstPage stripeAt32 := by decide
  have hall : ∀ a, InRange firstPage a → stripeAt32.contains a = some true := fun a ha =>
    contained_of_inBlock (by decide) stripeAt32_interleaving hin (by decide) (by decide) ha
  exact absurd ((hexact.1 hin).mpr hall) (by decide)

/-- Lines told apart by bit 6, and half of the first one. -/
def stripeAt6 : AddrRange := ⟨0, 0x1000, [0x40], 0, fun _ => by decide⟩

def halfLine : AddrRange := ⟨0, 0x20, [], 0, fits_nil⟩

theorem stripeAt6_interleaving : Interleaving stripeAt6 :=
  ⟨by decide, by simp [stripeAt6], List.pairwise_singleton _ _⟩

/-- The page fails the condition, and the half line meets it. -/
theorem firstPage_exact_iff : (SubsetExact firstPage stripeAt32 ↔ stripeAt32.lowestBit < 32 ∨
      ¬ (InBlock firstPage stripeAt32 ∧ stripeAt32.contains firstPage._start = some true ∧
        stripeAt32.contains (firstPage._end - 1#64) = some true)) ∧
    SubsetExact halfLine stripeAt6 :=
  ⟨isSubset_exact_iff rfl (by decide) stripeAt32_interleaving,
    (isSubset_exact_iff rfl (by decide) stripeAt6_interleaving).mpr (.inl (by decide))⟩

end Gem5Dvr.AddrRange
