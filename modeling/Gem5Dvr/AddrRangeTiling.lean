/-
  Interleaved offsets tile the memory (`AddrRange::contains`, `size`, `getOffset`).

    1. `contains` reads the parities of the address (`contains_iff`), as long as `sel`, an `int`,
       has a bit for each mask.
    2. Every choice of parities is met by exactly one address over the same remaining bits
       (`exists_selects`, `Interleaving.unique`), and removing the lowest bits keeps the order of
       addresses with the same parities (`removeIntlvBits_lt`).
    3. With start and end multiples of `2 ^ w`, all mask bits below `w`, an address is in the range
       exactly when its offset is (`window_iff`).

  The crux is the order: at the highest bit where two addresses with the same parities differ no
  mask has its lowest bit, or that mask alone would tell them apart.
-/
import Gem5Dvr.AddrRange

namespace Gem5Dvr.AddrRange

open List
open BitVec (lt_of_getLsbD ofNat testBit_toNat toNat_sub)

open Bitfield BitPlaces

/-! ## What the range contains -/

theorem selLoop_spec (a : Addr) {ms : List Addr} {i : Nat} (hi : i + ms.length ≤ 32)
    (sel : BitVec 32) : ∃ sel', selLoop a ms i sel = some sel' ∧ ∀ j, sel'.getLsbD j = true ↔
        sel.getLsbD j = true ∨ ∃ k m, ms[k]? = some m ∧ j = i + k ∧ parity a m = 1 := by
  induction ms generalizing i sel with
  | nil => exact ⟨sel, rfl, fun j => by simp⟩
  | cons m ms ih =>
    rw [length_cons] at hi
    have hi32 : i < 32 := by omega
    let bit : BitVec 32 := ofNat 32 (popCount (a &&& m) % 2) <<< i
    have hbit : ∀ j, bit.getLsbD j = true ↔ j = i ∧ parity a m = 1 := by
      intro j
      have hp : popCount (a &&& m) % 2 < 2 := Nat.mod_lt _ (by decide)
      show (ofNat 32 (popCount (a &&& m) % 2) <<< i).getLsbD j = true ↔
        j = i ∧ popCount (a &&& m) % 2 = 1
      generalize popCount (a &&& m) % 2 = p at hp
      rcases Nat.lt_trichotomy j i with hlt | heq | hgt
      · have hne : j ≠ i := by omega
        simp [hlt, hne]
      · subst heq
        rcases (by omega : p = 0 ∨ p = 1) with rfl | rfl
        · simp
        · simp [hi32]
      · have hne : j ≠ i := by omega
        have hsub : j - i ≠ 0 := by omega
        rcases (by omega : p = 0 ∨ p = 1) with rfl | rfl
        · simp [hne]
        · simp [hne, hsub]
    obtain ⟨sel', hsel', hspec⟩ := ih (show i + 1 + ms.length ≤ 32 by omega) (sel ||| bit)
    refine ⟨sel', ?_, fun j => ?_⟩
    · simp only [selLoop, shiftInt, hi32, if_true, Option.bind_eq_bind, Option.bind_some]
      exact hsel'
    · rw [hspec j, BitVec.getLsbD_or, Bool.or_eq_true, hbit j]
      constructor
      · rintro ((h | ⟨rfl, hp⟩) | ⟨k, n, hk, rfl, hp⟩)
        · exact .inl h
        · exact .inr ⟨0, m, rfl, rfl, hp⟩
        · exact .inr ⟨k + 1, n, hk, by omega, hp⟩
      · rintro (h | ⟨k, n, hk, rfl, hp⟩)
        · exact .inl (.inl h)
        · cases k with
          | zero =>
            obtain rfl : m = n := by simpa using hk
            exact .inl (.inr ⟨rfl, hp⟩)
          | succ k => exact .inr ⟨k, n, by simpa using hk, by omega, hp⟩

/-- Past 32 masks `sel` runs out of bits. -/
theorem selLoop_none (a : Addr) {ms : List Addr} {i : Nat} {sel : BitVec 32} (hi : i ≤ 32)
    (h : 32 < i + ms.length) : selLoop a ms i sel = none := by
  induction ms generalizing i sel with
  | nil =>
    simp only [length_nil] at h
    omega
  | cons m ms ih =>
    rw [length_cons] at h
    by_cases hi32 : i < 32
    · simp only [selLoop, shiftInt, hi32, if_true, Option.bind_eq_bind, Option.bind_some]
      exact ih (by omega) (by omega)
    · simp [selLoop, shiftInt, hi32]

/-- `sel` has the parities for its bits. -/
theorem exists_sel (a : Addr) {ms : List Addr} (h : ms.length ≤ 32) :
    ∃ sel, selLoop a ms 0 0#32 = some sel ∧
      ∀ j, sel.getLsbD j = true ↔ ∃ m, ms[j]? = some m ∧ parity a m = 1 := by
  obtain ⟨sel, hsel, hspec⟩ := selLoop_spec a (show 0 + ms.length ≤ 32 by omega) 0#32
  refine ⟨sel, hsel, fun j => ?_⟩
  rw [hspec j]
  constructor
  · rintro (h0 | ⟨k, m, hk, rfl, hp⟩)
    · simp at h0
    · exact ⟨m, by simpa using hk, hp⟩
  · rintro ⟨m, hj, hp⟩
    exact .inr ⟨j, m, hj, by omega, hp⟩

/-- `_start <= a && a < _end`. -/
def InRange (r : AddrRange) (a : Addr) : Prop := r._start.toNat ≤ a.toNat ∧ a.toNat < r._end.toNat

theorem parity_lt (a m : Addr) : parity a m < 2 := Nat.mod_lt _ (by decide)

theorem contains_iff {r : AddrRange} (hne : r.masks ≠ []) (h : r.masks.length ≤ 32) (a : Addr) :
    r.contains a = some true ↔ InRange r a ∧ Selects r a := by
  obtain ⟨sel, hsel, hbits⟩ := exists_sel a h
  -- `sel` equals the match byte bit by bit
  have hmatch : sel = r.intlvMatch.setWidth 32 ↔ Selects r a := by
    constructor
    · intro heq i m hi
      have hbit : sel.getLsbD i = r.intlvMatch.getLsbD i := by
        have hi32 : i < 32 := by
          have := (List.getElem?_eq_some_iff.mp hi).1
          omega
        rw [heq, BitVec.getLsbD_setWidth]
        simp [hi32]
      have hlt := parity_lt a m
      unfold matchParity
      rw [← hbit]
      cases hs : sel.getLsbD i with
      | true =>
        obtain ⟨n, hn, hp⟩ := (hbits i).mp hs
        rw [hi, Option.some.injEq] at hn
        rw [hn, hp]
        rfl
      | false =>
        have hnot : parity a m ≠ 1 := by
          intro hp
          rw [(hbits i).mpr ⟨m, hi, hp⟩] at hs
          exact absurd hs (by decide)
        show parity a m = 0
        omega
    · intro hs
      apply BitVec.eq_of_getLsbD_eq
      intro j hj
      rw [BitVec.getLsbD_setWidth, decide_eq_true hj, Bool.true_and]
      cases hm : r.masks[j]? with
      | none =>
        have hsel0 : sel.getLsbD j = false := by
          rw [Bool.eq_false_iff]
          intro htrue
          obtain ⟨m, hm', _⟩ := (hbits j).mp htrue
          rw [hm] at hm'
          exact absurd hm' (by simp)
        -- beyond the masks the match byte is zero, since it fits
        have hlen : r.masks.length ≤ j := List.getElem?_eq_none_iff.mp hm
        have hpow : 2 ^ r.masks.length ≤ 2 ^ j := Nat.pow_le_pow_right (by decide) hlen
        rw [hsel0, ← testBit_toNat, Nat.testBit_lt_two_pow
          (Nat.lt_of_lt_of_le (r.match_fits hne).2 hpow)]
      | some m =>
        have hpar : parity a m = matchParity r.intlvMatch j := hs j m hm
        unfold matchParity at hpar
        cases hi : r.intlvMatch.getLsbD j with
        | true =>
          rw [hi] at hpar
          exact (hbits j).mpr ⟨m, hm, hpar⟩
        | false =>
          rw [hi] at hpar
          rw [Bool.eq_false_iff]
          intro htrue
          obtain ⟨n, hn, hp⟩ := (hbits j).mp htrue
          rw [hm, Option.some.injEq] at hn
          rw [← hn, hpar] at hp
          exact absurd hp (by decide)
  unfold contains
  by_cases hin : r._start.toNat ≤ a.toNat ∧ a.toNat < r._end.toNat
  · rw [decide_eq_true hin.1, decide_eq_true hin.2, Bool.and_true, if_pos rfl, hsel]
    show some (sel == r.intlvMatch.setWidth 32) = some true ↔ _
    rw [Option.some.injEq, beq_iff_eq, hmatch]
    exact ⟨fun hs => ⟨hin, hs⟩, fun hs => hs.2⟩
  · have hfalse : (decide (r._start.toNat ≤ a.toNat) && decide (a.toNat < r._end.toNat)) =
      false := by
      rw [← Bool.decide_and]
      exact decide_eq_false hin
    rw [hfalse, if_neg (by decide)]
    constructor
    · intro hs
      exact absurd hs (by decide)
    · rintro ⟨hr, _⟩
      exact absurd hr hin

/-- With more masks than `sel` has bits nothing is found to be contained. -/
theorem not_contains {r : AddrRange} (h : 32 < r.masks.length) (a : Addr) :
    r.contains a ≠ some true := by
  unfold contains
  rw [selLoop_none a (Nat.zero_le 32) (by omega)]
  by_cases hin : (decide (r._start.toNat ≤ a.toNat) && decide (a.toNat < r._end.toNat)) = true
  · rw [if_pos hin]
    simp
  · rw [if_neg hin]
    simp

/-! ## Parities met, order kept -/

/-- Any parities at all are met by choosing the lowest bits of the masks. -/
theorem exists_selects (intlvMatch : BitVec 8) {ms : List Addr} (hnz : ∀ m ∈ ms, m ≠ 0)
    (hdis : ms.Pairwise fun m n => m &&& n = 0) (i : Nat) (x : Addr) :
    ∃ y, (∀ j, (∀ m ∈ ms, ctz64 m ≠ j) → y.getLsbD j = x.getLsbD j) ∧
      ∀ k m, ms[k]? = some m → parity y m = matchParity intlvMatch (i + k) := by
  induction ms generalizing i with
  | nil => exact ⟨x, fun _ _ => rfl, fun k m hk => by simp at hk⟩
  | cons m ms ih =>
    obtain ⟨hm, hms⟩ := pairwise_cons.mp hdis
    have hlow := getLsbD_ctz64 (hnz m mem_cons_self)
    obtain ⟨y, hoff, hon⟩ := ih (fun n hn => hnz n (mem_cons_of_mem m hn)) hms (i + 1)
    obtain ⟨z, hz, hpar⟩ := exists_parity y hlow (matchParity_lt intlvMatch i)
    refine ⟨z, fun j hj => ?_, fun k n hk => ?_⟩
    · rw [hz j (hj m mem_cons_self).symm, hoff j fun n hn => hj n (mem_cons_of_mem m hn)]
    · cases k with
      | zero =>
        obtain rfl : m = n := by simpa using hk
        exact hpar
      | succ k =>
        have hk' : ms[k]? = some n := by simpa using hk
        -- the chosen bit is in no other mask
        have hsame : parity z n = parity y n := parity_congr fun j hj =>
          hz j (ne_of_disjoint (hm n (mem_of_getElem? hk')) hlow hj).symm
        rw [hsame, hon k n hk', show i + 1 + k = i + (k + 1) by omega]

namespace Interleaving

variable {r : AddrRange} (h : Interleaving r)
include h

/-- Every closed-up word with room is an address of the right parities with the bits removed. -/
theorem exists_removeIntlvBits {b : Addr} (hb : b.toNat < 2 ^ (64 - r.masks.length)) :
    ∃ a, Selects r a ∧ r.removeIntlvBits a = b := by
  obtain ⟨a, hoff, hsel⟩ :=
    exists_selects r.intlvMatch h.nonzero h.disjoint 0 (addLoop r.masksLsb b)
  refine ⟨a, fun k m hk => by simpa using hsel k m hk, ?_⟩
  apply BitVec.eq_of_getLsbD_eq
  intro j _
  rw [h.getLsbD_removeIntlvBits]
  have hiff := place_lt_iff h.lsb_sorted h.lsb_lt j
  rw [length_masksLsb] at hiff
  by_cases hj : place r.masksLsb j < 64
  · rw [hoff _ fun m hm heq => place_notMem h.lsb_sorted j (mem_masksLsb.mpr ⟨m, hm, heq⟩),
      getLsbD_addLoop h.lsb_lt b hj]
  · have hhigh : 64 - r.masks.length ≤ j := by omega
    have hpow : 2 ^ (64 - r.masks.length) ≤ 2 ^ j := Nat.pow_le_pow_right (by decide) hhigh
    rw [BitVec.getLsbD_of_ge a _ (by omega), ← testBit_toNat,
      Nat.testBit_lt_two_pow (Nat.lt_of_lt_of_le hb hpow)]

/-- Removing the bits keeps the order of addresses with the same parities. -/
theorem removeIntlvBits_lt {x y : Addr} (hpar : ∀ m ∈ r.masks, parity x m = parity y m)
    (hlt : x.toNat < y.toNat) : (r.removeIntlvBits x).toNat < (r.removeIntlvBits y).toNat := by
  obtain ⟨p, hx, hy, hsame⟩ := exists_top_difference hlt
  have hpL : p ∉ r.masksLsb := by
    intro hmem
    obtain ⟨m, hm, rfl⟩ := mem_masksLsb.mp hmem
    refine parity_flip (getLsbD_ctz64 (h.nonzero m hm)) (by rw [hx, hy]; decide)
      (fun j hj hmj => ?_) (hpar m hm)
    -- the bits of the mask above its lowest are above the highest difference
    refine hsame j ?_
    rcases Nat.lt_or_gt_of_ne hj with hjlt | hgt
    · rw [getLsbD_lt_ctz64 (h.nonzero m hm) hjlt] at hmj
      exact absurd hmj (by decide)
    · exact hgt
  obtain ⟨j, rfl⟩ := exists_place h.lsb_sorted hpL
  refine Nat.lt_of_testBit j ?_ ?_ fun i hi => ?_
  · rw [testBit_toNat, h.getLsbD_removeIntlvBits, hx]
  · rw [testBit_toNat, h.getLsbD_removeIntlvBits, hy]
  · rw [testBit_toNat, testBit_toNat, h.getLsbD_removeIntlvBits,
      h.getLsbD_removeIntlvBits, hsame _ (place_strictMono r.masksLsb hi)]

end Interleaving

/-! ## The window of the range -/

/-- Start and end are multiples of twice the highest bit of any mask. -/
def Aligned (r : AddrRange) : Prop := ∀ m ∈ r.masks, ∀ i, m.getLsbD i = true →
    2 ^ (i + 1) ∣ r._start.toNat ∧ 2 ^ (i + 1) ∣ r._end.toNat

namespace Interleaving

variable {r : AddrRange} (h : Interleaving r)
include h

/-- The bit number above the highest mask bit. -/
theorem exists_top (hal : Aligned r) : ∃ w, w ≤ 64 ∧ (∀ p ∈ r.masksLsb, p < w) ∧
    2 ^ w ∣ r._start.toNat ∧ 2 ^ w ∣ r._end.toNat := by
  have hex : ∃ w, ∀ m ∈ r.masks, ∀ i, m.getLsbD i = true → i < w :=
    ⟨64, fun m _ i hi => lt_of_getLsbD hi⟩
  classical
  obtain ⟨hall, hmin⟩ := (⟨Nat.find_spec hex, fun v hv => Nat.find_min hex hv⟩ :
    (∀ m ∈ r.masks, ∀ i, m.getLsbD i = true → i < Nat.find hex) ∧
    ∀ v, v < Nat.find hex → ¬ ∀ m ∈ r.masks, ∀ i, m.getLsbD i = true → i < v)
  generalize Nat.find hex = w at hall hmin
  obtain ⟨m, hm⟩ := exists_mem_of_ne_nil r.masks h.some_mask
  have hpos : 0 < w := Nat.lt_of_le_of_lt (Nat.zero_le _)
    (hall m hm _ (getLsbD_ctz64 (h.nonzero m hm)))
  -- bit `w - 1` is in some mask
  have htop := hmin (w - 1) (by omega)
  simp only [not_forall, exists_prop] at htop
  obtain ⟨n, hn, i, hi, hge⟩ := htop
  have hiw : i + 1 = w := by
    have := hall n hn i hi
    omega
  obtain ⟨hs, he⟩ := hal n hn i hi
  rw [hiw] at hs he
  have hlt64 : i < 64 := lt_of_getLsbD hi
  refine ⟨w, by omega, fun p hp => ?_, hs, he⟩
  obtain ⟨k, hk, rfl⟩ := mem_masksLsb.mp hp
  exact hall k hk _ (getLsbD_ctz64 (h.nonzero k hk))

/-- Above the masks removing is shifting. -/
theorem removeIntlvBits_div {w : Nat} (hw : ∀ p ∈ r.masksLsb, p < w) (a : Addr) :
    (r.removeIntlvBits a).toNat / 2 ^ (w - r.masks.length) = a.toNat / 2 ^ w := by
  have hle : r.masks.length ≤ w := by
    rw [← length_masksLsb]
    exact length_le h.lsb_sorted hw
  apply Nat.eq_of_testBit_eq
  intro j
  rw [Nat.testBit_div_two_pow, Nat.testBit_div_two_pow, testBit_toNat, testBit_toNat,
    h.getLsbD_removeIntlvBits, place_of_ge h.lsb_sorted hw (by rw [length_masksLsb]; omega),
    length_masksLsb]
  congr 1
  omega

/-- A multiple of `2 ^ w` loses as many zeros as there are masks. -/
theorem removeIntlvBits_multiple {w : Nat} (hw : ∀ p ∈ r.masksLsb, p < w) {a : Addr}
    (ha : 2 ^ w ∣ a.toNat) :
    (r.removeIntlvBits a).toNat = a.toNat / 2 ^ w * 2 ^ (w - r.masks.length) := by
  have hlow : (r.removeIntlvBits a).toNat % 2 ^ (w - r.masks.length) = 0 := by
    apply Nat.eq_of_testBit_eq
    intro j
    rw [Nat.testBit_mod_two_pow, Nat.zero_testBit]
    by_cases hj : j < w - r.masks.length
    · have hplace : place r.masksLsb j < w := by
        rw [place_lt_iff h.lsb_sorted hw, length_masksLsb]
        omega
      obtain ⟨c, hc⟩ := ha
      have hzero : a.getLsbD (place r.masksLsb j) = false := by
        rw [← testBit_toNat, hc, Nat.mul_comm, Nat.testBit_mul_two_pow]
        simp [hplace]
      rw [testBit_toNat, h.getLsbD_removeIntlvBits, hzero, Bool.and_false]
    · rw [decide_eq_false hj, Bool.false_and]
  have hdiv := h.removeIntlvBits_div hw a
  have hsplit := Nat.div_add_mod (r.removeIntlvBits a).toNat (2 ^ (w - r.masks.length))
  rw [hlow, hdiv, Nat.add_zero, Nat.mul_comm] at hsplit
  exact hsplit.symm

/-- An address is in the range exactly when its closed-up word is between those of the ends. -/
theorem window_iff {w : Nat} (hw : ∀ p ∈ r.masksLsb, p < w) (hs : 2 ^ w ∣ r._start.toNat)
    (he : 2 ^ w ∣ r._end.toNat) (a : Addr) : InRange r a ↔
      (r.removeIntlvBits r._start).toNat ≤ (r.removeIntlvBits a).toNat ∧
      (r.removeIntlvBits a).toNat < (r.removeIntlvBits r._end).toNat := by
  rw [h.removeIntlvBits_multiple hw hs, h.removeIntlvBits_multiple hw he,
    ← Nat.le_div_iff_mul_le (Nat.two_pow_pos _), ← Nat.div_lt_iff_lt_mul (Nat.two_pow_pos _),
    h.removeIntlvBits_div hw]
  obtain ⟨s, hs⟩ := hs
  obtain ⟨e, he⟩ := he
  have hpos : 0 < 2 ^ w := Nat.two_pow_pos w
  unfold InRange
  rw [hs, he, Nat.mul_div_cancel_left _ hpos, Nat.mul_div_cancel_left _ hpos,
    Nat.le_div_iff_mul_le hpos, Nat.div_lt_iff_lt_mul hpos, Nat.mul_comm s, Nat.mul_comm e]

/-- `size()` is the distance between the closed-up ends. -/
theorem size_eq {w : Nat} (hw : ∀ p ∈ r.masksLsb, p < w) (hs : 2 ^ w ∣ r._start.toNat)
    (he : 2 ^ w ∣ r._end.toNat) (hval : r._start.toNat ≤ r._end.toNat) :
    r.size.toNat = (r.removeIntlvBits r._end).toNat - (r.removeIntlvBits r._start).toNat := by
  have hle : r.masks.length ≤ w := by
    rw [← length_masksLsb]
    exact length_le h.lsb_sorted hw
  have hsub : (r._end - r._start).toNat = r._end.toNat - r._start.toNat := by
    rw [toNat_sub]
    omega
  have hpow : 2 ^ w = 2 ^ (w - r.masks.length) * 2 ^ r.masks.length := by
    rw [← Nat.pow_add]
    congr 1
    omega
  rw [h.removeIntlvBits_multiple hw hs, h.removeIntlvBits_multiple hw he, size,
    BitVec.toNat_ushiftRight, hsub, Nat.shiftRight_eq_div_pow]
  obtain ⟨s, hs⟩ := hs
  obtain ⟨e, he⟩ := he
  have hposn : 0 < 2 ^ r.masks.length := Nat.two_pow_pos _
  rw [hs, he, Nat.mul_div_cancel_left _ (Nat.two_pow_pos w),
    Nat.mul_div_cancel_left _ (Nat.two_pow_pos w), ← Nat.mul_sub, ← Nat.sub_mul, hpow,
    Nat.mul_comm (2 ^ (w - r.masks.length)), Nat.mul_assoc, Nat.mul_div_cancel_left _ hposn,
    Nat.mul_comm]

/-- The offset of an address in the range. -/
theorem getOffset_eq {w : Nat} (hw : ∀ p ∈ r.masksLsb, p < w) (hs : 2 ^ w ∣ r._start.toNat)
    (he : 2 ^ w ∣ r._end.toNat) {a : Addr} (ha : InRange r a) : (r.getOffset a).toNat =
      (r.removeIntlvBits a).toNat - (r.removeIntlvBits r._start).toNat := by
  have hle := ((h.window_iff hw hs he a).mp ha).1
  unfold getOffset
  dsimp only
  rw [decide_eq_true ha.1, decide_eq_true ha.2, Bool.and_true, Bool.not_true, if_neg (by decide),
    h.interleaved, if_pos rfl, toNat_sub]
  omega

end Interleaving

/-! ## Tiling -/

/-- `getOffset` on the addresses the range contains: a bijection onto `[0, size())`, increasing. -/
def OffsetsTile (r : AddrRange) : Prop :=
  (∀ a, r.contains a = some true → (r.getOffset a).toNat < r.size.toNat) ∧
  (∀ a b, r.contains a = some true → r.contains b = some true → a.toNat < b.toNat →
    (r.getOffset a).toNat < (r.getOffset b).toNat) ∧
  ∀ o < r.size.toNat, ∃ a, r.contains a = some true ∧ (r.getOffset a).toNat = o

/-- The ranges that share start, end and masks, one for each match value, split the addresses. -/
def StripesPartition (r : AddrRange) : Prop := ∀ rs : Fin (2 ^ r.masks.length) → AddrRange,
    (∀ v, (rs v)._start = r._start ∧ (rs v)._end = r._end ∧ (rs v).masks = r.masks ∧
      (rs v).intlvMatch.toNat = v) →
    ∀ a, InRange r a → ∃! v, (rs v).contains a = some true

theorem Interleaving.offsets_tile {r : AddrRange} (h : Interleaving r) (hal : Aligned r)
    (hlen : r.masks.length ≤ 32) (hval : r._start.toNat ≤ r._end.toNat) : OffsetsTile r := by
  obtain ⟨w, hw64, hw, hs, he⟩ := h.exists_top hal
  have hsize := h.size_eq hw hs he hval
  refine ⟨fun a ha => ?_, fun a b ha hb hab => ?_, fun o ho => ?_⟩
  · obtain ⟨hin, _⟩ := (contains_iff h.some_mask hlen a).mp ha
    have := (h.window_iff hw hs he a).mp hin
    rw [h.getOffset_eq hw hs he hin, hsize]
    omega
  · obtain ⟨hina, hsa⟩ := (contains_iff h.some_mask hlen a).mp ha
    obtain ⟨hinb, hsb⟩ := (contains_iff h.some_mask hlen b).mp hb
    have hlt : (r.removeIntlvBits a).toNat < (r.removeIntlvBits b).toNat := by
      refine h.removeIntlvBits_lt (fun m hm => ?_) hab
      obtain ⟨k, hk⟩ := getElem?_of_mem hm
      rw [hsa k m hk, hsb k m hk]
    have := (h.window_iff hw hs he a).mp hina
    rw [h.getOffset_eq hw hs he hina, h.getOffset_eq hw hs he hinb]
    omega
  · rw [hsize] at ho
    -- the word `o` above the closed-up start
    have hroom : (r.removeIntlvBits r._end).toNat ≤ 2 ^ (64 - r.masks.length) := by
      have hdiv := h.removeIntlvBits_multiple hw he
      have hlen' : r.masks.length ≤ w := by
        rw [← length_masksLsb]
        exact length_le h.lsb_sorted hw
      have hend : r._end.toNat / 2 ^ w ≤ 2 ^ (64 - w) := by
        refine Nat.le_of_lt (Nat.div_lt_of_lt_mul ?_)
        rw [← Nat.pow_add, show w + (64 - w) = 64 by omega]
        exact r._end.isLt
      rw [hdiv, show 64 - r.masks.length = 64 - w + (w - r.masks.length) by omega, Nat.pow_add]
      exact Nat.mul_le_mul_right _ hend
    have hsum : o + (r.removeIntlvBits r._start).toNat < 2 ^ (64 - r.masks.length) := by omega
    have h64 : 2 ^ (64 - r.masks.length) ≤ 2 ^ 64 := Nat.pow_le_pow_right (by decide) (by omega)
    have hword : (ofNat 64 (o + (r.removeIntlvBits r._start).toNat)).toNat =
        o + (r.removeIntlvBits r._start).toNat := by
      exact Nat.mod_eq_of_lt (Nat.lt_of_lt_of_le hsum h64)
    obtain ⟨a, hsel, ha⟩ := h.exists_removeIntlvBits (by rw [hword]; exact hsum)
    have hin : InRange r a := by
      rw [h.window_iff hw hs he, ha, hword]
      omega
    refine ⟨a, (contains_iff h.some_mask hlen a).mpr ⟨hin, hsel⟩, ?_⟩
    rw [h.getOffset_eq hw hs he hin, ha, hword]
    omega

theorem Interleaving.stripes_partition {r : AddrRange} (h : Interleaving r) :
    StripesPartition r := by
  intro rs hrs a hin
  -- the match values fit a byte, so there are at most eight masks
  have hlen : r.masks.length ≤ 8 := by
    have hpos : 0 < 2 ^ r.masks.length := Nat.two_pow_pos _
    have hlast := (hrs ⟨2 ^ r.masks.length - 1, by omega⟩).2.2.2
    have hbyte := (rs ⟨2 ^ r.masks.length - 1, by omega⟩).intlvMatch.isLt
    by_contra hgt
    have : 2 ^ 9 ≤ 2 ^ r.masks.length := Nat.pow_le_pow_right (by decide) (by omega)
    have hval : (⟨2 ^ r.masks.length - 1, by omega⟩ : Fin (2 ^ r.masks.length)).val =
      2 ^ r.masks.length - 1 := rfl
    omega
  have hcontains : ∀ v, (rs v).contains a = some true ↔
      ∀ i m, r.masks[i]? = some m → parity a m = (v.val.testBit i).toNat := by
    intro v
    obtain ⟨h1, h2, h3, h4⟩ := hrs v
    rw [contains_iff (by rw [h3]; exact h.some_mask) (by rw [h3]; omega)]
    have hbit : ∀ i, matchParity (rs v).intlvMatch i = (v.val.testBit i).toNat := by
      intro i
      rw [matchParity, ← testBit_toNat, h4]
    unfold InRange Selects
    rw [h1, h2, h3]
    constructor
    · rintro ⟨_, hsel⟩ i m hi
      rw [hsel i m hi, hbit i]
    · intro hsel
      refine ⟨hin, fun i m hi => ?_⟩
      rw [hsel i m hi, hbit i]
  -- the value whose bits are the parities is the `sel` of the code
  obtain ⟨sel, _, hbits⟩ := exists_sel a (show r.masks.length ≤ 32 by omega)
  have hpar : ∀ i m, r.masks[i]? = some m → parity a m = (sel.toNat.testBit i).toNat := by
    intro i m hi
    have hlt := parity_lt a m
    rw [testBit_toNat]
    cases hb : sel.getLsbD i with
    | true =>
      obtain ⟨n, hn, hp⟩ := (hbits i).mp hb
      rw [hi, Option.some.injEq] at hn
      rw [hn, hp]
      rfl
    | false =>
      have hnot : parity a m ≠ 1 := fun hp => by
        rw [(hbits i).mpr ⟨m, hi, hp⟩] at hb
        exact absurd hb (by decide)
      show parity a m = 0
      omega
  have hlt : sel.toNat < 2 ^ r.masks.length := by
    refine Nat.lt_pow_two_of_testBit _ fun i hi => ?_
    rw [testBit_toNat, Bool.eq_false_iff]
    intro htrue
    obtain ⟨m, hm, _⟩ := (hbits i).mp htrue
    rw [getElem?_eq_none hi] at hm
    exact absurd hm (by simp)
  refine ⟨⟨sel.toNat, hlt⟩, (hcontains _).mpr hpar, fun v hv => Fin.ext ?_⟩
  apply Nat.eq_of_testBit_eq
  intro i
  show v.val.testBit i = sel.toNat.testBit i
  rcases Nat.lt_or_ge i r.masks.length with hi | hi
  · have hm := getElem?_eq_getElem hi
    have heq := ((hcontains v).mp hv i _ hm).symm.trans (hpar i _ hm)
    cases hx : v.val.testBit i <;> cases hy : sel.toNat.testBit i <;> simp_all
  · have hpow : 2 ^ r.masks.length ≤ 2 ^ i := Nat.pow_le_pow_right (by decide) hi
    rw [Nat.testBit_lt_two_pow (Nat.lt_of_lt_of_le v.isLt hpow),
      Nat.testBit_lt_two_pow (Nat.lt_of_lt_of_le hlt hpow)]

/-- Interleaved offsets tile the memory exactly for a valid range whose masks fit `sel` (or that is
    empty). -/
theorem offsets_tile_iff (r : AddrRange) (h : Interleaving r) (hal : Aligned r) :
    (OffsetsTile r ∧ StripesPartition r) ↔
      r.valid = true ∧ (r.masks.length ≤ 32 ∨ r._start = r._end) := by
  obtain ⟨w, hw64, hw, hs, he⟩ := h.exists_top hal
  have hlen : r.masks.length ≤ w := by
    rw [← length_masksLsb]
    exact length_le h.lsb_sorted hw
  constructor
  · rintro ⟨⟨_, _, hsurj⟩, _⟩
    -- an address with offset 0 is found to be contained, when there is one
    have hzero : 0 < r.size.toNat → InRange r r._start ∧ r.masks.length ≤ 32 := by
      intro hpos
      obtain ⟨a, ha, _⟩ := hsurj 0 hpos
      have hle : r.masks.length ≤ 32 := by
        by_contra hgt
        exact not_contains (by omega) a ha
      obtain ⟨⟨h1, h2⟩, _⟩ := (contains_iff h.some_mask hle a).mp ha
      exact ⟨⟨Nat.le_refl _, by omega⟩, hle⟩
    have hval : r._start.toNat ≤ r._end.toNat := by
      by_contra hgt
      -- the size of an invalid range wraps, and is not zero
      have hpos : 0 < r.size.toNat := by
        have hpow : 2 ^ r.masks.length ≤ 2 ^ w := Nat.pow_le_pow_right (by decide) hlen
        have htop : r._start.toNat + 2 ^ w ≤ 2 ^ 64 := by
          obtain ⟨c, hc⟩ := hs
          have hsplit : 2 ^ 64 = 2 ^ w * 2 ^ (64 - w) := by
            rw [← Nat.pow_add]
            congr 1
            omega
          have hlt : 2 ^ w * c < 2 ^ w * 2 ^ (64 - w) := by
            rw [← hc, ← hsplit]
            exact r._start.isLt
          have hc' : c + 1 ≤ 2 ^ (64 - w) := Nat.lt_of_mul_lt_mul_left hlt
          have := Nat.mul_le_mul_left (2 ^ w) hc'
          rw [hc, hsplit]
          rwa [Nat.mul_succ] at this
        rw [size, BitVec.toNat_ushiftRight, Nat.shiftRight_eq_div_pow, toNat_sub]
        refine Nat.div_pos ?_ (Nat.two_pow_pos _)
        omega
      have := (hzero hpos).1.2
      omega
    refine ⟨decide_eq_true hval, ?_⟩
    by_cases heq : r._start = r._end
    · exact .inr heq
    · have hne : r._start.toNat ≠ r._end.toNat := fun hn => heq (BitVec.eq_of_toNat_eq hn)
      have hin : InRange r r._start := ⟨Nat.le_refl _, by omega⟩
      have := (h.window_iff hw hs he r._start).mp hin
      have hsize := h.size_eq hw hs he hval
      exact .inl (hzero (by omega)).2
  · rintro ⟨hval, hcase⟩
    have hval : r._start.toNat ≤ r._end.toNat := of_decide_eq_true hval
    refine ⟨?_, h.stripes_partition⟩
    by_cases hle : r.masks.length ≤ 32
    · exact h.offsets_tile hal hle hval
    · have heq : r._start = r._end := hcase.resolve_left hle
      have hsize : r.size.toNat = 0 := by
        rw [size, heq, BitVec.sub_self]
        simp
      refine ⟨fun a ha => ?_, fun a _ ha => ?_, fun o ho => ?_⟩
      · exact absurd ha (not_contains (by omega) a)
      · exact absurd ha (not_contains (by omega) a)
      · omega

theorem thirdOfFour_aligned : Aligned thirdOfFour := by
  intro m hm i hi
  have hi64 : i < 64 := lt_of_getLsbD hi
  have hle : i + 1 ≤ 15 := by
    have h1 : ∀ i < 64, (0x4100#64).getLsbD i = true → i + 1 ≤ 15 := by decide
    have h2 : ∀ i < 64, (0x200#64).getLsbD i = true → i + 1 ≤ 15 := by decide
    rcases (by simpa [thirdOfFour] using hm : m = 0x4100#64 ∨ m = 0x200#64) with rfl | rfl
    · exact h1 i hi64 hi
    · exact h2 i hi64 hi
  have hpow : 2 ^ (i + 1) ∣ 2 ^ 15 := Nat.pow_dvd_pow 2 hle
  have hstart : 2 ^ 15 ∣ thirdOfFour._start.toNat := by simp [thirdOfFour]
  have hend : 2 ^ 15 ∣ thirdOfFour._end.toNat := by simp [thirdOfFour]
  exact ⟨hpow.trans hstart, hpow.trans hend⟩

/-- The third of four banks is tiled. -/
theorem thirdOfFour_tiled : OffsetsTile thirdOfFour ∧ StripesPartition thirdOfFour :=
  (offsets_tile_iff thirdOfFour thirdOfFour_interleaving thirdOfFour_aligned).mpr
    ⟨by decide, .inl (by decide)⟩

/-- 33 masks of one bit each over 8 GiB. -/
def oneBitMasks : AddrRange where
  _start := 0x0#64
  _end := 0x200000000#64
  masks := (List.range 33).map fun i => 1#64 <<< i
  intlvMatch := 1#8
  match_fits := by decide

/-- The one address of the right parities is 1, but the test of bit 32 is past the `int`. -/
theorem oneBitMasks_not_tiled :
    Interleaving oneBitMasks ∧ Aligned oneBitMasks ∧ oneBitMasks.size = 1#64 ∧
    oneBitMasks.contains 1#64 = none ∧
      ¬ (OffsetsTile oneBitMasks ∧ StripesPartition oneBitMasks) := by
  have hbit : ∀ k < 33, ∀ i < 64, (1#64 <<< k).getLsbD i = decide (i = k) := by decide
  have hal : Aligned oneBitMasks := by
    intro m hm i hi
    obtain ⟨k, hk, rfl⟩ := mem_map.mp hm
    have hk33 : k < 33 := mem_range.mp hk
    have hik : i = k := by
      rw [hbit k hk33 i (lt_of_getLsbD hi)] at hi
      exact of_decide_eq_true hi
    have hstart : oneBitMasks._start.toNat = 0 := by simp [oneBitMasks]
    have hend : oneBitMasks._end.toNat = 2 ^ 33 := by simp [oneBitMasks]
    exact ⟨Nat.dvd_zero _, Nat.pow_dvd_pow 2 (show i + 1 ≤ 33 by omega)⟩
  have hnone : oneBitMasks.contains 1#64 = none := by
    unfold contains
    rfl
  have hsize : 0 < oneBitMasks.size.toNat := by decide
  have hlen : 32 < oneBitMasks.masks.length := by decide
  have hnz : ∀ m ∈ oneBitMasks.masks, m ≠ 0 := by
    intro m hm h0
    obtain ⟨k, hk, rfl⟩ := mem_map.mp hm
    have hk33 : k < 33 := mem_range.mp hk
    have hset := hbit k hk33 k (by omega)
    rw [h0, decide_eq_true rfl] at hset
    simp at hset
  refine ⟨⟨by decide, hnz, by decide⟩, hal, by decide +kernel, hnone, ?_⟩
  rintro ⟨⟨_, _, hsurj⟩, _⟩
  obtain ⟨a, ha, _⟩ := hsurj 0 hsize
  exact not_contains hlen a ha

end Gem5Dvr.AddrRange
