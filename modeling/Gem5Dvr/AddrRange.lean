/-
  Address ranges with interleaving (`base/addr_range.hh`).

    1. `AddrRange` and its tests, with the interleaving bits removed and restored as the header does
       it: the lowest bit of each mask is deleted, lowest first, and restored from the parity that
       the other bits of the mask leave over.
    2. Each of the three loops read bit by bit (`getLsbD_removeLoop`, `getLsbD_addLoop`,
       `selectLoop_spec`).
    3. An address is settled by its bits off the deleted positions and its parities
       (`Interleaved.unique`), so removing is undone wherever the restored bit is the right one.

  The crux is the restored bit.  `addIntlvBits` hides the lowest bit of a mask with `~(1 << lsb)`,
  and that `1` is an `int`: up to bit 30 the mask is right, at bit 31 it also hides every bit above,
  and from bit 32 on the shift is undefined.

  An `Option` result is `none` where the code panics or the language leaves the value undefined.
-/
import Mathlib.Data.List.Sort
import Mathlib.Data.List.Pairwise
import Gem5Dvr.Uop
import Gem5Dvr.Bitfield
import Gem5Dvr.Lib.BitPlaces

namespace Gem5Dvr

open List
open BitVec (eq_of_getLsbD_eq getLsbD_and getLsbD_not getLsbD_of_ge getLsbD_one getLsbD_shiftLeft
  lt_of_getLsbD ofNat)

open Bitfield BitPlaces

/-- `AddrRange`.  `match_fits` is the constructor's `fatal_if`, which shifts `1ULL` by the number of
    masks and so wants fewer than 64. -/
structure AddrRange where
  _start : Addr
  _end : Addr
  masks : List Addr
  intlvMatch : BitVec 8
  match_fits : masks ≠ [] → masks.length < 64 ∧ intlvMatch.toNat < 2 ^ masks.length
  deriving DecidableEq

theorem AddrRange.fits_nil : ([] : List Addr) ≠ [] →
    ([] : List Addr).length < 64 ∧ (0 : BitVec 8).toNat < 2 ^ ([] : List Addr).length :=
  fun h => absurd rfl h

/-- `x << n` on an `int`. -/
def shiftInt (x : BitVec 32) (n : Nat) : Option (BitVec 32) :=
  if n < 32 then some (x <<< n) else none

namespace AddrRange

/-! ## The range -/

/-- The range is interleaved. -/
def interleaved (r : AddrRange) : Bool := decide (0 < r.masks.length)

/-- `(_end - _start) >> masks.size()`. -/
def size (r : AddrRange) : Addr := (r._end - r._start) >>> r.masks.length

/-- The start is not above the end. -/
def valid (r : AddrRange) : Bool := decide (r._start.toNat ≤ r._end.toNat)

/-- The masks are combined in an `int`, which is widened again for `ctz64`. -/
def granularity (r : AddrRange) : Option Addr :=
  if r.interleaved then
    let combined_mask : BitVec 32 := r.masks.foldl (fun c m => c ||| m.setWidth 32) 0
    let lowest_bit := ctz64 (combined_mask.signExtend 64)
    if lowest_bit < 64 then some (1#64 <<< lowest_bit) else none
  else some r.size

/-- The same start, end and masks. -/
def mergesWith (s r : AddrRange) : Bool :=
  r._start == s._start && r._end == s._end && r.masks == s.masks

/-- The loop of `contains`: bit `i` of `sel` is the parity of the address under mask `i`. -/
def selLoop (a : Addr) : List Addr → Nat → BitVec 32 → Option (BitVec 32)
  | [], _, sel => some sel
  | m :: ms, i, sel => do
    let bit ← shiftInt (ofNat 32 (popCount (a &&& m) % 2)) i
    selLoop a ms (i + 1) (sel ||| bit)

/-- The address is in the range, and in its stripe. -/
def contains (r : AddrRange) (a : Addr) : Option Bool := do
  let in_range := decide (r._start.toNat ≤ a.toNat) && decide (a.toNat < r._end.toNat)
  if in_range then
    let sel ← selLoop a r.masks 0 0#32
    return sel == r.intlvMatch.setWidth 32
  else return false

/-- `s.intersects(r)`. -/
def intersects (s r : AddrRange) : Option Bool :=
  if r._end.toNat ≤ s._start.toNat ∨ s._end.toNat ≤ r._start.toNat then some false
  else if !s.interleaved && !r.interleaved then some true
  else if r.size == 1 then s.contains r._start
  else if s.mergesWith r then some (s.intlvMatch == r.intlvMatch)
  else none

/-- `s.isSubset(r)`. -/
def isSubset (s r : AddrRange) : Option Bool :=
  if s.interleaved then none
  else if r.interleaved then do
    if !(← r.contains s._start) then return false
    if !(← r.contains (s._end - 1)) then return false
    let g ← r.granularity
    return decide (s.size.toNat ≤ g.toNat)
  else some (decide (r._start.toNat ≤ s._start.toNat) && decide (s._end.toNat ≤ r._end.toNat))

/-! ## The interleaving bits -/

/-- `masks_lsb` after `std::sort`. -/
def masksLsb (r : AddrRange) : List Nat := (r.masks.map ctz64).insertionSort (· ≤ ·)

/-- The loop of `removeIntlvBits` from index `i` on.  `intlv_bit - i - 1` is an `unsigned`. -/
def removeLoop : List Nat → Nat → Addr → Addr
  | [], _, a => a
  | intlv_bit :: bits, i, a =>
    removeLoop bits (i + 1) <|
      if 0 < intlv_bit then
        insertBits (a >>> 1) (ofNat 32 intlv_bit - ofNat 32 i - 1#32) 0#32 a
      else a >>> 1

/-- The address without its stripe. -/
def removeIntlvBits (r : AddrRange) (a : Addr) : Addr :=
  if !r.interleaved then a else removeLoop r.masksLsb 0 a

/-- The first loop of `addIntlvBits`: make room for the bits. -/
def addLoop : List Nat → Addr → Addr
  | [], a => a
  | intlv_bit :: bits, a =>
    addLoop bits <|
      if 0 < intlv_bit then insertBits (a <<< 1) (ofNat 32 intlv_bit - 1#32) 0#32 a
      else a <<< 1

/-- `bits(intlvMatch, i)`: the byte is shifted as an `int`. -/
def matchBit (intlvMatch : BitVec 8) (i : Nat) : Option Addr :=
  if i < 32 then some ((intlvMatch.setWidth 64 >>> i) &&& 1#64) else none

/-- `~(1 << lsb)`, as the 64-bit operand it becomes. -/
def clearLsb (lsb : Nat) : Option Addr := (shiftInt 1#32 lsb).map fun x => (~~~ x).signExtend 64

/-- The second loop of `addIntlvBits`: set the lowest bit of each mask to whatever satisfies the
    selector bit. -/
def selectLoop (intlvMatch : BitVec 8) : List Addr → Nat → Addr → Option Addr
  | [], _, a => some a
  | m :: ms, i, a => do
    let lsb := ctz64 m
    let intlv_bit ← matchBit intlvMatch i
    let clear ← clearLsb lsb
    let masked := a &&& m &&& clear
    selectLoop intlvMatch ms (i + 1) (insertBits a (ofNat 32 lsb) (ofNat 32 lsb)
        (intlv_bit ^^^ ofNat 64 (popCount masked)))

/-- The address within the stripe. -/
def addIntlvBits (r : AddrRange) (a : Addr) : Option Addr :=
  if !r.interleaved then some a
  else selectLoop r.intlvMatch r.masks 0 (addLoop r.masksLsb a)

/-- `getOffset`, `MaxAddr` for an address out of range. -/
def getOffset (r : AddrRange) (a : Addr) : Addr :=
  let in_range := decide (r._start.toNat ≤ a.toNat) && decide (a.toNat < r._end.toNat)
  if !in_range then BitVec.allOnes 64
  else if r.interleaved then r.removeIntlvBits a - r.removeIntlvBits r._start
  else a - r._start

/-! ## The loops, bit by bit -/

/-- Deleting the bits `L`, lowest first, reads the result at the places around `L`. -/
theorem getLsbD_removeLoop {L : List Nat} (hL : L.Pairwise (· < ·)) (h64 : ∀ p ∈ L, p < 64)
    {i : Nat} (hi : ∀ p ∈ L, i ≤ p) (a : Addr) (j : Nat) :
    (removeLoop L i a).getLsbD j = a.getLsbD (place (L.map (· - i)) j) := by
  induction L generalizing i a j with
  | nil => rfl
  | cons p ps ih =>
    obtain ⟨hp, hps⟩ := pairwise_cons.mp hL
    have hip : i ≤ p := hi p mem_cons_self
    have hp64 : p < 64 := h64 p mem_cons_self
    -- one step deletes the bit that has come to stand at `p - i`
    have hstep : ∀ x, (if 0 < p then
          insertBits (a >>> 1) (ofNat 32 p - ofNat 32 i - 1#32) 0#32 a
        else a >>> 1).getLsbD x = a.getLsbD (skip (p - i) x) := by
      intro x
      by_cases hpos : 0 < p
      · have hsub : ofNat 32 p - ofNat 32 i = ofNat 32 (p - i) := by
          apply BitVec.eq_of_toNat_eq
          simp only [BitVec.toNat_sub, BitVec.toNat_ofNat]
          omega
        rw [if_pos hpos, hsub, getLsbD_insertLow _ _ (by omega), BitVec.getLsbD_ushiftRight, skip,
          Nat.add_comm 1 x]
        split <;> rfl
      · have hzero : p - i = 0 := by omega
        rw [if_neg hpos, hzero, BitVec.getLsbD_ushiftRight, Nat.add_comm 1 x]
        rfl
    have hmap : (ps.map (· - i)).map (· - 1) = ps.map (· - (i + 1)) := by
      rw [map_map]
      apply map_congr_left
      intro q _
      show q - i - 1 = q - (i + 1)
      omega
    have hlt : ∀ q ∈ ps.map (· - i), p - i < q := by
      intro q hq
      obtain ⟨s, hs, rfl⟩ := mem_map.mp hq
      have := hp s hs
      show p - i < s - i
      omega
    have hnext : ∀ q ∈ ps, i + 1 ≤ q := by
      intro q hq
      have := hp q hq
      omega
    show (removeLoop ps (i + 1) _).getLsbD j = a.getLsbD (place (ps.map (· - i)) (skip (p - i) j))
    rw [ih hps (fun q hq => h64 q (mem_cons_of_mem p hq)) hnext, hstep, ← hmap, skip_place_pred hlt]

/-- Making room at the bits `L` moves bit `j` to the `j`-th place around `L`. -/
theorem getLsbD_addLoop {L : List Nat} (h64 : ∀ p ∈ L, p < 64) (b : Addr) {j : Nat}
    (hj : place L j < 64) : (addLoop L b).getLsbD (place L j) = b.getLsbD j := by
  induction L generalizing b j with
  | nil => rfl
  | cons p ps ih =>
    have hp64 : p < 64 := h64 p mem_cons_self
    have hj' : place ps (skip p j) < 64 := hj
    have hskip : skip p j < 64 := Nat.lt_of_le_of_lt (le_place ps (skip p j)) hj'
    show (addLoop ps _).getLsbD (place ps (skip p j)) = b.getLsbD j
    rw [ih (fun q hq => h64 q (mem_cons_of_mem p hq)) _ hj']
    by_cases hpos : 0 < p
    · rw [if_pos hpos, getLsbD_insertLow _ _ hp64, getLsbD_shiftLeft]
      unfold skip at hskip ⊢
      split at hskip
      · rename_i hlt
        rw [if_pos hlt, if_pos hlt]
      · rename_i hlt
        rw [if_neg hlt, if_neg (by omega)]
        simp [hskip]
    · have hp0 : ¬ j < p := by omega
      unfold skip at hskip ⊢
      rw [if_neg hp0] at hskip ⊢
      rw [if_neg hpos, getLsbD_shiftLeft]
      simp [hskip]

/-- The parity the selector asks of mask `i`. -/
def matchParity (intlvMatch : BitVec 8) (i : Nat) : Nat := (intlvMatch.getLsbD i).toNat

theorem matchParity_lt (intlvMatch : BitVec 8) (i : Nat) : matchParity intlvMatch i < 2 := by
  unfold matchParity
  cases intlvMatch.getLsbD i <;> decide

/-- The lowest bit of `intlv_bit ^ popCount(masked)`. -/
theorem getLsbD_restored (intlvMatch : BitVec 8) (i n : Nat) :
    ((intlvMatch.setWidth 64 >>> i) &&& 1#64 ^^^ ofNat 64 n).getLsbD 0 =
      decide (n % 2 ≠ matchParity intlvMatch i) := by
  have hbit : ((intlvMatch.setWidth 64 >>> i) &&& 1#64).getLsbD 0 = intlvMatch.getLsbD i := by
    by_cases h : i < 64
    · simp [h]
    · simp [h, getLsbD_of_ge intlvMatch i (by omega)]
  rw [BitVec.getLsbD_xor, hbit, BitVec.getLsbD_ofNat, Nat.testBit_zero, matchParity]
  rcases Nat.mod_two_eq_zero_or_one n with hn | hn
  · rw [hn]
    cases intlvMatch.getLsbD i <;> decide
  · rw [hn]
    cases intlvMatch.getLsbD i <;> decide

/-- `~(1 << lsb)` up to bit 30 is every bit but `lsb`. -/
theorem getLsbD_clearLsb {lsb : Nat} {clear : Addr} (hc : clearLsb lsb = some clear)
    (hlsb : lsb < 31) {j : Nat} (hj : j < 64) : clear.getLsbD j = decide (j ≠ lsb) := by
  have h32 : lsb < 32 := by omega
  simp only [clearLsb, shiftInt, h32, if_true, Option.map_some, Option.some.injEq] at hc
  subst hc
  have hmsb : (~~~ (1#32 <<< lsb)).msb = true := by
    rw [BitVec.msb_eq_getLsbD_last, getLsbD_not, getLsbD_shiftLeft,
      getLsbD_one]
    have hne : ¬ 31 - lsb = 0 := by omega
    simp [hne]
  rw [BitVec.getLsbD_signExtend, hmsb, getLsbD_not, getLsbD_shiftLeft,
    getLsbD_one]
  by_cases hj32 : j < 32
  · rcases Nat.lt_trichotomy j lsb with hlt | heq | hgt
    · have hne : j ≠ lsb := by omega
      simp [hj, hj32, hlt, hne]
    · subst heq
      simp [hj, hj32]
    · have hne : j ≠ lsb := by omega
      have hge : ¬ j < lsb := by omega
      have hsub : ¬ j - lsb = 0 := by omega
      simp [hj, hj32, hge, hsub, hne]
  · have hne : j ≠ lsb := by omega
    simp [hj, hj32, hne]

/-- At bit 31 the negated `int` is positive, and every bit from 31 up is hidden. -/
theorem getLsbD_clearLsb_sign {clear : Addr} (hc : clearLsb 31 = some clear) {j : Nat}
    (hj : 31 ≤ j) : clear.getLsbD j = false := by
  have hval : clearLsb 31 = some 0x7fffffff#64 := by decide
  rw [hval, Option.some.injEq] at hc
  subst hc
  have h : ∀ k < 33, (0x7fffffff#64).getLsbD (31 + k) = false := by decide
  by_cases h64 : j < 64
  · have := h (j - 31) (by omega)
    rwa [show 31 + (j - 31) = j by omega] at this
  · exact getLsbD_of_ge _ j (by omega)

theorem clearLsb_lt {lsb : Nat} {clear : Addr} (hc : clearLsb lsb = some clear) : lsb < 32 := by
  by_cases h : lsb < 32
  · exact h
  · simp [clearLsb, shiftInt, h] at hc

/-- The lowest bit itself is always hidden. -/
theorem getLsbD_clearLsb_self {lsb : Nat} {clear : Addr} (hc : clearLsb lsb = some clear) :
    clear.getLsbD lsb = false := by
  rcases Nat.lt_or_ge lsb 31 with hlt | hge
  · rw [getLsbD_clearLsb hc hlt (by omega)]
    simp
  · have h31 : lsb = 31 := by have := clearLsb_lt hc; omega
    subst h31
    exact getLsbD_clearLsb_sign hc (Nat.le_refl 31)

/-- Disjoint masks share no bit. -/
theorem ne_of_disjoint {m n : Addr} (h : m &&& n = 0) {p q : Nat} (hp : m.getLsbD p = true)
    (hq : n.getLsbD q = true) : p ≠ q := by
  rintro rfl
  have hbit : (m &&& n).getLsbD p = false := by rw [h]; simp
  rw [getLsbD_and, hp, hq] at hbit
  exact absurd hbit (by decide)

/-- What the second loop leaves: other bits untouched, the lowest bit of each mask set so that it
    and the bits the code has counted give the selector bit. -/
theorem selectLoop_spec (intlvMatch : BitVec 8) {ms : List Addr} (hnz : ∀ m ∈ ms, m ≠ 0)
    (hdis : ms.Pairwise fun m n => m &&& n = 0) {i : Nat} {a a' : Addr}
    (h : selectLoop intlvMatch ms i a = some a') :
    (∀ j, (∀ m ∈ ms, ctz64 m ≠ j) → a'.getLsbD j = a.getLsbD j) ∧
    ∀ k m, ms[k]? = some m → ∃ clear, clearLsb (ctz64 m) = some clear ∧ a'.getLsbD (ctz64 m) =
        decide (popCount (a' &&& m &&& clear) % 2 ≠ matchParity intlvMatch (i + k)) := by
  induction ms generalizing i a with
  | nil =>
    obtain rfl : a = a' := by simpa [selectLoop] using h
    exact ⟨fun _ _ => rfl, fun k m hk => by simp at hk⟩
  | cons m ms ih =>
    obtain ⟨hm, hms⟩ := pairwise_cons.mp hdis
    have hm0 : m ≠ 0 := hnz m mem_cons_self
    simp only [selectLoop, Option.bind_eq_bind, Option.bind_eq_some_iff] at h
    obtain ⟨intlv_bit, hbit, clear, hclear, h⟩ := h
    obtain ⟨hoff, hon⟩ := ih (fun n hn => hnz n (mem_cons_of_mem m hn)) hms h
    have hone := getLsbD_insertBit a
      (intlv_bit ^^^ ofNat 64 (popCount (a &&& m &&& clear))) (ctz64_lt hm0)
    -- no later mask has its lowest bit in `m`
    have hothers : ∀ j, m.getLsbD j = true → ∀ n ∈ ms, ctz64 n ≠ j := fun j hj n hn =>
      (ne_of_disjoint (hm n hn) hj (getLsbD_ctz64 (hnz n (mem_cons_of_mem m hn)))).symm
    constructor
    · intro j hj
      rw [hoff j fun n hn => hj n (mem_cons_of_mem m hn), hone, if_neg (hj m mem_cons_self).symm]
    · intro k n hk
      cases k with
      | zero =>
        obtain rfl : m = n := by simpa using hk
        have hsame : a' &&& m &&& clear = a &&& m &&& clear := by
          apply eq_of_getLsbD_eq
          intro j _
          simp only [getLsbD_and]
          by_cases hj : j = ctz64 m
          · rw [hj, getLsbD_clearLsb_self hclear, Bool.and_false, Bool.and_false]
          · cases hmj : m.getLsbD j with
            | false => simp
            | true => rw [hoff j (hothers j hmj), hone, if_neg hj]
        have hi : i < 32 := by
          by_cases hi : i < 32
          · exact hi
          · simp [matchBit, hi] at hbit
        rw [matchBit, if_pos hi, Option.some.injEq] at hbit
        refine ⟨clear, hclear, ?_⟩
        rw [hoff _ (hothers _ (getLsbD_ctz64 hm0)), hone, if_pos rfl, ← hbit, getLsbD_restored,
          hsame, Nat.add_zero]
      | succ k =>
        obtain ⟨clear', hclear', hval⟩ := hon k n (by simpa using hk)
        refine ⟨clear', hclear', ?_⟩
        rw [hval, show i + 1 + k = i + (k + 1) by omega]

/-- The second loop is defined exactly when every shift in it is. -/
theorem selectLoop_isSome (intlvMatch : BitVec 8) {ms : List Addr} {i : Nat} {a : Addr}
    (hi : i + ms.length ≤ 32) (h : ∀ m ∈ ms, ctz64 m < 32) :
    ∃ a', selectLoop intlvMatch ms i a = some a' := by
  induction ms generalizing i a with
  | nil => exact ⟨a, rfl⟩
  | cons m ms ih =>
    rw [length_cons] at hi
    have hi32 : i < 32 := by omega
    have hm : ctz64 m < 32 := h m mem_cons_self
    simp only [selectLoop, matchBit, clearLsb, shiftInt, hi32, hm, if_true, Option.map_some,
      Option.bind_eq_bind, Option.bind_some]
    exact ih (by omega) fun n hn => h n (mem_cons_of_mem m hn)

/-! ## An interleaved range -/

/-- The masks of an interleaved range: at least one, none of them zero, no bit in two of them. -/
structure Interleaving (r : AddrRange) : Prop where
  some_mask : r.masks ≠ []
  nonzero : ∀ m ∈ r.masks, m ≠ 0
  disjoint : r.masks.Pairwise fun m n => m &&& n = 0

/-- The parities of `a` under the masks equal `intlvMatch`. -/
def Selects (r : AddrRange) (a : Addr) : Prop :=
  ∀ i m, r.masks[i]? = some m → parity a m = matchParity r.intlvMatch i

theorem mem_masksLsb {r : AddrRange} {p : Nat} : p ∈ r.masksLsb ↔ ∃ m ∈ r.masks, ctz64 m = p := by
  unfold masksLsb
  rw [mem_insertionSort, mem_map]

theorem length_masksLsb (r : AddrRange) : r.masksLsb.length = r.masks.length := by
  unfold masksLsb
  rw [length_insertionSort, length_map]

namespace Interleaving

variable {r : AddrRange} (h : Interleaving r)
include h

theorem interleaved : r.interleaved = true := by
  exact decide_eq_true (length_pos_iff.mpr h.some_mask)

theorem lsb_lt : ∀ p ∈ r.masksLsb, p < 64 := by
  intro p hp
  obtain ⟨m, hm, rfl⟩ := mem_masksLsb.mp hp
  exact ctz64_lt (h.nonzero m hm)

/-- Disjoint masks have different lowest bits, so the sorted list is strictly increasing. -/
theorem lsb_sorted : r.masksLsb.Pairwise (· < ·) := by
  have hnodup : (r.masks.map ctz64).Nodup := by
    rw [nodup_iff_pairwise_ne, pairwise_map]
    refine List.Pairwise.imp_of_mem (fun {m n} hm hn hmn => ?_) h.disjoint
    exact ne_of_disjoint hmn (getLsbD_ctz64 (h.nonzero m hm)) (getLsbD_ctz64 (h.nonzero n hn))
  have hne : r.masksLsb.Pairwise (· ≠ ·) :=
    ((perm_insertionSort (· ≤ ·) (r.masks.map ctz64)).nodup_iff).mpr hnodup
  have hle : r.masksLsb.Pairwise (· ≤ ·) := pairwise_insertionSort (· ≤ ·) _
  exact (hle.and hne).imp fun hpq => Nat.lt_of_le_of_ne hpq.1 hpq.2

theorem getLsbD_removeIntlvBits (a : Addr) (j : Nat) :
    (r.removeIntlvBits a).getLsbD j = a.getLsbD (place r.masksLsb j) := by
  have hmap : r.masksLsb.map (· - 0) = r.masksLsb := by simp
  unfold removeIntlvBits
  rw [h.interleaved, Bool.not_true, if_neg (by decide),
    getLsbD_removeLoop h.lsb_sorted h.lsb_lt (fun p _ => Nat.zero_le p), hmap]

/-- A bit of a mask other than the lowest is never deleted. -/
theorem notMem_lsb {m : Addr} (hm : m ∈ r.masks) {j : Nat} (hj : m.getLsbD j = true)
    (hne : j ≠ ctz64 m) : j ∉ r.masksLsb := by
  intro hmem
  obtain ⟨n, hn, hnj⟩ := mem_masksLsb.mp hmem
  have hnbit : n.getLsbD j = true := by rw [← hnj]; exact getLsbD_ctz64 (h.nonzero n hn)
  by_cases hmn : m = n
  · subst hmn
    exact hne hnj.symm
  · have : Std.Symm fun m n : Addr => m &&& n = 0 := ⟨fun x y hxy => by rw [BitVec.and_comm, hxy]⟩
    exact ne_of_disjoint (h.disjoint.forall hm hn hmn) hj hnbit rfl

/-- An address is settled by its bits off the deleted positions and its parities. -/
theorem unique {x y : Addr} (hxy : ∀ j, j ∉ r.masksLsb → x.getLsbD j = y.getLsbD j)
    (hpar : ∀ m ∈ r.masks, parity x m = parity y m) : x = y := by
  apply eq_of_getLsbD_eq
  intro j _
  by_cases hj : j ∈ r.masksLsb
  · obtain ⟨m, hm, rfl⟩ := mem_masksLsb.mp hj
    by_contra hne
    refine parity_flip (getLsbD_ctz64 (h.nonzero m hm)) hne (fun i hi hmi => ?_) (hpar m hm)
    exact hxy i (h.notMem_lsb hm hmi hi)
  · exact hxy j hj

/-- `addIntlvBits` keeps the bits it is given, at the places around the masks' lowest bits. -/
theorem getLsbD_addIntlvBits {a b : Addr} (hadd : r.addIntlvBits b = some a) {j : Nat}
    (hj : place r.masksLsb j < 64) : a.getLsbD (place r.masksLsb j) = b.getLsbD j := by
  unfold addIntlvBits at hadd
  rw [h.interleaved, Bool.not_true, if_neg (by decide)] at hadd
  obtain ⟨hoff, _⟩ := selectLoop_spec r.intlvMatch h.nonzero h.disjoint hadd
  rw [hoff _ fun m hm heq => place_notMem h.lsb_sorted j (mem_masksLsb.mpr ⟨m, hm, heq⟩),
    getLsbD_addLoop h.lsb_lt b hj]

/-- The bit it restores for mask `k`. -/
theorem restored_bit {a b : Addr} (hadd : r.addIntlvBits b = some a) {k : Nat} {m : Addr}
    (hk : r.masks[k]? = some m) : ∃ clear, clearLsb (ctz64 m) = some clear ∧ a.getLsbD (ctz64 m) =
        decide (popCount (a &&& m &&& clear) % 2 ≠ matchParity r.intlvMatch k) := by
  unfold addIntlvBits at hadd
  rw [h.interleaved, Bool.not_true, if_neg (by decide)] at hadd
  obtain ⟨_, hon⟩ := selectLoop_spec r.intlvMatch h.nonzero h.disjoint hadd
  simpa using hon k m hk

/-- Removing what was added gives the address back, when it had room. -/
theorem removeIntlvBits_addIntlvBits {a b : Addr} (hadd : r.addIntlvBits b = some a)
    (hb : b.toNat < 2 ^ (64 - r.masks.length)) : r.removeIntlvBits a = b := by
  apply eq_of_getLsbD_eq
  intro j _
  rw [h.getLsbD_removeIntlvBits]
  have hiff := place_lt_iff h.lsb_sorted h.lsb_lt j
  rw [length_masksLsb] at hiff
  by_cases hj : place r.masksLsb j < 64
  · exact h.getLsbD_addIntlvBits hadd hj
  · have hhigh : 64 - r.masks.length ≤ j := by omega
    have hpow : 2 ^ (64 - r.masks.length) ≤ 2 ^ j := Nat.pow_le_pow_right (by decide) hhigh
    rw [getLsbD_of_ge a _ (by omega), ← BitVec.testBit_toNat,
      Nat.testBit_lt_two_pow (Nat.lt_of_lt_of_le hb hpow)]

end Interleaving

/-! ## Removing and restoring -/

/-- Interleaving bits can be removed and restored. -/
def IntlvRestored (r : AddrRange) : Prop :=
  (∀ a, Selects r a → r.addIntlvBits (r.removeIntlvBits a) = some a) ∧
  ∀ b : Addr, b.toNat < 2 ^ (64 - r.masks.length) →
    ∃ a, r.addIntlvBits b = some a ∧ r.removeIntlvBits a = b ∧ Selects r a

/-- The lowest bit of the mask is one that `~(1 << lsb)` hides alone: below 31, or the mask is
    bit 31 by itself. -/
def Hideable (m : Addr) : Prop := ctz64 m < 31 ∨ m = 1#64 <<< 31

instance (m : Addr) : Decidable (Hideable m) := inferInstanceAs (Decidable (_ ∨ _))

theorem ctz64_bit31 : ctz64 (1#64 <<< 31) = 31 := by decide

theorem Hideable.ctz64_lt {m : Addr} (h : Hideable m) : ctz64 m < 32 := by
  rcases h with hlt | rfl
  · omega
  · rw [ctz64_bit31]
    decide

/-- Then the bits the code counts are the bits of the mask above the lowest. -/
theorem Hideable.getLsbD_clear {m clear : Addr} (h : Hideable m)
    (hc : clearLsb (ctz64 m) = some clear)
    {j : Nat} (hj : m.getLsbD j = true) (hne : j ≠ ctz64 m) : clear.getLsbD j = true := by
  rcases h with hlt | rfl
  · rw [getLsbD_clearLsb hc hlt (lt_of_getLsbD hj)]
    exact decide_eq_true hne
  · have hbit : ∀ j < 64, (1#64 <<< 31).getLsbD j = true → j = 31 := by decide
    exact absurd (hbit j (lt_of_getLsbD hj) hj) hne

/-- With every lowest bit hideable, the restored address has the parities of the selector. -/
theorem Interleaving.selects_addIntlvBits {r : AddrRange} (h : Interleaving r)
    (hide : ∀ m ∈ r.masks, Hideable m) {a b : Addr} (hadd : r.addIntlvBits b = some a) :
    Selects r a := by
  intro k m hk
  have hm : m ∈ r.masks := mem_of_getElem? hk
  have hlow : m.getLsbD (ctz64 m) = true := getLsbD_ctz64 (h.nonzero m hm)
  obtain ⟨clear, hclear, hbit⟩ := h.restored_bit hadd hk
  have hself := getLsbD_clearLsb_self hclear
  -- off the lowest bit the counted word is the masked word
  have hoff : ∀ j, j ≠ ctz64 m → (a &&& m).getLsbD j = (a &&& m &&& clear).getLsbD j := by
    intro j hj
    simp only [getLsbD_and]
    cases hmj : m.getLsbD j with
    | false => simp
    | true => rw [(hide m hm).getLsbD_clear hclear hmj hj, Bool.and_true, Bool.and_true]
  have hlt := matchParity_lt r.intlvMatch k
  unfold parity
  cases hal : a.getLsbD (ctz64 m) with
  | true =>
    have hcount : popCount (a &&& m) = popCount (a &&& m &&& clear) + 1 :=
      popCount_flip (by simp [hal, hlow]) (by simp [hself]) hoff
    rw [hal] at hbit
    have := of_decide_eq_true hbit.symm
    omega
  | false =>
    have hsame : a &&& m = a &&& m &&& clear := by
      apply eq_of_getLsbD_eq
      intro j _
      by_cases hj : j = ctz64 m
      · subst hj
        simp [hal]
      · exact hoff j hj
    rw [hal] at hbit
    have := of_decide_eq_false hbit.symm
    rw [hsame]
    omega

/-- The lowest bits are different numbers, so with all of them below 32 there are at most 32. -/
theorem Interleaving.masks_le {r : AddrRange} (h : Interleaving r) {w : Nat}
    (hw : ∀ m ∈ r.masks, ctz64 m < w) : r.masks.length ≤ w := by
  rw [← length_masksLsb]
  refine length_le h.lsb_sorted fun p hp => ?_
  obtain ⟨m, hm, rfl⟩ := mem_masksLsb.mp hp
  exact hw m hm

theorem Interleaving.addIntlvBits_isSome {r : AddrRange} (h : Interleaving r)
    (hide : ∀ m ∈ r.masks, Hideable m) (b : Addr) : ∃ a, r.addIntlvBits b = some a := by
  unfold addIntlvBits
  rw [h.interleaved, Bool.not_true, if_neg (by decide)]
  have hlt : ∀ m ∈ r.masks, ctz64 m < 32 := fun m hm => (hide m hm).ctz64_lt
  refine selectLoop_isSome r.intlvMatch ?_ hlt
  have := h.masks_le hlt
  omega

/-- A shift past the `int` leaves no address. -/
theorem Interleaving.ctz64_lt_of_isSome {r : AddrRange} (h : Interleaving r) {a b : Addr}
    (hadd : r.addIntlvBits b = some a) {m : Addr} (hm : m ∈ r.masks) : ctz64 m < 32 := by
  obtain ⟨k, hk⟩ := getElem?_of_mem hm
  obtain ⟨clear, hclear, _⟩ := h.restored_bit hadd hk
  exact clearLsb_lt hclear

/-- Bit 31 alone, or nothing. -/
def bit31 (c : Bool) : Addr := if c then 1#64 <<< 31 else 0#64

theorem getLsbD_bit31 (c : Bool) (j : Nat) : (bit31 c).getLsbD j = (c && decide (j = 31)) := by
  have hone : ∀ j < 64, (1#64 <<< 31).getLsbD j = decide (j = 31) := by decide
  cases c with
  | false => simp [bit31]
  | true =>
    show (1#64 <<< 31).getLsbD j = (true && decide (j = 31))
    rcases Nat.lt_or_ge j 64 with hlt | hge
    · rw [hone j hlt, Bool.true_and]
    · have hne : j ≠ 31 := by omega
      rw [getLsbD_of_ge _ j hge, decide_eq_false hne, Bool.and_false]

theorem bit31_and {m : Addr} (hm : m.getLsbD 31 = true) (c : Bool) : bit31 c &&& m = bit31 c := by
  apply eq_of_getLsbD_eq
  intro j _
  rw [getLsbD_and, getLsbD_bit31]
  by_cases hj : j = 31
  · rw [hj, hm, Bool.and_true]
  · rw [decide_eq_false hj, Bool.and_false, Bool.false_and]

theorem popCount_bit31 (c : Bool) : popCount (bit31 c) % 2 = c.toNat := by
  cases c <;> decide

/-- With bit 31 the lowest of a mask of more bits, an address with one of the others set, and no
    other bit off the lowest ones, gets the wrong parity. -/
theorem Interleaving.not_selects {r : AddrRange} (h : Interleaving r) {m : Addr} (hm : m ∈ r.masks)
    (hlow : ctz64 m = 31) {q : Nat} (hq : m.getLsbD q = true) (hq31 : q ≠ 31) {a b : Addr}
    (hadd : r.addIntlvBits b = some a) (hset : a.getLsbD q = true)
    (hclear : ∀ j, j ∉ r.masksLsb → j ≠ q → a.getLsbD j = false) : ¬ Selects r a := by
  obtain ⟨k, hk⟩ := getElem?_of_mem hm
  obtain ⟨clear, hc, hbit⟩ := h.restored_bit hadd hk
  rw [hlow] at hc hbit
  have hm31 : m.getLsbD 31 = true := by rw [← hlow]; exact getLsbD_ctz64 (h.nonzero m hm)
  -- nothing of the mask is counted
  have hnone : a &&& m &&& clear = 0#64 := by
    apply eq_of_getLsbD_eq
    intro j _
    rw [getLsbD_and, getLsbD_and, BitVec.getLsbD_zero]
    rcases Nat.lt_or_ge j 31 with hlt | hge
    · rw [getLsbD_lt_ctz64 (h.nonzero m hm) (by rw [hlow]; exact hlt), Bool.and_false,
        Bool.false_and]
    · rw [getLsbD_clearLsb_sign hc hge, Bool.and_false]
  have hzero : popCount 0#64 = 0 := by decide
  rw [hnone, hzero, Nat.zero_mod] at hbit
  -- without bit `q` the parity would be that of bit 31 alone, which is the selector's
  have hz : ∀ j, j ≠ q → m.getLsbD j = true → (bit31 (a.getLsbD 31)).getLsbD j = a.getLsbD j := by
    intro j hj hmj
    rw [getLsbD_bit31]
    by_cases h31 : j = 31
    · rw [h31, decide_eq_true rfl, Bool.and_true]
    · rw [hclear j (h.notMem_lsb hm hmj (by rw [hlow]; exact h31)) hj, decide_eq_false h31,
        Bool.and_false]
  have hzq : (bit31 (a.getLsbD 31)).getLsbD q = false := by
    rw [getLsbD_bit31, decide_eq_false hq31, Bool.and_false]
  have hzpar : parity (bit31 (a.getLsbD 31)) m = matchParity r.intlvMatch k := by
    have hlt := matchParity_lt r.intlvMatch k
    rw [parity, bit31_and hm31, popCount_bit31]
    cases ha : a.getLsbD 31 with
    | true =>
      rw [ha] at hbit
      have := of_decide_eq_true hbit.symm
      show 1 = matchParity r.intlvMatch k
      omega
    | false =>
      rw [ha] at hbit
      have := of_decide_eq_false hbit.symm
      show 0 = matchParity r.intlvMatch k
      omega
  intro hsel
  refine parity_flip (x := a) (y := bit31 (a.getLsbD 31)) hq (by rw [hset, hzq]; decide)
    (fun j hj hmj => (hz j hj hmj).symm) ?_
  rw [hsel k m hk, hzpar]

/-- Interleaving bits are removed and restored exactly when the `int` in `~(1 << lsb)` hides the
    lowest bit of every mask and nothing else of it. -/
theorem intlvBits_restored_iff (r : AddrRange) (h : Interleaving r) :
    IntlvRestored r ↔ ∀ m ∈ r.masks, Hideable m := by
  constructor
  · rintro ⟨_, hadd⟩ m hm
    obtain ⟨a₀, ha₀, _⟩ := hadd 0 (Nat.two_pow_pos _)
    have h32 : ctz64 m < 32 := h.ctz64_lt_of_isSome ha₀ hm
    by_contra hnot
    have hlow : ctz64 m = 31 := by
      have : ¬ ctz64 m < 31 := fun hlt => hnot (.inl hlt)
      omega
    -- another bit of the mask, above 31
    have hother : ∃ q, m.getLsbD q = true ∧ q ≠ 31 := by
      by_contra hnone
      refine hnot (.inr ?_)
      have hbit := getLsbD_bit31 true
      apply eq_of_getLsbD_eq
      intro j _
      show m.getLsbD j = (bit31 true).getLsbD j
      rw [hbit, Bool.true_and]
      by_cases hj : j = 31
      · rw [hj, ← hlow, getLsbD_ctz64 (h.nonzero m hm), hlow]
        decide
      · rw [decide_eq_false hj]
        by_contra htrue
        exact hnone ⟨j, by simpa using htrue, hj⟩
    obtain ⟨q, hq, hq31⟩ := hother
    have hqL : q ∉ r.masksLsb := h.notMem_lsb hm hq (by rw [hlow]; exact hq31)
    have hq64 : q < 64 := lt_of_getLsbD hq
    obtain ⟨j₀, hj₀⟩ := exists_place h.lsb_sorted hqL
    have hroom : j₀ + r.masks.length < 64 := by
      rw [← length_masksLsb, ← place_lt_iff h.lsb_sorted h.lsb_lt, hj₀]
      exact hq64
    -- the address to restore has only the bit that goes to `q`
    have hj64 : j₀ < 64 := by omega
    obtain ⟨a, ha, _, hsel⟩ := hadd (BitVec.twoPow 64 j₀) (by
      rw [BitVec.toNat_twoPow_of_lt hj64]
      exact Nat.pow_lt_pow_right (by decide) (by omega))
    refine h.not_selects hm hlow hq hq31 ha ?_ (fun j hj hjq => ?_) hsel
    · rw [← hj₀, h.getLsbD_addIntlvBits ha (by rw [hj₀]; exact hq64), BitVec.getLsbD_twoPow]
      simp [hj64]
    · obtain ⟨i, rfl⟩ := exists_place h.lsb_sorted hj
      by_cases h64 : place r.masksLsb i < 64
      · have hne : j₀ ≠ i := by
          rintro rfl
          exact hjq hj₀
        rw [h.getLsbD_addIntlvBits ha h64, BitVec.getLsbD_twoPow, decide_eq_false hne,
          Bool.and_false]
      · exact getLsbD_of_ge _ _ (by omega)
  · intro hide
    constructor
    · intro a hsel
      obtain ⟨a', ha'⟩ := h.addIntlvBits_isSome hide (r.removeIntlvBits a)
      have hsel' := h.selects_addIntlvBits hide ha'
      have heq : a' = a := by
        refine h.unique (fun j hj => ?_) fun m hm => ?_
        · obtain ⟨i, rfl⟩ := exists_place h.lsb_sorted hj
          by_cases h64 : place r.masksLsb i < 64
          · rw [h.getLsbD_addIntlvBits ha' h64, h.getLsbD_removeIntlvBits]
          · rw [getLsbD_of_ge a' _ (by omega), getLsbD_of_ge a _ (by omega)]
        · obtain ⟨k, hk⟩ := getElem?_of_mem hm
          rw [hsel' k m hk, hsel k m hk]
      rw [ha', heq]
    · intro b hb
      obtain ⟨a, ha⟩ := h.addIntlvBits_isSome hide b
      exact ⟨a, ha, h.removeIntlvBits_addIntlvBits ha hb, h.selects_addIntlvBits hide ha⟩

/-- The third of four banks, the low selector bit hashed with bit 14. -/
def thirdOfFour : AddrRange where
  _start := 0x80000000#64
  _end := 0xc0000000#64
  masks := [0x4100#64, 0x200#64]
  intlvMatch := 2#8
  match_fits := by decide

theorem thirdOfFour_interleaving : Interleaving thirdOfFour :=
  ⟨by decide, by simp [thirdOfFour], by simp [thirdOfFour]⟩

/-- Its bits are removed and restored. -/
theorem thirdOfFour_restored : IntlvRestored thirdOfFour := by
  refine (intlvBits_restored_iff thirdOfFour thirdOfFour_interleaving).mpr fun m hm => .inl ?_
  rcases (by simpa [thirdOfFour] using hm : m = 0x4100#64 ∨ m = 0x200#64) with rfl | rfl <;> decide

/-- Two banks of 2 GiB, hashed with bit 33. -/
def hashedAtBit31 : AddrRange where
  _start := 0x0#64
  _end := 0x400000000#64
  masks := [0x280000000#64]
  intlvMatch := 0#8
  match_fits := by decide

/-- The address with bits 31 and 33 set is in the range; restored, it comes back without bit 31. -/
theorem hashedAtBit31_not_restored :
    Interleaving hashedAtBit31 ∧ Selects hashedAtBit31 0x280000000#64 ∧
    hashedAtBit31.addIntlvBits (hashedAtBit31.removeIntlvBits 0x280000000#64) =
      some 0x200000000#64 ∧
    ¬ IntlvRestored hashedAtBit31 := by
  have hsel : Selects hashedAtBit31 0x280000000#64 := by
    intro i m hi
    cases i with
    | zero =>
      obtain rfl : 0x280000000#64 = m := by simpa [hashedAtBit31] using hi
      decide
    | succ i => simp [hashedAtBit31] at hi
  have hback : hashedAtBit31.addIntlvBits (hashedAtBit31.removeIntlvBits 0x280000000#64) =
      some 0x200000000#64 := by decide
  refine ⟨⟨by simp [hashedAtBit31], by simp [hashedAtBit31], by simp [hashedAtBit31]⟩, hsel, hback,
    ?_⟩
  rintro ⟨hrem, _⟩
  rw [hrem _ hsel] at hback
  exact absurd (Option.some.inj hback) (by decide)

end AddrRange

end Gem5Dvr
