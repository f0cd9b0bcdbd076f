/-
  The skewed indexing policy of the cache tags
  (`mem/cache/tags/indexing_policies/skewed_associative.cc`).

    1. The policy as its constructor accepts it, `hash` and `dehash`, the skewing functions and their
       inverses, a set for an address and an address for a tag and a set.
    2. `hash` clocks a shift register whose feedback is the `xor` of its ends (`hash_iterate`), so
       `Hⁿ = Hⁿ⁻¹ + 1` on words of `n` bits (`hash_characteristic`).
    3. Each way's function is undone by its inverse (`unskewing_skewing`), and a tag and a set give the
       block address back (`regenerateAddr_extract`).

  The crux is the odd ways: `H + 1` has no inverse written down in the code, which clocks the register
  `n - 1` times instead.
-/
import Mathlib.Data.Nat.Log
import Gem5Dvr.Bitfield
import Gem5Dvr.Lib.ShiftRegister

namespace Gem5Dvr

open Function
open BitVec (eq_of_getLsbD_eq getLsbD_and getLsbD_or getLsbD_setWidth getLsbD_shiftLeft
  getLsbD_ushiftRight getLsbD_xor ofNat toNat_sub xor_assoc xor_zero)

open Bitfield ShiftRegister

def floorLog2 (x : Nat) : Nat := x.log2

/-- `isPowerOf2`, of a `uint32_t`. -/
def isPowerOf2 (n : BitVec 32) : Bool := n != 0 && n &&& (n - 1) == 0

/-- `SkewedAssociative` over `BaseIndexingPolicy`, once the constructors have not failed. -/
structure SkewedAssociative where
  assoc : BitVec 32
  numSets : BitVec 32
  entry_size : Nat
  isPowerOf2_numSets : isPowerOf2 numSets = true
  assoc_pos : 0 < assoc.toNat
  bits_fit : floorLog2 entry_size + 2 * (floorLog2 numSets.toNat - 1 + 1) ≤ 64
  numSets_gt : 2 < numSets.toNat

namespace SkewedAssociative

variable (s : SkewedAssociative)

def setShift : Nat := floorLog2 s.entry_size
def setMask : BitVec 32 := s.numSets - 1
def tagShift : Nat := s.setShift + floorLog2 s.numSets.toNat
def msbShift : Nat := floorLog2 s.numSets.toNat - 1

/-- An `unsigned` bit number. -/
def bit (n : Nat) : BitVec 32 := ofNat 32 n

/-- `hash`: shift off the LSB and set the new MSB as the xor of the old LSB and MSB. -/
def hash (addr : BitVec 64) : BitVec 64 :=
  let lsb : BitVec 8 := (bits addr (bit 0) (bit 0)).setWidth 8
  let msb : BitVec 8 := (bits addr (bit s.msbShift) (bit s.msbShift)).setWidth 8
  let xor_bit := msb ^^^ lsb
  insertBits (addr >>> 1) (bit s.msbShift) (bit s.msbShift) (xor_bit.setWidth 64)

def dehash (addr : BitVec 64) : BitVec 64 :=
  let msb : BitVec 8 := (bits addr (bit (s.msbShift - 1)) (bit (s.msbShift - 1))).setWidth 8
  let xor_bit : BitVec 8 := (bits addr (bit s.msbShift) (bit s.msbShift)).setWidth 8
  let lsb := msb ^^^ xor_bit
  let addr_no_msb := mbits addr (bit (s.msbShift - 1)) (bit 0)
  insertBits (addr_no_msb <<< 1) (bit 0) (bit 0) (lsb.setWidth 64)

/-- The `switch` of `skew` on `way % NUM_SKEWING_FUNCTIONS`, whose `default` panics. -/
def skewing (way : Fin 8) (addr1 addr2 : BitVec 64) : BitVec 64 :=
  match way with
  | 0 => s.hash addr1 ^^^ s.hash addr2 ^^^ addr2
  | 1 => s.hash addr1 ^^^ s.hash addr2 ^^^ addr1
  | 2 => s.hash addr1 ^^^ s.dehash addr2 ^^^ addr2
  | 3 => s.hash addr1 ^^^ s.dehash addr2 ^^^ addr1
  | 4 => s.dehash addr1 ^^^ s.hash addr2 ^^^ addr2
  | 5 => s.dehash addr1 ^^^ s.hash addr2 ^^^ addr1
  | 6 => s.dehash addr1 ^^^ s.dehash addr2 ^^^ addr2
  | 7 => s.dehash addr1 ^^^ s.dehash addr2 ^^^ addr1

/-- The `switch` of `deskew`. -/
def unskewing (way : Fin 8) (addr1 addr2 : BitVec 64) : BitVec 64 :=
  match way with
  | 0 => s.dehash (addr1 ^^^ s.hash addr2 ^^^ addr2)
  | 1 => s.hash^[s.msbShift] (addr1 ^^^ s.hash addr2)
  | 2 => s.dehash (addr1 ^^^ s.dehash addr2 ^^^ addr2)
  | 3 => s.hash^[s.msbShift] (addr1 ^^^ s.dehash addr2)
  | 4 => s.hash (addr1 ^^^ s.hash addr2 ^^^ addr2)
  | 5 => s.hash^[s.msbShift + 1] (addr1 ^^^ s.hash addr2)
  | 6 => s.hash (addr1 ^^^ s.dehash addr2 ^^^ addr2)
  | 7 => s.hash^[s.msbShift + 1] (addr1 ^^^ s.dehash addr2)

/-- The set bits of a shifted address, and as many tag bits. -/
def setBits (addr : BitVec 64) : BitVec 64 := bits addr (bit s.msbShift) (bit 0)
def tagBits (addr : BitVec 64) : BitVec 64 :=
  bits addr (bit (2 * (s.msbShift + 1) - 1)) (bit (s.msbShift + 1))

def skew (addr : BitVec 64) (way : BitVec 32) : BitVec 64 :=
  -- more than 8 ways are piled up on hashes
  s.hash^[way.toNat / 8] (s.skewing (Fin.ofNat 8 way.toNat) (s.setBits addr) (s.tagBits addr))

def deskew (addr : BitVec 64) (way : BitVec 32) : BitVec 64 :=
  let addr1 := if 8 ≤ way.toNat then s.dehash^[way.toNat / 8] (s.setBits addr) else s.setBits addr
  s.unskewing (Fin.ofNat 8 way.toNat) addr1 (s.tagBits addr)

def extractTag (addr : BitVec 64) : BitVec 64 := addr >>> s.tagShift

def extractSet (addr : BitVec 64) (way : BitVec 32) : BitVec 32 :=
  (s.skew (addr >>> s.setShift) way &&& s.setMask.setWidth 64).setWidth 32

/-- `regenerateAddr(tag, entry)`, of the set and the way of the entry. -/
def regenerateAddr (tag : BitVec 64) (set way : BitVec 32) : BitVec 64 :=
  let addr_set := (tag <<< (s.msbShift + 1)) ||| set.setWidth 64
  (tag <<< s.tagShift) ||| ((s.deskew addr_set way &&& s.setMask.setWidth 64) <<< s.setShift)

/-! ## The number of set bits -/

/-- The set bits. -/
def width : Nat := s.msbShift + 1

theorem numSets_eq : s.numSets.toNat = 2 ^ s.width := by
  have hpow : s.numSets.toNat.isPowerOfTwo := by
    rw [← Nat.ne_zero_and_sub_one_eq_zero_iff_isPowerOfTwo]
    have h := s.isPowerOf2_numSets
    unfold isPowerOf2 at h
    rw [Bool.and_eq_true, beq_iff_eq] at h
    have hgt := s.numSets_gt
    refine ⟨by omega, ?_⟩
    have hsub : (s.numSets - 1).toNat = s.numSets.toNat - 1 := by
      have hone : (1 : BitVec 32).toNat = 1 := rfl
      rw [toNat_sub, hone]
      omega
    have hand := congrArg BitVec.toNat h.2
    rwa [BitVec.toNat_and, hsub] at hand
  obtain ⟨k, hk⟩ := hpow
  have hgt := s.numSets_gt
  have hlog : floorLog2 s.numSets.toNat = k := by
    rw [floorLog2, hk, Nat.log2_two_pow]
  have hpos : 1 ≤ k := by
    cases k with
    | zero =>
      rw [hk] at hgt
      exact absurd hgt (by decide)
    | succ k => omega
  rw [width, msbShift, hlog, hk, Nat.sub_add_cancel hpos]

theorem two_le_width : 2 ≤ s.width := by
  have hgt := s.numSets_gt
  rw [numSets_eq] at hgt
  by_contra h
  have hle : 2 ^ s.width ≤ 2 ^ 1 := Nat.pow_le_pow_right (by decide) (by omega)
  omega

theorem width_fits : s.setShift + 2 * s.width ≤ 64 := s.bits_fit

theorem tagShift_eq : s.tagShift = s.setShift + s.width := by
  have h : floorLog2 s.numSets.toNat = s.width := by
    rw [floorLog2, numSets_eq, Nat.log2_two_pow]
  rw [tagShift, h]

/-! ## The hash as a shift register -/

/-- A word of set bits only. -/
def IsWord (x : BitVec 64) : Prop := ∀ j, s.width ≤ j → x.getLsbD j = false

theorem getLsbD_hash (x : BitVec 64) (j : Nat) :
    (s.hash x).getLsbD j = clock s.width (ends s.width) x.getLsbD j := by
  have hfits := s.width_fits
  have hw : s.width = s.msbShift + 1 := rfl
  have hbit : ∀ n < 64, ∀ i, (bits x (bit n) (bit n)).getLsbD i = (decide (i = 0) && x.getLsbD n) := by
    intro n hn i
    rw [bit, getLsbD_bits x (Nat.le_refl n) hn i, Nat.sub_self]
    by_cases hi : i = 0
    · simp [hi]
    · have h1 : ¬ i < 0 + 1 := by omega
      simp [hi]
  have hlow := hbit 0 (by decide) 0
  have hhigh := hbit s.msbShift (by omega) 0
  rw [decide_eq_true rfl, Bool.true_and] at hlow hhigh
  unfold hash
  dsimp only
  rw [bit, getLsbD_insertBit _ _ (by omega)]
  unfold clock ends
  by_cases hj : j = s.msbShift
  · rw [if_pos hj, if_pos (by omega), hw, Nat.add_sub_cancel, getLsbD_setWidth,
      getLsbD_xor, getLsbD_setWidth, getLsbD_setWidth, ← hlow, ← hhigh]
    simp [bit]
  · rw [if_neg hj, if_neg (by omega), getLsbD_ushiftRight, Nat.add_comm]

variable {x y b : BitVec 64}

theorem getLsbD_dehash (j : Nat) : (s.dehash x).getLsbD j =
    if j = 0 then x.getLsbD (s.width - 2) ^^ x.getLsbD (s.width - 1)
    else decide (j < s.width) && x.getLsbD (j - 1) := by
  have hfits := s.width_fits
  have htwo := s.two_le_width
  have hw : s.width = s.msbShift + 1 := rfl
  have hbit : ∀ n < 64, (bits x (bit n) (bit n)).getLsbD 0 = x.getLsbD n := by
    intro n hn
    rw [bit, getLsbD_bits x (Nat.le_refl n) hn 0, Nat.sub_self]
    simp
  unfold dehash
  rw [show bit 0 = ofNat 32 0 from rfl, getLsbD_insertBit _ _ (by decide)]
  by_cases hj : j = 0
  · rw [if_pos hj, if_pos hj, getLsbD_setWidth, getLsbD_xor, getLsbD_setWidth,
      getLsbD_setWidth, hbit _ (by omega), hbit _ (by omega), hw, Nat.add_sub_cancel,
      show s.msbShift + 1 - 2 = s.msbShift - 1 by omega]
    simp
  · rw [if_neg hj, if_neg hj, getLsbD_shiftLeft, bit, getLsbD_mbits _ (by omega)]
    by_cases hlt : j < s.width
    · have h64 : j < 64 := by omega
      have h1 : ¬ j < 1 := by omega
      have h2 : j - 1 ≤ s.msbShift - 1 := by omega
      simp [hlt, h64, h1, h2]
    · have h2 : ¬ j - 1 ≤ s.msbShift - 1 := by omega
      simp [hlt, h2]

variable {s}

theorem IsWord.hash (hx : s.IsWord x) : s.IsWord (s.hash x) := by
  intro j hj
  rw [getLsbD_hash, clock, if_neg (by omega)]
  exact hx (j + 1) (by omega)

theorem IsWord.dehash (_ : s.IsWord x) : s.IsWord (s.dehash x) := by
  intro j hj
  have htwo := s.two_le_width
  have hlt : ¬ j < s.width := by omega
  rw [getLsbD_dehash, if_neg (by omega), decide_eq_false hlt, Bool.false_and]

theorem IsWord.xor (hx : s.IsWord x) (hy : s.IsWord y) : s.IsWord (x ^^^ y) := by
  intro j hj
  rw [getLsbD_xor, hx j hj, hy j hj, Bool.false_xor]

theorem IsWord.iterate {f : BitVec 64 → BitVec 64} (hf : ∀ {x}, s.IsWord x → s.IsWord (f x)) (m : Nat)
    (hx : s.IsWord x) : s.IsWord (f^[m] x) := by
  induction m generalizing x with
  | zero => exact hx
  | succ m ih => exact ih (hf hx)

theorem getLsbD_setBits (addr : BitVec 64) (j : Nat) :
    (s.setBits addr).getLsbD j = (decide (j < s.width) && addr.getLsbD j) := by
  have hfits := s.width_fits
  have hw : s.width = s.msbShift + 1 := rfl
  rw [setBits, bit, bit, getLsbD_bits addr (Nat.zero_le _) (by omega), Nat.sub_zero, Nat.zero_add, hw]

theorem getLsbD_tagBits (addr : BitVec 64) (j : Nat) :
    (s.tagBits addr).getLsbD j = (decide (j < s.width) && addr.getLsbD (s.width + j)) := by
  have hfits := s.width_fits
  have hw : s.width = s.msbShift + 1 := rfl
  rw [tagBits, bit, bit, getLsbD_bits addr (by omega) (by omega),
    show 2 * (s.msbShift + 1) - 1 - (s.msbShift + 1) + 1 = s.width by omega, hw]

theorem isWord_setBits (addr : BitVec 64) : s.IsWord (s.setBits addr) := by
  intro j hj
  have hlt : ¬ j < s.width := by omega
  rw [getLsbD_setBits, decide_eq_false hlt, Bool.false_and]

theorem isWord_tagBits (addr : BitVec 64) : s.IsWord (s.tagBits addr) := by
  intro j hj
  have hlt : ¬ j < s.width := by omega
  rw [getLsbD_tagBits, decide_eq_false hlt, Bool.false_and]

/-- `dehash` is the inverse of `hash` on words, on both sides. -/
theorem dehash_hash (hx : s.IsWord x) : s.dehash (s.hash x) = x := by
  have htwo := s.two_le_width
  apply eq_of_getLsbD_eq
  intro j _
  rw [getLsbD_dehash]
  by_cases hj : j = 0
  · subst hj
    rw [if_pos rfl, getLsbD_hash, getLsbD_hash, clock, clock, if_neg (by omega), if_pos (by omega),
      ends, show s.width - 2 + 1 = s.width - 1 by omega, ← Bool.xor_assoc, Bool.xor_self,
      Bool.false_xor]
  · rw [if_neg hj]
    by_cases hlt : j < s.width
    · rw [decide_eq_true hlt, Bool.true_and, getLsbD_hash, clock, if_neg (by omega),
        show j - 1 + 1 = j by omega]
    · rw [decide_eq_false hlt, Bool.false_and, hx j (by omega)]

theorem hash_dehash (hx : s.IsWord x) : s.hash (s.dehash x) = x := by
  have htwo := s.two_le_width
  apply eq_of_getLsbD_eq
  intro j _
  rw [getLsbD_hash, clock]
  by_cases hj : j + 1 = s.width
  · have hlast : s.width - 1 = j := by omega
    have hbelow : s.width - 2 = j - 1 := by omega
    rw [if_pos hj, ends, hlast, getLsbD_dehash, getLsbD_dehash, if_neg (by omega), if_pos rfl, hlast,
      hbelow, decide_eq_true (by omega), Bool.true_and, ← Bool.xor_assoc, Bool.xor_self,
      Bool.false_xor]
  · rw [if_neg hj, getLsbD_dehash, if_neg (by omega), Nat.add_sub_cancel]
    by_cases hlt : j + 1 < s.width
    · rw [decide_eq_true hlt, Bool.true_and]
    · rw [decide_eq_false hlt, Bool.false_and, hx j (by omega)]

theorem dehash_hash_iterate (m : Nat) (hx : s.IsWord x) : s.dehash^[m] (s.hash^[m] x) = x := by
  induction m generalizing x with
  | zero => rfl
  | succ m ih =>
    rw [iterate_succ_apply, iterate_succ_apply', dehash_hash]
    · exact ih hx
    · exact hx.iterate IsWord.hash m

theorem hash_dehash_iterate (m : Nat) (hx : s.IsWord x) : s.hash^[m] (s.dehash^[m] x) = x := by
  induction m generalizing x with
  | zero => rfl
  | succ m ih =>
    rw [iterate_succ_apply, iterate_succ_apply', hash_dehash]
    · exact ih hx
    · exact hx.iterate IsWord.dehash m

theorem hash_xor (x y : BitVec 64) : s.hash (x ^^^ y) = s.hash x ^^^ s.hash y := by
  apply eq_of_getLsbD_eq
  intro j _
  rw [getLsbD_xor, getLsbD_hash, getLsbD_hash, getLsbD_hash, clock, clock, clock]
  by_cases hj : j + 1 = s.width
  · rw [if_pos hj, if_pos hj, if_pos hj, ends, ends, ends, getLsbD_xor, getLsbD_xor]
    cases x.getLsbD (s.width - 1) <;> cases y.getLsbD (s.width - 1) <;> cases x.getLsbD 0 <;>
      cases y.getLsbD 0 <;> rfl
  · rw [if_neg hj, if_neg hj, if_neg hj, getLsbD_xor]

theorem hash_iterate_xor (m : Nat) (x y : BitVec 64) :
    s.hash^[m] (x ^^^ y) = s.hash^[m] x ^^^ s.hash^[m] y := by
  induction m generalizing x y with
  | zero => rfl
  | succ m ih =>
    rw [iterate_succ_apply, hash_xor, ih]
    rfl

/-- The bits of a hashed word are the cells of a clocked register. -/
theorem hash_iterate (m : Nat) (x : BitVec 64) :
    (s.hash^[m] x).getLsbD = (clock s.width (ends s.width))^[m] x.getLsbD := by
  induction m generalizing x with
  | zero => rfl
  | succ m ih =>
    rw [iterate_succ_apply, iterate_succ_apply, ih]
    exact congrArg _ (funext (getLsbD_hash s x))

/-- `Hⁿ = Hⁿ⁻¹ + 1` on words of `n` bits. -/
theorem hash_characteristic (hx : s.IsWord x) :
    s.hash^[s.msbShift + 1] x = s.hash^[s.msbShift] x ^^^ x := by
  apply eq_of_getLsbD_eq
  intro j _
  by_cases hj : j < s.width
  · rw [getLsbD_xor, hash_iterate, hash_iterate]
    exact clock_characteristic x.getLsbD hj
  · have hj' : s.width ≤ j := by omega
    rw [(hx.iterate IsWord.hash _) j hj', ((hx.iterate IsWord.hash _).xor hx) j hj']

/-- So `n - 1` clocks undo `H + 1`. -/
theorem hash_iterate_add_one (hx : s.IsWord x) : s.hash^[s.msbShift] (s.hash x ^^^ x) = x := by
  rw [hash_iterate_xor, ← iterate_succ_apply, hash_characteristic hx, BitVec.xor_comm _ x,
    xor_assoc, BitVec.xor_self, xor_zero]

/-! ## The skewing functions -/

theorem xor_cancel (a b : BitVec 64) : a ^^^ b ^^^ b = a := by
  rw [xor_assoc, BitVec.xor_self, xor_zero]

theorem xor_swap (a b c : BitVec 64) : a ^^^ b ^^^ c = a ^^^ c ^^^ b := by
  rw [xor_assoc, BitVec.xor_comm b c, ← xor_assoc]

theorem xor_cancel_mid (a b c : BitVec 64) : a ^^^ b ^^^ c ^^^ b = a ^^^ c := by
  rw [xor_swap a b c, xor_cancel]

theorem isWord_skewing (way : Fin 8) {a : BitVec 64} (ha : s.IsWord a) (hb : s.IsWord b) :
    s.IsWord (s.skewing way a b) := by
  match way with
  | 0 => exact (ha.hash.xor hb.hash).xor hb
  | 1 => exact (ha.hash.xor hb.hash).xor ha
  | 2 => exact (ha.hash.xor hb.dehash).xor hb
  | 3 => exact (ha.hash.xor hb.dehash).xor ha
  | 4 => exact (ha.dehash.xor hb.hash).xor hb
  | 5 => exact (ha.dehash.xor hb.hash).xor ha
  | 6 => exact (ha.dehash.xor hb.dehash).xor hb
  | 7 => exact (ha.dehash.xor hb.dehash).xor ha

/-- `D + 1 = (H + 1) ∘ D`, and one clock more undoes `D`. -/
theorem hash_iterate_dehash_add_one (hx : s.IsWord x) :
    s.hash^[s.msbShift + 1] (s.dehash x ^^^ x) = x := by
  have hstep := hash_iterate_add_one hx.dehash
  rw [hash_dehash hx, BitVec.xor_comm] at hstep
  rw [iterate_succ_apply', hstep, hash_dehash hx]

/-- Each function is undone, for the same tag bits. -/
theorem unskewing_skewing (way : Fin 8) {a : BitVec 64} (ha : s.IsWord a) (b : BitVec 64) :
    s.unskewing way (s.skewing way a b) b = a := by
  match way with
  | 0 =>
    show s.dehash (s.hash a ^^^ s.hash b ^^^ b ^^^ s.hash b ^^^ b) = a
    rw [xor_cancel_mid, xor_cancel, dehash_hash ha]
  | 1 =>
    show s.hash^[s.msbShift] (s.hash a ^^^ s.hash b ^^^ a ^^^ s.hash b) = a
    rw [xor_cancel_mid, hash_iterate_add_one ha]
  | 2 =>
    show s.dehash (s.hash a ^^^ s.dehash b ^^^ b ^^^ s.dehash b ^^^ b) = a
    rw [xor_cancel_mid, xor_cancel, dehash_hash ha]
  | 3 =>
    show s.hash^[s.msbShift] (s.hash a ^^^ s.dehash b ^^^ a ^^^ s.dehash b) = a
    rw [xor_cancel_mid, hash_iterate_add_one ha]
  | 4 =>
    show s.hash (s.dehash a ^^^ s.hash b ^^^ b ^^^ s.hash b ^^^ b) = a
    rw [xor_cancel_mid, xor_cancel, hash_dehash ha]
  | 5 =>
    show s.hash^[s.msbShift + 1] (s.dehash a ^^^ s.hash b ^^^ a ^^^ s.hash b) = a
    rw [xor_cancel_mid, hash_iterate_dehash_add_one ha]
  | 6 =>
    show s.hash (s.dehash a ^^^ s.dehash b ^^^ b ^^^ s.dehash b ^^^ b) = a
    rw [xor_cancel_mid, xor_cancel, hash_dehash ha]
  | 7 =>
    show s.hash^[s.msbShift + 1] (s.dehash a ^^^ s.dehash b ^^^ a ^^^ s.dehash b) = a
    rw [xor_cancel_mid, hash_iterate_dehash_add_one ha]

theorem isWord_unskewing (way : Fin 8) {c : BitVec 64} (hc : s.IsWord c) (hb : s.IsWord b) :
    s.IsWord (s.unskewing way c b) := by
  match way with
  | 0 => exact ((hc.xor hb.hash).xor hb).dehash
  | 1 => exact (hc.xor hb.hash).iterate IsWord.hash _
  | 2 => exact ((hc.xor hb.dehash).xor hb).dehash
  | 3 => exact (hc.xor hb.dehash).iterate IsWord.hash _
  | 4 => exact ((hc.xor hb.hash).xor hb).hash
  | 5 => exact (hc.xor hb.hash).iterate IsWord.hash _
  | 6 => exact ((hc.xor hb.dehash).xor hb).hash
  | 7 => exact (hc.xor hb.dehash).iterate IsWord.hash _

/-- `H + 1` undoes the `n - 1` clocks, and `D + 1` the `n` clocks. -/
theorem hash_add_one_iterate (hy : s.IsWord y) :
    s.hash (s.hash^[s.msbShift] y) ^^^ s.hash^[s.msbShift] y = y := by
  rw [← iterate_succ_apply' s.hash, hash_characteristic hy, BitVec.xor_comm _ y, xor_cancel]

theorem dehash_add_one_iterate (hy : s.IsWord y) :
    s.dehash (s.hash^[s.msbShift + 1] y) ^^^ s.hash^[s.msbShift + 1] y = y := by
  have hword := hy.iterate IsWord.hash s.msbShift
  rw [iterate_succ_apply', dehash_hash hword, BitVec.xor_comm, hash_add_one_iterate hy]

theorem skewing_unskewing (way : Fin 8) {c : BitVec 64} (hc : s.IsWord c) (hb : s.IsWord b) :
    s.skewing way (s.unskewing way c b) b = c := by
  match way with
  | 0 =>
    show s.hash (s.dehash (c ^^^ s.hash b ^^^ b)) ^^^ s.hash b ^^^ b = c
    rw [hash_dehash ((hc.xor hb.hash).xor hb), xor_cancel_mid, xor_cancel]
  | 1 =>
    show s.hash (s.hash^[s.msbShift] (c ^^^ s.hash b)) ^^^ s.hash b ^^^
      s.hash^[s.msbShift] (c ^^^ s.hash b) = c
    rw [xor_swap, hash_add_one_iterate (hc.xor hb.hash), xor_cancel]
  | 2 =>
    show s.hash (s.dehash (c ^^^ s.dehash b ^^^ b)) ^^^ s.dehash b ^^^ b = c
    rw [hash_dehash ((hc.xor hb.dehash).xor hb), xor_cancel_mid, xor_cancel]
  | 3 =>
    show s.hash (s.hash^[s.msbShift] (c ^^^ s.dehash b)) ^^^ s.dehash b ^^^
      s.hash^[s.msbShift] (c ^^^ s.dehash b) = c
    rw [xor_swap, hash_add_one_iterate (hc.xor hb.dehash), xor_cancel]
  | 4 =>
    show s.dehash (s.hash (c ^^^ s.hash b ^^^ b)) ^^^ s.hash b ^^^ b = c
    rw [dehash_hash ((hc.xor hb.hash).xor hb), xor_cancel_mid, xor_cancel]
  | 5 =>
    show s.dehash (s.hash^[s.msbShift + 1] (c ^^^ s.hash b)) ^^^ s.hash b ^^^
      s.hash^[s.msbShift + 1] (c ^^^ s.hash b) = c
    rw [xor_swap, dehash_add_one_iterate (hc.xor hb.hash), xor_cancel]
  | 6 =>
    show s.dehash (s.hash (c ^^^ s.dehash b ^^^ b)) ^^^ s.dehash b ^^^ b = c
    rw [dehash_hash ((hc.xor hb.dehash).xor hb), xor_cancel_mid, xor_cancel]
  | 7 =>
    show s.dehash (s.hash^[s.msbShift + 1] (c ^^^ s.dehash b)) ^^^ s.dehash b ^^^
      s.hash^[s.msbShift + 1] (c ^^^ s.dehash b) = c
    rw [xor_swap, dehash_add_one_iterate (hc.xor hb.dehash), xor_cancel]

/-! ## An address and back -/

theorem deskew_eq (y : BitVec 64) (way : BitVec 32) : s.deskew y way =
    s.unskewing (Fin.ofNat 8 way.toNat) (s.dehash^[way.toNat / 8] (s.setBits y)) (s.tagBits y) := by
  unfold deskew
  by_cases h : 8 ≤ way.toNat
  · rw [if_pos h]
  · rw [if_neg h, show way.toNat / 8 = 0 by omega]
    rfl

/-- Two shifted addresses with the same tag bits: when the set bits of the one are the other's skewed,
    the other's are the one's deskewed. -/
theorem skew_eq_iff (way : BitVec 32) (htag : s.tagBits y = s.tagBits x) :
    s.setBits y = s.skew x way ↔ s.deskew y way = s.setBits x := by
  have hx := isWord_setBits (s := s) x
  have hy := isWord_setBits (s := s) y
  have ht := isWord_tagBits (s := s) x
  rw [deskew_eq, skew, htag]
  constructor
  · intro h
    rw [h, dehash_hash_iterate _ (isWord_skewing _ hx ht), unskewing_skewing _ hx]
  · intro h
    rw [← h, skewing_unskewing _ (hy.iterate IsWord.dehash _) ht, hash_dehash_iterate _ hy]

/-- The tag bits and the set bits put together, as `regenerateAddr` does. -/
def join (s : SkewedAssociative) (tag set : BitVec 64) : BitVec 64 := (tag <<< s.width) ||| set

theorem setBits_join {set : BitVec 64} (hset : s.IsWord set) (tag : BitVec 64) :
    s.setBits (s.join tag set) = set := by
  apply eq_of_getLsbD_eq
  intro j hj
  rw [getLsbD_setBits, join, getLsbD_or, getLsbD_shiftLeft]
  by_cases h : j < s.width
  · simp [h]
  · simp [h, hset j (by omega)]

theorem tagBits_join {set : BitVec 64} (hset : s.IsWord set) (tag : BitVec 64) :
    s.tagBits (s.join tag set) = s.setBits tag := by
  have hfits := s.width_fits
  apply eq_of_getLsbD_eq
  intro j _
  rw [getLsbD_tagBits, getLsbD_setBits, join, getLsbD_or, getLsbD_shiftLeft,
    hset _ (Nat.le_add_right _ _)]
  by_cases h : j < s.width
  · have h64 : s.width + j < 64 := by omega
    have hge : ¬ s.width + j < s.width := by omega
    simp [h, h64, hge]
  · simp [h]

theorem isWord_skew (x : BitVec 64) (way : BitVec 32) : s.IsWord (s.skew x way) :=
  (isWord_skewing _ (isWord_setBits x) (isWord_tagBits x)).iterate IsWord.hash _

theorem isWord_deskew (x : BitVec 64) (way : BitVec 32) : s.IsWord (s.deskew x way) := by
  rw [deskew_eq]
  exact isWord_unskewing _ ((isWord_setBits x).iterate IsWord.dehash _) (isWord_tagBits x)

/-- The set mask keeps the bits of a word. -/
theorem getLsbD_setMask (j : Nat) : s.setMask.getLsbD j = decide (j < s.width) := by
  have hone : (1 : BitVec 32).toNat = 1 := rfl
  have hgt := s.numSets_gt
  have hval : s.setMask.toNat = 2 ^ s.width - 1 := by
    rw [setMask, toNat_sub, hone, ← numSets_eq]
    omega
  rw [← BitVec.testBit_toNat, hval, Nat.testBit_two_pow_sub_one]

theorem and_setMask (hx : s.IsWord x) : x &&& s.setMask.setWidth 64 = x := by
  apply eq_of_getLsbD_eq
  intro j hj
  rw [getLsbD_and, getLsbD_setWidth, getLsbD_setMask, decide_eq_true hj, Bool.true_and]
  by_cases h : j < s.width
  · rw [decide_eq_true h, Bool.and_true]
  · rw [hx j (by omega), Bool.false_and]

theorem width_le_32 : s.width ≤ 32 := by
  have hlt := s.numSets.isLt
  rw [numSets_eq] at hlt
  by_contra h
  have hle : 2 ^ 32 ≤ 2 ^ s.width := Nat.pow_le_pow_right (by decide) (by omega)
  omega

theorem extractSet_eq (a : BitVec 64) (way : BitVec 32) :
    (s.extractSet a way).setWidth 64 = s.skew (a >>> s.setShift) way := by
  have hword := isWord_skew (s := s) (a >>> s.setShift) way
  have h32 := width_le_32 (s := s)
  rw [extractSet, and_setMask hword]
  apply eq_of_getLsbD_eq
  intro j hj
  rw [getLsbD_setWidth, getLsbD_setWidth, decide_eq_true hj, Bool.true_and]
  by_cases h : j < 32
  · rw [decide_eq_true h, Bool.true_and]
  · rw [hword j (by omega), Bool.and_false]

/-- The tag bits of an address are the low bits of its tag. -/
theorem tagBits_shifted (a : BitVec 64) :
    s.tagBits (a >>> s.setShift) = s.setBits (s.extractTag a) := by
  apply eq_of_getLsbD_eq
  intro j _
  rw [getLsbD_tagBits, getLsbD_setBits, extractTag, tagShift_eq, getLsbD_ushiftRight,
    getLsbD_ushiftRight, Nat.add_assoc]

/-- The tag and the set an address gets in a way give its block address back; for fixed tag bits
    `deskew` inverts `skew` on the sets. -/
theorem regenerateAddr_extract (s : SkewedAssociative) (way : BitVec 32) :
    (∀ a : BitVec 64, s.regenerateAddr (s.extractTag a) (s.extractSet a way) way =
      a &&& ~~~ mask s.setShift) ∧
    (∀ tag set : BitVec 64, set.toNat < s.numSets.toNat →
      s.deskew (s.join tag (s.skew (s.join tag set) way)) way = set ∧
      s.skew (s.join tag (s.deskew (s.join tag set) way)) way = set) := by
  constructor
  · intro a
    have hset := extractSet_eq (s := s) a way
    have hjoin : (s.extractTag a <<< (s.msbShift + 1)) ||| (s.extractSet a way).setWidth 64 =
        s.join (s.extractTag a) (s.skew (a >>> s.setShift) way) := by
      rw [hset]
      rfl
    have hword := isWord_skew (s := s) (a >>> s.setShift) way
    have htag := (tagBits_join hword (s.extractTag a)).trans (tagBits_shifted a).symm
    have hback := (skew_eq_iff way htag).mp (setBits_join hword _)
    unfold regenerateAddr
    dsimp only
    rw [hjoin, hback, and_setMask (isWord_setBits _)]
    apply eq_of_getLsbD_eq
    intro j hj
    rw [getLsbD_or, getLsbD_shiftLeft, getLsbD_shiftLeft, getLsbD_setBits,
      getLsbD_and, BitVec.getLsbD_not, getLsbD_mask, extractTag, getLsbD_ushiftRight,
      getLsbD_ushiftRight, tagShift_eq, decide_eq_true hj]
    by_cases hlow : j < s.setShift
    · have h1 : j < s.setShift + s.width := by omega
      simp [hlow, h1]
    · by_cases hmid : j < s.setShift + s.width
      · have h2 : j - s.setShift < s.width := by omega
        have h3 : s.setShift + (j - s.setShift) = j := by omega
        simp [hlow, hmid, h2, h3]
      · have h2 : ¬ j - s.setShift < s.width := by omega
        have h3 : s.setShift + s.width + (j - (s.setShift + s.width)) = j := by omega
        simp [hlow, hmid, h2, h3]
  · intro tag set hlt
    have hset : s.IsWord set := by
      intro j hj
      rw [numSets_eq] at hlt
      exact Nat.testBit_lt_two_pow (Nat.lt_of_lt_of_le hlt (Nat.pow_le_pow_right (by decide) hj))
    have hskew := isWord_skew (s := s) (s.join tag set) way
    have hdeskew := isWord_deskew (s := s) (s.join tag set) way
    constructor
    · have htag := (tagBits_join hskew tag).trans (tagBits_join hset tag).symm
      rw [(skew_eq_iff way htag).mp (setBits_join hskew tag), setBits_join hset]
    · have htag := (tagBits_join hset tag).trans (tagBits_join hdeskew tag).symm
      rw [← (skew_eq_iff way htag).mpr (setBits_join hdeskew tag).symm, setBits_join hset]

/-- Four ways of sixteen sets of 64-byte blocks. -/
def sixteenSets : SkewedAssociative where
  assoc := 4
  numSets := 16
  entry_size := 64
  isPowerOf2_numSets := by decide
  assoc_pos := by decide
  bits_fit := by decide
  numSets_gt := by decide

/-- In way 1 two blocks that are sixteen sets apart are in different sets, and both come back. -/
theorem regenerateAddr_extract_sixteen :
    sixteenSets.extractSet 0x40 1 ≠ sixteenSets.extractSet 0x440 1 ∧
      ∀ a ∈ [0x40#64, 0x44f#64], sixteenSets.regenerateAddr (sixteenSets.extractTag a)
        (sixteenSets.extractSet a 1) 1 = a &&& ~~~ mask sixteenSets.setShift :=
  ⟨by decide, fun a _ => (regenerateAddr_extract sixteenSets 1).1 a⟩

end SkewedAssociative

end Gem5Dvr
