/-
  The patterns FPC chooses and what a line costs (`fpc.hh`, `fpc.cc`).

  1. **Specification** — `defines`: the words of each pattern, by its documentation; `documented`:
     the first pattern that has the word; `lineBits`: what the patterns of a line cost.

  2. Each `isPattern` decides its set, but for `SignExtendedTwoHalfwords`, and the dictionary stays
     empty, so the pattern of a word is the first that matches it.

  3. A run of zeros pays at its first word and again each time the run length has reached its
     limit (`compressFrom_spec`).

  **The crux** — `isPattern` of the two halfwords compares an `int16_t` with a `uint16_t`.  As
  `int`s they differ for a negative half, so such a word ends up as `REP_BYTES` or `UNCOMPRESSED`.
-/
import Gem5Dvr.Compression.Compressors

namespace Gem5Dvr.Dictionary

open List
open BitVec (getLsbD_setWidth getLsbD_signExtend)

namespace FPC

deriving instance DecidableEq for PatternNumber

/-! ## What is documented -/

/-- A halfword is the sign extension of its low byte. -/
def isByteExtended (halfword : BitVec 16) : Bool := (halfword.setWidth 8).signExtend 16 == halfword

/-- The lower half. -/
def low (w : Word 4) : BitVec 16 := w.setWidth 16

/-- The upper half. -/
def high (w : Word 4) : BitVec 16 := (w >>> 16).setWidth 16

/-- The words of each pattern. -/
def defines (w : Word 4) : PatternNumber → Bool
  | .ZERO_RUN => w == 0
  | .SIGN_EXTENDED_4_BITS => (w.setWidth 4).signExtend 32 == w
  | .SIGN_EXTENDED_1_BYTE => (w.setWidth 8).signExtend 32 == w
  | .SIGN_EXTENDED_HALFWORD => (w.setWidth 16).signExtend 32 == w
  | .ZERO_PADDED_HALFWORD => low w == 0
  | .SIGN_EXTENDED_TWO_HALFWORDS => isByteExtended (low w) && isByteExtended (high w)
  | .REP_BYTES => (range 4).all fun i => (w >>> (8 * i)).setWidth 8 == w.setWidth 8
  | .UNCOMPRESSED => true

/-- The patterns in the order of the factory, `UNCOMPRESSED` apart. -/
def order : List PatternNumber :=
  [.ZERO_RUN, .SIGN_EXTENDED_4_BITS, .SIGN_EXTENDED_1_BYTE, .SIGN_EXTENDED_HALFWORD,
    .ZERO_PADDED_HALFWORD, .SIGN_EXTENDED_TWO_HALFWORDS, .REP_BYTES]

/-- The first pattern that has the word. -/
def documented (w : Word 4) : PatternNumber := (order.find? (defines w)).getD .UNCOMPRESSED

/-- The bits of a pattern other than a zero: three for the prefix, and the data. -/
def patternBits : PatternNumber → Nat
  | .ZERO_RUN => 0
  | .SIGN_EXTENDED_4_BITS => 3 + 4
  | .SIGN_EXTENDED_1_BYTE | .REP_BYTES => 3 + 8
  | .SIGN_EXTENDED_HALFWORD | .ZERO_PADDED_HALFWORD | .SIGN_EXTENDED_TWO_HALFWORDS => 3 + 16
  | .UNCOMPRESSED => 3 + 32

/-- The most zeros a run has. -/
def runLimit (zeroRunSizeBits : Nat) : Nat := (mask zeroRunSizeBits).toNat + 1

/-- The bits of a line after `zeros` zeros in a row: a run of zeros pays for its prefix and its
    length once, and once more each time it is as long as can be. -/
def lineBits (zeroRunSizeBits : Nat) : Nat → List PatternNumber → Nat
  | _, [] => 0
  | zeros, .ZERO_RUN :: numbers =>
    (if zeros % runLimit zeroRunSizeBits = 0 then 3 + zeroRunSizeBits else 0) +
      lineBits zeroRunSizeBits (zeros + 1) numbers
  | _, number :: numbers => patternBits number + lineBits zeroRunSizeBits 0 numbers

/-- The line is compressed to the documented patterns, and to the bits they cost. -/
def Documented (zeroRunSizeBits blkSize : Nat) (data : Mem) : Prop :=
  ∃ comp numbers, (fpc zeroRunSizeBits).compress blkSize data = some comp ∧
    comp.entries.map (·.patternNumber) = numbers.map PatternNumber.ctorIdx ∧
    comp.sizeBits = lineBits zeroRunSizeBits 0 numbers ∧
    numbers = (toChunks 4 blkSize data).map documented

/-- A half of the word is negative. -/
def negative (w : Word 4) : Bool := (low w).msb || (high w).msb

/-! ## What is chosen -/

/-- The words an `isPattern` takes. -/
def matched (w : Word 4) (number : PatternNumber) : Bool :=
  defines w number && !(number == .SIGN_EXTENDED_TWO_HALFWORDS && negative w)

/-- The first pattern whose `isPattern` takes the word. -/
def chosen (w : Word 4) : PatternNumber := (order.find? (matched w)).getD .UNCOMPRESSED

/-- The class of each number. -/
def classOf : PatternNumber → PatternClass 4
  | .ZERO_RUN => ZeroRun
  | .SIGN_EXTENDED_4_BITS => SignExtended4Bits
  | .SIGN_EXTENDED_1_BYTE => SignExtended1Byte
  | .SIGN_EXTENDED_HALFWORD => SignExtendedHalfword
  | .ZERO_PADDED_HALFWORD => ZeroPaddedHalfword
  | .SIGN_EXTENDED_TWO_HALFWORDS => SignExtendedTwoHalfwords
  | .REP_BYTES => RepBytes
  | .UNCOMPRESSED => Uncompressed

/-- `szext` is the sign extension of the low bits. -/
theorem szext_eq {N w : Nat} (hpos : 0 < N) (hN : N ≤ w) (hw : w ≤ 64) (x : BitVec w) :
    (szext N (x.setWidth 64)).setWidth w = (x.setWidth N).signExtend w := by
  refine BitVec.eq_of_getLsbD_eq fun j hj => ?_
  have hj64 : j < 64 := by omega
  have hlast : N - 1 < 64 := by omega
  have hmsb : (x.setWidth N).msb = x.getLsbD (N - 1) := by
    rw [BitVec.msb_eq_getLsbD_last, getLsbD_setWidth]
    simp [show N - 1 < N by omega]
  rw [getLsbD_setWidth, getLsbD_signExtend, getLsbD_setWidth, hmsb, szext, getLsbD_setWidth]
  have hmask := mask_getLsbD N hj64
  rw [BitVec.getLsbD_eq_getElem hj64] at hmask
  by_cases hjN : j < N <;> cases hsign : x.getLsbD (N - 1) <;> simp [hj, hj64, hlast, hjN, hmask]

theorem isSignExtendedHalfword_eq (halfword : BitVec 16) :
    isSignExtendedHalfword halfword = (isByteExtended halfword && !halfword.msb) := by
  have hext : (szext 8 (halfword.signExtend 64)).setWidth 16 =
      (halfword.setWidth 8).signExtend 16 := by
    rw [← szext_eq (by omega) (by omega) (by omega)]
    congr 1
    refine szext_congr (by omega) fun j hj => ?_
    rw [getLsbD_signExtend, getLsbD_setWidth, if_pos (by omega)]
  rw [isSignExtendedHalfword, isByteExtended, hext, BitVec.toInt_eq_msb_cond, Bool.eq_iff_iff,
    beq_iff_eq, Bool.and_eq_true, beq_iff_eq, ← BitVec.toNat_inj]
  have hlt := halfword.isLt
  cases halfword.msb with
  | true =>
    simp
    omega
  | false =>
    simp
    omega

theorem isMaskedValue_low {k : Nat} (hk : k ≤ 32) (w : Word 4) :
    isMaskedValue 0 (BitVec.ofNat 32 (2 ^ k - 1)) (toDictionaryEntry w) = (w.setWidth k == 0) := by
  have hpow : 2 ^ k ≤ 2 ^ 32 := Nat.pow_le_pow_right (by decide) hk
  have hlow : (w &&& BitVec.ofNat 32 (2 ^ k - 1)).toNat = w.toNat % 2 ^ k := by
    rw [BitVec.toNat_and, BitVec.toNat_ofNat, Nat.mod_eq_of_lt (by omega),
      Nat.and_two_pow_sub_one_eq_mod]
  have hzero : (0 : Word 4) &&& BitVec.ofNat 32 (2 ^ k - 1) = 0 := BitVec.zero_and
  rw [isMaskedValue, fromDictionaryEntry_toDictionaryEntry, hzero, Bool.eq_iff_iff, beq_iff_eq,
    beq_iff_eq, ← BitVec.toNat_inj, ← BitVec.toNat_inj, hlow, BitVec.toNat_setWidth]
  exact eq_comm

/-- Each `isPattern` decides its set. -/
theorem isPattern_eq (w : Word 4) (dict_bytes : Entry 4) (loc : Int) (number : PatternNumber) :
    (classOf number).isPattern (toDictionaryEntry w) dict_bytes loc = matched w number := by
  have hsigned : ∀ N, 0 < N → N ≤ 32 →
      isSignExtended N (toDictionaryEntry w) = ((w.setWidth N).signExtend 32 == w) := by
    intro N hpos hN
    rw [isSignExtended, fromDictionaryEntry_toDictionaryEntry, szext_eq hpos hN (by omega)]
    exact Bool.beq_comm
  cases number with
  | ZERO_RUN =>
    refine (isMaskedValue_low (Nat.le_refl 32) w).trans ?_
    rw [BitVec.setWidth_eq]
    exact (Bool.and_true _).symm
  | SIGN_EXTENDED_4_BITS => exact (hsigned 4 (by omega) (by omega)).trans (Bool.and_true _).symm
  | SIGN_EXTENDED_1_BYTE => exact (hsigned 8 (by omega) (by omega)).trans (Bool.and_true _).symm
  | SIGN_EXTENDED_HALFWORD => exact (hsigned 16 (by omega) (by omega)).trans (Bool.and_true _).symm
  | ZERO_PADDED_HALFWORD =>
    exact (isMaskedValue_low (show 16 ≤ 32 by omega) w).trans (Bool.and_true _).symm
  | SIGN_EXTENDED_TWO_HALFWORDS =>
    have hhigh : ((w.setWidth 64) >>> 16).setWidth 16 = high w := by
      refine BitVec.eq_of_getLsbD_eq fun j hj => ?_
      simp [high, hj, show 16 + j < 64 by omega]
    have hlow : (w.setWidth 64).setWidth 16 = low w := BitVec.setWidth_setWidth_of_le _ (by omega)
    simp only [classOf, SignExtendedTwoHalfwords, fromDictionaryEntry_toDictionaryEntry,
      setWidth_and_mask (show 16 ≤ 64 by omega), hlow, hhigh, isSignExtendedHalfword_eq, matched,
      defines, negative]
    cases isByteExtended (low w) <;> cases isByteExtended (high w) <;> cases (low w).msb <;> rfl
  | REP_BYTES =>
    show isRepeatedValue 1 (toDictionaryEntry w) = _
    rw [isRepeatedValue, fromDictionaryEntry_toDictionaryEntry]
    exact (Bool.and_true _).symm
  | UNCOMPRESSED => rfl

/-- So the factory makes the pattern of the first set that has the word. -/
theorem getPattern_eq (zeroRunSizeBits : Nat) (w : Word 4) (dict_bytes : Entry 4) (loc : Int) :
    (fpc zeroRunSizeBits).getPattern (toDictionaryEntry w) dict_bytes loc =
      (classOf (chosen w)).make (toDictionaryEntry w) loc := by
  have hclasses : (fpc zeroRunSizeBits).patterns = order.map classOf := rfl
  rw [Compressor.getPattern, hclasses, find?_map]
  simp only [Function.comp_def, isPattern_eq, chosen]
  cases order.find? (matched w) with
  | none => rfl
  | some number => rfl

/-- The words that end up past the pattern of two halfwords. -/
theorem chosen_eq_iff (w : Word 4) : chosen w = documented w ↔
    ¬ (documented w = .SIGN_EXTENDED_TWO_HALFWORDS ∧ negative w = true) := by
  simp only [chosen, documented, order, find?_cons, find?_nil, matched]
  generalize negative w = n, defines w .ZERO_RUN = d₀, defines w .SIGN_EXTENDED_4_BITS = d₁,
    defines w .SIGN_EXTENDED_1_BYTE = d₂, defines w .SIGN_EXTENDED_HALFWORD = d₃,
    defines w .ZERO_PADDED_HALFWORD = d₄, defines w .SIGN_EXTENDED_TWO_HALFWORDS = d₅,
    defines w .REP_BYTES = d₆
  decide +revert

/-! ## What a line costs -/

theorem make_number (number : PatternNumber) (bytes : Entry 4) (loc : Int) :
    ((classOf number).make bytes loc).patternNumber = number.ctorIdx := by
  cases number <;> rfl

/-- The bits of the pattern after `zeros` zeros. -/
def bitsAfter (zeroRunSizeBits zeros : Nat) (number : PatternNumber) : Nat :=
  if number = .ZERO_RUN then
    if zeros % runLimit zeroRunSizeBits = 0 then 3 + zeroRunSizeBits else 0
  else patternBits number

/-- The zeros in a row after the pattern. -/
def zerosAfter (zeros : Nat) (number : PatternNumber) : Nat :=
  if number = .ZERO_RUN then zeros + 1 else 0

theorem lineBits_cons (zeroRunSizeBits zeros : Nat) (number : PatternNumber)
    (numbers : List PatternNumber) : lineBits zeroRunSizeBits zeros (number :: numbers) =
      bitsAfter zeroRunSizeBits zeros number +
        lineBits zeroRunSizeBits (zerosAfter zeros number) numbers := by
  cases number <;> rfl

/-- The entries end with `zeros` zeros, and the last of them knows its place in its run. -/
def EndsWith (zeroRunSizeBits : Nat) (entries : List (Pattern 4)) (zeros : Nat) : Prop :=
  if zeros = 0 then ∀ last ∈ entries.getLast?, last.patternNumber ≠ zeroRunNumber
  else ∃ last, entries.getLast? = some last ∧ last.patternNumber = zeroRunNumber ∧
    getRunLength last = (zeros - 1) % runLimit zeroRunSizeBits

/-- A zero starts a run, or has the next place in the one before it. -/
theorem inRun_zero {zeroRunSizeBits zeros : Nat} {entries : List (Pattern 4)}
    (h : EndsWith zeroRunSizeBits entries zeros) (bytes : Entry 4) (loc : Int) :
    inRun zeroRunSizeBits entries (ZeroRun.make bytes loc) =
      if zeros % runLimit zeroRunSizeBits = 0 then
        setRealSize (ZeroRun.make bytes loc) zeroRunSizeBits
      else setRunLength (ZeroRun.make bytes loc) (zeros % runLimit zeroRunSizeBits) := by
  have hnumber : (ZeroRun.make bytes loc).patternNumber = zeroRunNumber := rfl
  rw [inRun, if_pos hnumber]
  cases zeros with
  | zero =>
    rw [EndsWith, if_pos rfl] at h
    rw [Nat.zero_mod, if_pos rfl]
    cases hlast : entries.getLast? with
    | none => rfl
    | some last => exact if_pos (h last hlast)
  | succ zeros =>
    rw [EndsWith, if_neg (Nat.succ_ne_zero _), Nat.add_sub_cancel] at h
    obtain ⟨last, hlast, hzero, hlength⟩ := h
    have hdiv := Nat.div_add_mod zeros (runLimit zeroRunSizeBits)
    have hlt : zeros % runLimit zeroRunSizeBits < runLimit zeroRunSizeBits :=
      Nat.mod_lt _ (Nat.succ_pos _)
    have hmask : runLimit zeroRunSizeBits = (mask zeroRunSizeBits).toNat + 1 := rfl
    rw [hlast]
    dsimp only
    rw [if_neg (not_not.mpr hzero), hlength]
    by_cases hfull : zeros % runLimit zeroRunSizeBits = (mask zeroRunSizeBits).toNat
    · have hnext : (zeros + 1) % runLimit zeroRunSizeBits = 0 := by
        rw [← hdiv, Nat.add_assoc, hfull, ← hmask, ← Nat.mul_succ, Nat.mul_mod_right]
      rw [if_pos hfull, if_pos hnext]
    · have hnext : (zeros + 1) % runLimit zeroRunSizeBits =
          zeros % runLimit zeroRunSizeBits + 1 := by
        conv_lhs => rw [← hdiv, Nat.add_assoc, Nat.mul_add_mod, Nat.mod_eq_of_lt (by omega)]
      rw [if_neg hfull, hnext, if_neg (Nat.succ_ne_zero _)]

/-- One `addEntry`. -/
theorem inRun_spec {zeroRunSizeBits zeros : Nat} {entries : List (Pattern 4)}
    (h : EndsWith zeroRunSizeBits entries zeros) (number : PatternNumber) (bytes : Entry 4)
    (loc : Int) : ∃ pattern, inRun zeroRunSizeBits entries ((classOf number).make bytes loc) =
        pattern ∧ pattern.patternNumber = number.ctorIdx ∧
      pattern.getSizeBits = bitsAfter zeroRunSizeBits zeros number ∧
      EndsWith zeroRunSizeBits (entries ++ [pattern]) (zerosAfter zeros number) := by
  by_cases hzero : number = .ZERO_RUN
  · subst hzero
    refine ⟨_, inRun_zero h bytes loc, ?_⟩
    rw [bitsAfter, if_pos rfl, zerosAfter, if_pos rfl, EndsWith, if_neg (Nat.succ_ne_zero _),
      Nat.add_sub_cancel]
    split
    · rename_i hpays
      exact ⟨rfl, rfl, _, getLast?_concat, rfl, hpays.symm⟩
    · exact ⟨rfl, rfl, _, getLast?_concat, rfl, rfl⟩
  · have hother : number.ctorIdx ≠ zeroRunNumber := by cases number <;> simp_all <;> decide
    have hkept : inRun zeroRunSizeBits entries ((classOf number).make bytes loc) =
        (classOf number).make bytes loc := if_neg (by rw [make_number]; exact hother)
    refine ⟨_, hkept, make_number _ _ _, ?_, ?_⟩
    · rw [bitsAfter, if_neg hzero]
      cases number <;> rfl
    · rw [zerosAfter, if_neg hzero, EndsWith, if_pos rfl]
      simp [make_number, hother]

/-- The loop of `compress`: the dictionary stays empty, so each word has its first pattern. -/
theorem compressFrom_spec (zeroRunSizeBits : Nat) {d : Dict 4} (hd : d.numEntries = 0)
    (chunks : List (Word 4)) (comp : CompData 4) {zeros : Nat}
    (h : EndsWith zeroRunSizeBits comp.entries zeros) :
    ∃ comp', (fpc zeroRunSizeBits).compressFrom d comp chunks = some (comp', d) ∧
      comp'.entries.map (·.patternNumber) = comp.entries.map (·.patternNumber) ++
        (chunks.map chosen).map PatternNumber.ctorIdx ∧
      comp'.sizeBits = comp.sizeBits + lineBits zeroRunSizeBits zeros (chunks.map chosen) := by
  induction chunks generalizing comp zeros with
  | nil => exact ⟨comp, rfl, by simp, rfl⟩
  | cons w chunks ih =>
    have hbest : (fpc zeroRunSizeBits).bestPattern d (toDictionaryEntry w) =
        (classOf (chosen w)).make (toDictionaryEntry w) (-1) := by
      rw [Compressor.bestPattern, hd, range_zero, foldl_nil, getPattern_eq]
    have hkept : ∀ pattern bytes, (fpc zeroRunSizeBits).allocate d pattern bytes = some d := by
      intro pattern bytes
      exact ite_self _
    obtain ⟨pattern, hpattern, hnumber, hsize, hends⟩ :=
      inRun_spec h (chosen w) (toDictionaryEntry w) (-1)
    obtain ⟨comp', hcomp, hentries, hbits⟩ := ih (comp.add pattern) hends
    refine ⟨comp', ?_, ?_, ?_⟩
    · rw [Compressor.compressFrom, Compressor.compressValue, hbest, hkept]
      show (fpc zeroRunSizeBits).compressFrom d (comp.add (inRun _ _ _)) chunks = _
      rw [hpattern, hcomp]
    · rw [hentries]
      simp [CompData.add, hnumber]
    · rw [hbits, map_cons, lineBits_cons, CompData.add, hsize]
      exact Nat.add_assoc _ _ _

theorem compress_spec (zeroRunSizeBits blkSize : Nat) (data : Mem) :
    ∃ comp, (fpc zeroRunSizeBits).compress blkSize data = some comp ∧
      comp.entries.map (·.patternNumber) =
        ((toChunks 4 blkSize data).map chosen).map PatternNumber.ctorIdx ∧
      comp.sizeBits = lineBits zeroRunSizeBits 0 ((toChunks 4 blkSize data).map chosen) := by
  have hstart : EndsWith zeroRunSizeBits ([] : List (Pattern 4)) 0 := by simp [EndsWith]
  obtain ⟨comp, hcomp, hentries, hbits⟩ := compressFrom_spec zeroRunSizeBits
    (d := zeroDict 4 1) rfl (toChunks 4 blkSize data) {} hstart
  refine ⟨comp, ?_, hentries, hbits.trans (Nat.zero_add _)⟩
  show ((fpc zeroRunSizeBits).compressFrom (zeroDict 4 1) {} (toChunks 4 blkSize data)).bind _ = _
  rw [hcomp]
  rfl

/-- **A line is compressed as documented** exactly when none of its words is one of two
    sign-extended halfwords, by the documentation, with a negative half. -/
theorem documented_iff (zeroRunSizeBits blkSize : Nat) (data : Mem) :
    Documented zeroRunSizeBits blkSize data ↔ ∀ w ∈ toChunks 4 blkSize data,
      ¬ (documented w = .SIGN_EXTENDED_TWO_HALFWORDS ∧ negative w = true) := by
  obtain ⟨comp, hcomp, hentries, hbits⟩ := compress_spec zeroRunSizeBits blkSize data
  have hinj : Function.Injective PatternNumber.ctorIdx := fun a b h => by
    cases a <;> cases b <;> first | rfl | cases h
  have hmap : (toChunks 4 blkSize data).map chosen = (toChunks 4 blkSize data).map documented ↔
      ∀ w ∈ toChunks 4 blkSize data,
        ¬ (documented w = .SIGN_EXTENDED_TWO_HALFWORDS ∧ negative w = true) := by
    rw [map_inj_left]
    exact forall₂_congr fun w _ => chosen_eq_iff w
  rw [← hmap]
  constructor
  · rintro ⟨comp', numbers, hcomp', hentries', -, hnumbers⟩
    obtain rfl := Option.some.inj (hcomp.symm.trans hcomp')
    rw [hentries] at hentries'
    exact (hinj.list_map hentries').trans hnumbers
  · intro h
    exact ⟨comp, _, hcomp, hentries, hbits, h⟩

/-- Eight bytes, each word of them `0xff80` over `0x007f`. -/
theorem halves_not_documented : ¬ Documented 3 8 fun _ => 0xff80007fff80007f := by
  rintro ⟨comp, numbers, hcomp, hentries, -, rfl⟩
  obtain ⟨comp', hcomp', hentries', -⟩ := compress_spec 3 8 fun _ => 0xff80007fff80007f
  obtain rfl := Option.some.inj (hcomp.symm.trans hcomp')
  exact absurd (hentries'.symm.trans hentries) (by decide)

end FPC

end Gem5Dvr.Dictionary
