/-
  The five dictionary compressors (`cpack.hh`, `fpc.hh`, `fpcd.hh`, `repeated_qwords.hh`,
  `base_delta.hh` and their `.cc` files under `mem/cache/compressors`), and which lines they give
  back.

  1. **Program** — the pattern classes of each compressor in the order of its factory, its rule for
     the dictionary, its `addEntry` and what its own `compress` adds.

  2. **Result (`lossless_iff`)** — a compressor is lossless on lines of `blkSize` bytes exactly when
     `Restorable`: the line is made of whole qwords, for `decompress` writes no other, and a `CPack`
     dictionary entry that is matched has an index below 256.

  3. **The crux** — `FPCD` and `RepeatedQwords` match FIXED locations, `FPC` and `BaseDelta` keep the
     word; only `CPack` keeps an index of its own, and every match of it also allocates, so a small
     dictionary protects it as a short line does.
-/
import Gem5Dvr.Compression.Dictionary
import Mathlib.Data.Nat.Log

namespace Gem5Dvr.Dictionary

open List
open BitVec (allOnes eq_of_getLsbD_eq getLsbD_and getLsbD_or getLsbD_setWidth ofNat toNat_ofNat)
open Option (bind_eq_bind bind_eq_some_iff bind_some getD_some)

/-! ## CPack -/

namespace CPack

/-- The patterns, in the order of their numbers. -/
inductive PatternNumber where
  | ZZZZ | XXXX | MMMM | MMXX | ZZZX | MMMX

/-- A word of zeros. -/
def PatternZZZZ : PatternClass 4 where
  isPattern bytes _ _ := isMaskedValue 0 0xFFFFFFFF bytes
  make bytes loc := maskedValuePattern 0 0xFFFFFFFF PatternNumber.ZZZZ.ctorIdx 0x0 2 loc bytes false

/-- Any word, stored whole. -/
def PatternXXXX : PatternClass 4 where
  isPattern _ _ _ := true
  make bytes loc := uncompressedPattern PatternNumber.XXXX.ctorIdx 0x1 2 loc bytes

/-- A word of the dictionary. -/
def PatternMMMM : PatternClass 4 where
  isPattern := isMasked 0xFFFFFFFF
  make bytes loc := maskedPattern 0xFFFFFFFF PatternNumber.MMMM.ctorIdx 0x2 6 loc bytes true

/-- The upper half is that of a dictionary word. -/
def PatternMMXX : PatternClass 4 where
  isPattern := isMasked 0xFFFF0000
  make bytes loc := maskedPattern 0xFFFF0000 PatternNumber.MMXX.ctorIdx 0xC 8 loc bytes true

/-- Zeros above the lowest byte. -/
def PatternZZZX : PatternClass 4 where
  isPattern bytes _ _ := isMaskedValue 0 0xFFFFFF00 bytes
  make bytes loc := maskedValuePattern 0 0xFFFFFF00 PatternNumber.ZZZX.ctorIdx 0xD 4 loc bytes false

/-- All but the lowest byte are those of a dictionary word. -/
def PatternMMMX : PatternClass 4 where
  isPattern := isMasked 0xFFFFFF00
  make bytes loc := maskedPattern 0xFFFFFF00 PatternNumber.MMMX.ctorIdx 0xE 8 loc bytes true

end CPack

/-- `CPack`: entries are added until the dictionary is full. -/
def cpack (dictionarySize : Nat) : Compressor 4 where
  patterns :=
    [CPack.PatternZZZZ, CPack.PatternMMMM, CPack.PatternZZZX, CPack.PatternMMMX, CPack.PatternMMXX]
  uncompressed := CPack.PatternXXXX
  dictionarySize := dictionarySize
  addToDictionary := Dict.push dictionarySize
  resetDictionary := some (zeroDict 4 dictionarySize)
  addEntry := CompData.add
  finish _ _ comp := some comp

/-! ## FPC -/

namespace FPC

/-- The patterns, in the order of their numbers. -/
inductive PatternNumber where
  | ZERO_RUN | SIGN_EXTENDED_4_BITS | SIGN_EXTENDED_1_BYTE | SIGN_EXTENDED_HALFWORD
  | ZERO_PADDED_HALFWORD | SIGN_EXTENDED_TWO_HALFWORDS | REP_BYTES | UNCOMPRESSED

/-- The number of `ZeroRun`. -/
def zeroRunNumber : Nat := PatternNumber.ZERO_RUN.ctorIdx

/-- A zero, alone or in a run. -/
def ZeroRun : PatternClass 4 where
  isPattern bytes _ _ := isMaskedValue 0 0xFFFFFFFF bytes
  make bytes _ :=
    ⟨zeroRunNumber, zeroRunNumber, 3, popCount (~~~0xFFFFFFFF : Word 4), -1, false,
      .zeroRun (fromDictionaryEntry bytes &&& ~~~0xFFFFFFFF) 0 0⟩

/-- `SignExtended4Bits`, `SignExtended1Byte` and `SignExtendedHalfword`. -/
def SignExtended (N : Nat) (number : PatternNumber) : PatternClass 4 where
  isPattern bytes _ _ := isSignExtended N bytes
  make bytes _ := signExtendedPattern N number.ctorIdx number.ctorIdx 3 bytes false

/-- Four bits, sign-extended. -/
def SignExtended4Bits : PatternClass 4 := SignExtended 4 .SIGN_EXTENDED_4_BITS

/-- A byte, sign-extended. -/
def SignExtended1Byte : PatternClass 4 := SignExtended 8 .SIGN_EXTENDED_1_BYTE

/-- A halfword, sign-extended. -/
def SignExtendedHalfword : PatternClass 4 := SignExtended 16 .SIGN_EXTENDED_HALFWORD

/-- A halfword above zeros. -/
def ZeroPaddedHalfword : PatternClass 4 where
  isPattern bytes _ _ := isMaskedValue 0 0x0000FFFF bytes
  make bytes _ := maskedValuePattern 0 0x0000FFFF PatternNumber.ZERO_PADDED_HALFWORD.ctorIdx
      PatternNumber.ZERO_PADDED_HALFWORD.ctorIdx 3 (-1) bytes false

/-- An `int16_t` is compared with a `uint16_t`: both become `int`. -/
def isSignExtendedHalfword (halfword : BitVec 16) : Bool :=
  halfword.toInt == (((szext 8 (halfword.signExtend 64)).setWidth 16).toNat : Int)

/-- Two halfwords, each a byte that is sign-extended. -/
def SignExtendedTwoHalfwords : PatternClass 4 where
  isPattern bytes _ _ :=
    let data := (fromDictionaryEntry bytes).setWidth 64
    isSignExtendedHalfword ((data &&& mask 16).setWidth 16) &&
      isSignExtendedHalfword ((data >>> 16 &&& mask 16).setWidth 16)
  make bytes _ :=
    let data := (fromDictionaryEntry bytes).setWidth 64
    ⟨PatternNumber.SIGN_EXTENDED_TWO_HALFWORDS.ctorIdx,
      PatternNumber.SIGN_EXTENDED_TWO_HALFWORDS.ctorIdx, 3, 16, -1, false,
      .twoHalfwords ((data &&& mask 8).setWidth 8) ((data >>> 16 &&& mask 8).setWidth 8)⟩

/-- One byte four times. -/
def RepBytes : PatternClass 4 where
  isPattern bytes _ _ := isRepeatedValue 1 bytes
  make bytes _ :=
    repeatedValuePattern 1 PatternNumber.REP_BYTES.ctorIdx PatternNumber.REP_BYTES.ctorIdx 3 (-1)
      bytes false

/-- Any word, stored whole. -/
def Uncompressed : PatternClass 4 where
  isPattern _ _ _ := true
  make bytes _ :=
    uncompressedPattern PatternNumber.UNCOMPRESSED.ctorIdx PatternNumber.UNCOMPRESSED.ctorIdx 3 (-1)
      bytes

/-- `ZeroRun::getRunLength`. -/
def getRunLength (pattern : Pattern 4) : Nat :=
  match pattern.payload with
  | .zeroRun _ runLength _ => runLength
  | _ => 0

/-- `ZeroRun::setRunLength`. -/
def setRunLength (pattern : Pattern 4) (length : Nat) : Pattern 4 :=
  match pattern.payload with
  | .zeroRun bits _ realSize => { pattern with payload := .zeroRun bits length realSize }
  | _ => pattern

/-- `ZeroRun::setRealSize`. -/
def setRealSize (pattern : Pattern 4) (size : Nat) : Pattern 4 :=
  match pattern.payload with
  | .zeroRun bits runLength _ =>
    { pattern with payload := .zeroRun bits runLength (pattern.length + size) }
  | _ => pattern

/-- The pattern as `FPCCompData::addEntry` stores it: a zero joins the run before it, unless that
    one is as long as can be. -/
def inRun (zeroRunSizeBits : Nat) (entries : List (Pattern 4)) (pattern : Pattern 4) : Pattern 4 :=
  if pattern.patternNumber = zeroRunNumber then
    match entries.getLast? with
    | none => setRealSize pattern zeroRunSizeBits
    | some last =>
      if last.patternNumber ≠ zeroRunNumber then setRealSize pattern zeroRunSizeBits
      else if getRunLength last = (mask zeroRunSizeBits).toNat then
        setRealSize pattern zeroRunSizeBits
      else setRunLength pattern (getRunLength last + 1)
  else pattern

end FPC

/-- Nothing enters the dictionary, though `Uncompressed` asks for it. -/
def fpc (zeroRunSizeBits : Nat) : Compressor 4 where
  patterns := [FPC.ZeroRun, FPC.SignExtended4Bits, FPC.SignExtended1Byte, FPC.SignExtendedHalfword,
      FPC.ZeroPaddedHalfword, FPC.SignExtendedTwoHalfwords, FPC.RepBytes]
  uncompressed := FPC.Uncompressed
  dictionarySize := 1
  addToDictionary d _ := some d
  resetDictionary := some (zeroDict 4 1)
  addEntry comp pattern := comp.add (FPC.inRun zeroRunSizeBits comp.entries pattern)
  finish _ _ comp := some comp

/-! ## FPCD -/

namespace FPCD

/-- The bits of a code. -/
def prefixSize : Nat := 4

/-- Where the last word is kept. -/
def previousIndex : Int := 1

/-- Where the word before it is kept. -/
def penultimateIndex : Int := 0

/-- The patterns, in the order of their numbers. -/
inductive PatternNumber where
  | ZZZZ | FFFF | MMMMPenultimate | MMMMPrevious | ZZZX | XZZZ | RRRR | MMMXPenultimate
  | MMMXPrevious | ZZXX | ZXZX | FFXX | XXZZ | MMXXPenultimate | MMXXPrevious | XXXX

/-- A class on `MaskedValuePattern<value, mask>`. -/
def valueClass (value mask : Word 4) (number : PatternNumber) (code : Nat) : PatternClass 4 where
  isPattern bytes _ _ := isMaskedValue value mask bytes
  make bytes loc := maskedValuePattern value mask number.ctorIdx code prefixSize loc bytes true

/-- A class on `LocatedMaskedPattern<mask, location>`. -/
def locatedClass (mask : Word 4) (location : Int) (number : PatternNumber) (code : Nat) :
    PatternClass 4 where
  isPattern := isLocatedMasked mask location
  make bytes loc := maskedPattern mask number.ctorIdx code prefixSize loc bytes true

/-- A word of zeros. -/
def PatternZZZZ := valueClass 0 0xFFFFFFFF .ZZZZ 0x0

/-- A word of ones. -/
def PatternFFFF := valueClass 0xFFFFFFFF 0xFFFFFFFF .FFFF 0x1

/-- The last word again. -/
def PatternMMMMPrevious := locatedClass 0xFFFFFFFF previousIndex .MMMMPrevious 0x2

/-- The word before the last again. -/
def PatternMMMMPenultimate := locatedClass 0xFFFFFFFF penultimateIndex .MMMMPenultimate 0x3

/-- Zeros above the lowest byte. -/
def PatternZZZX := valueClass 0 0xFFFFFF00 .ZZZX 0x4

/-- Zeros below the highest byte. -/
def PatternXZZZ := valueClass 0 0x00FFFFFF .XZZZ 0x5

/-- One byte four times. -/
def PatternRRRR : PatternClass 4 where
  isPattern bytes _ _ := isRepeatedValue 1 bytes
  make bytes loc := repeatedValuePattern 1 PatternNumber.RRRR.ctorIdx 0x6 prefixSize loc bytes true

/-- The last word but for its lowest byte. -/
def PatternMMMXPrevious := locatedClass 0xFFFFFF00 previousIndex .MMMXPrevious 0x7

/-- The word before the last but for its lowest byte. -/
def PatternMMMXPenultimate := locatedClass 0xFFFFFF00 penultimateIndex .MMMXPenultimate 0x8

/-- Zeros above the lower half. -/
def PatternZZXX := valueClass 0 0xFFFF0000 .ZZXX 0x9

/-- Two bytes, each below a zero. -/
def PatternZXZX := valueClass 0 0xFF00FF00 .ZXZX 0xA

/-- Ones above the lower half. -/
def PatternFFXX := valueClass 0xFFFFFFFF 0xFFFF0000 .FFXX 0xB

/-- Zeros below the upper half. -/
def PatternXXZZ := valueClass 0 0x0000FFFF .XXZZ 0xC

/-- The upper half of the last word. -/
def PatternMMXXPrevious := locatedClass 0xFFFF0000 previousIndex .MMXXPrevious 0xD

/-- The upper half of the word before the last. -/
def PatternMMXXPenultimate := locatedClass 0xFFFF0000 penultimateIndex .MMXXPenultimate 0xE

/-- Any word, stored whole. -/
def PatternXXXX : PatternClass 4 where
  isPattern _ _ _ := true
  make bytes loc := uncompressedPattern PatternNumber.XXXX.ctorIdx 0xF prefixSize loc bytes

/-- The table behaves as a FIFO of two. -/
def addToDictionary (d : Dict 4) (data : Entry 4) : Dict 4 :=
  if d.numEntries = 2 then
    { d with
      dictionary := (d.dictionary.set 0 (d.dictionary[1]?.getD (toDictionaryEntry 0))).set 1 data }
  else ⟨d.dictionary.set d.numEntries data, d.numEntries + 1⟩

end FPCD

/-- `FPCD`: the dictionary is the last two words. -/
def fpcd : Compressor 4 where
  patterns :=
    [FPCD.PatternZZZZ, FPCD.PatternFFFF, FPCD.PatternMMMMPrevious, FPCD.PatternMMMMPenultimate,
      FPCD.PatternZZZX, FPCD.PatternXZZZ, FPCD.PatternRRRR, FPCD.PatternMMMXPrevious,
      FPCD.PatternMMMXPenultimate, FPCD.PatternZZXX, FPCD.PatternZXZX, FPCD.PatternFFXX,
      FPCD.PatternXXZZ, FPCD.PatternMMXXPrevious, FPCD.PatternMMXXPenultimate]
  uncompressed := FPCD.PatternXXXX
  dictionarySize := 2
  addToDictionary d data := some (FPCD.addToDictionary d data)
  resetDictionary := some (zeroDict 4 2)
  addEntry := CompData.add
  finish _ _ comp := some comp

/-! ## RepeatedQwords -/

namespace RepeatedQwords

/-- The patterns, in the order of their numbers. -/
inductive PatternNumber where
  | X | M

/-- A word that is new, stored whole. -/
def PatternX : PatternClass 8 where
  isPattern _ _ _ := true
  make bytes loc := uncompressedPattern PatternNumber.X.ctorIdx 0 0 loc bytes

/-- The word of the dictionary. -/
def PatternM : PatternClass 8 where
  isPattern := isLocatedMasked 0xFFFFFFFFFFFFFFFF 0
  make bytes loc := maskedPattern 0xFFFFFFFFFFFFFFFF PatternNumber.M.ctorIdx 1 0 loc bytes false

end RepeatedQwords

/-- `RepeatedQwords`: a line of one word is compressed, any other not. -/
def repeatedQwords (dictionarySize : Nat) : Compressor 8 where
  patterns := [RepeatedQwords.PatternM]
  uncompressed := RepeatedQwords.PatternX
  dictionarySize := dictionarySize
  addToDictionary := Dict.push dictionarySize
  resetDictionary := some (zeroDict 8 dictionarySize)
  addEntry := CompData.add
  finish blkSize d comp :=
    if 1 ≤ d.numEntries then
      some (if 1 < d.numEntries then { comp with sizeBits := blkSize * 8 } else comp)
    else none

/-! ## BaseDelta -/

namespace BaseDelta

/-- The bases of a line, the zero base with them. -/
def DEFAULT_MAX_NUM_BASES : Nat := 2

/-- `std::ceil(std::log2(DEFAULT_MAX_NUM_BASES))`. -/
def bitmaskBits : Nat := Nat.clog 2 DEFAULT_MAX_NUM_BASES

/-- The patterns, in the order of their numbers. -/
inductive PatternNumber where
  | X | M

/-- A new base, stored whole. -/
def PatternX (n DeltaSizeBits : Nat) : PatternClass n where
  isPattern _ _ _ := true
  make bytes loc :=
    uncompressedPattern PatternNumber.X.ctorIdx 0 (bitmaskBits + DeltaSizeBits) loc bytes

/-- A delta from a base. -/
def PatternM (n DeltaSizeBits : Nat) : PatternClass n where
  isPattern := isDelta DeltaSizeBits
  make bytes loc := deltaPattern DeltaSizeBits PatternNumber.M.ctorIdx 1 bitmaskBits loc bytes

end BaseDelta

/-- The reset dictionary holds the zero base of the immediate values. -/
def baseDelta (n DeltaSizeBits dictionarySize : Nat) : Compressor n where
  patterns := [BaseDelta.PatternM n DeltaSizeBits]
  uncompressed := BaseDelta.PatternX n DeltaSizeBits
  dictionarySize := dictionarySize
  addToDictionary := Dict.push dictionarySize
  resetDictionary := (zeroDict n dictionarySize).push dictionarySize (toDictionaryEntry 0)
  addEntry := CompData.add
  finish blkSize d comp :=
    let diff : Int := BaseDelta.DEFAULT_MAX_NUM_BASES - d.numEntries
    some (if diff < 0 then { comp with sizeBits := blkSize * 8 }
      else { comp with sizeBits := comp.sizeBits + 8 * n * diff.toNat })

/-! ## The compressors as one -/

/-- A dictionary compressor with its parameters.  A base type has 1, 2, 4 or 8 bytes, and a delta is
    smaller than a base. -/
inductive Scheme where
  | cpack (dictionarySize : Nat)
  | fpc (zeroRunSizeBits : Nat)
  | fpcd
  | repeatedQwords (dictionarySize : Nat)
  | baseDelta (n DeltaSizeBits dictionarySize : Nat) (hn : n ∣ 8) (hdelta : DeltaSizeBits < 8 * n)

/-- The bytes of a chunk. -/
def Scheme.chunkBytes : Scheme → Nat
  | .cpack _ | .fpc _ | .fpcd => 4
  | .repeatedQwords _ => 8
  | .baseDelta n _ _ _ _ => n

/-- The compressor of a scheme. -/
def Scheme.compressor : (s : Scheme) → Compressor s.chunkBytes
  | .cpack dictionarySize => Dictionary.cpack dictionarySize
  | .fpc zeroRunSizeBits => Dictionary.fpc zeroRunSizeBits
  | .fpcd => Dictionary.fpcd
  | .repeatedQwords dictionarySize => Dictionary.repeatedQwords dictionarySize
  | .baseDelta n DeltaSizeBits dictionarySize _ _ =>
    Dictionary.baseDelta n DeltaSizeBits dictionarySize

/-- When the decoder can undo the encoder: the line is made of whole qwords, and no `CPack` match
    has an index past 255, be it for the length of the line or for the size of the dictionary.  A
    `BaseDelta` without room for the zero base compresses nothing. -/
def Scheme.Restorable (blkSize : Nat) : Scheme → Prop
  | .cpack dictionarySize => 8 ∣ blkSize ∧ (blkSize ≤ 1024 ∨ dictionarySize ≤ 257)
  | .fpc _ | .fpcd | .repeatedQwords _ => 8 ∣ blkSize
  | .baseDelta _ _ dictionarySize _ _ => 8 ∣ blkSize ∨ dictionarySize = 0

/-! ## The compressors are sound -/

section Sound

variable {n : Nat}

/-- The dictionary after `k` words: it keeps its size, and no word adds two entries. -/
def Grown (dictionarySize k : Nat) (d : Dict n) : Prop :=
  d.dictionary.length = dictionarySize ∧ d.numEntries ≤ dictionarySize ∧ d.numEntries ≤ k

theorem grown_zeroDict (dictionarySize : Nat) : Grown dictionarySize 0 (zeroDict n dictionarySize) :=
  ⟨length_replicate, Nat.zero_le _, Nat.le_refl _⟩

variable {dictionarySize k : Nat} {near : Int → Pattern 4 → Prop}

theorem push_eq_some {d d' : Dict n} {data : Entry n} :
    d.push dictionarySize data = some d' ↔ d.numEntries < dictionarySize ∧
      d' = ⟨d.dictionary.set d.numEntries data, d.numEntries + 1⟩ := by
  unfold Dict.push
  split_ifs with h
  · simp [h, eq_comm]
  · simp [h]

theorem Grown.push {d d' : Dict n} (h : Grown dictionarySize k d)
    {data : Entry n} (hpush : d.push dictionarySize data = some d') :
    Grown dictionarySize (k + 1) d' := by
  obtain ⟨hlt, rfl⟩ := push_eq_some.mp hpush
  obtain ⟨hlen, -, hk⟩ := h
  exact ⟨by simpa using hlen, hlt, Nat.succ_le_succ hk⟩

theorem Grown.mono {d : Dict n} (h : Grown dictionarySize k d) : Grown dictionarySize (k + 1) d :=
  ⟨h.1, h.2.1, Nat.le_succ_of_le h.2.2⟩

/-- A compressor whose dictionary is only pushed to. -/
theorem Grown.allocate {c : Compressor n} {d d' : Dict n}
    (hpush : c.addToDictionary = Dict.push dictionarySize) {pattern : Pattern n} {bytes : Entry n}
    (h : Grown dictionarySize k d) (halloc : c.allocate d pattern bytes = some d') :
    Grown dictionarySize (k + 1) d' := by
  unfold Compressor.allocate at halloc
  split_ifs at halloc with hallocate
  · rw [hpush] at halloc
    exact h.push halloc
  · cases halloc
    exact h.mono

theorem compData_add (comp : CompData n) (pattern : Pattern n) :
    ∃ kept, pattern.Same kept ∧ (comp.add pattern).entries = comp.entries ++ [kept] :=
  ⟨pattern, ⟨rfl, rfl, rfl⟩, rfl⟩

/-- A match at a fixed, small location. -/
def nearby (loc : Int) (_ : Pattern n) : Prop := loc < 256

/-- A match that allocates. -/
def allocates (_ : Int) (pattern : Pattern n) : Prop := pattern.allocate = true

theorem sound_of_free {near : Int → Pattern n → Prop} {p : PatternClass n}
    (h : ∀ bytes dict_bytes loc, p.isPattern bytes dict_bytes loc = true →
      (p.make bytes loc).Free bytes) : p.Sound near :=
  fun bytes dict_bytes loc hp => .inl (h bytes dict_bytes loc hp)

theorem isMasked_nonneg {mask : Word n} {bytes dict_bytes : Entry n} {loc : Int}
    (h : isMasked mask bytes dict_bytes loc = true) : 0 ≤ loc := by
  simp only [isMasked, Bool.and_eq_true, decide_eq_true_eq] at h
  exact h.1

/-- The classes of `CPack` on the dictionary. -/
theorem masked_sound (mask : Word n) (number code metadata_length : Nat) :
    PatternClass.Sound allocates ⟨isMasked mask, fun bytes loc =>
        maskedPattern mask number code metadata_length loc bytes true⟩ :=
  fun _ _ _ hp =>
    .inr ⟨isMasked_nonneg hp, rfl, maskedPattern_decompress hp number code metadata_length true, rfl⟩

theorem locatedMasked_sound (mask : Word n) {location : Int} (hlocation : location < 256)
    (number code metadata_length : Nat) (allocate : Bool) :
    PatternClass.Sound nearby ⟨isLocatedMasked mask location, fun bytes loc =>
        maskedPattern mask number code metadata_length loc bytes allocate⟩ := by
  intro bytes dict_bytes loc hp
  simp only [isLocatedMasked, Bool.and_eq_true, beq_iff_eq] at hp
  obtain ⟨rfl, hp⟩ := hp
  exact .inr ⟨isMasked_nonneg hp, rfl,
    maskedPattern_decompress hp number code metadata_length allocate, hlocation⟩

theorem maskedValue_sound {near : Int → Pattern n → Prop} (value mask : Word n)
    (number code metadata_length : Nat) (place : Int → Int) (allocate : Bool) :
    PatternClass.Sound near ⟨fun bytes _ _ => isMaskedValue value mask bytes, fun bytes loc =>
        maskedValuePattern value mask number code metadata_length (place loc) bytes allocate⟩ :=
  sound_of_free fun _ _ _ hp => maskedValuePattern_free hp number code metadata_length _ allocate

theorem cpack_sound {words : Nat} (h : words ≤ 257 ∨ dictionarySize ≤ 257) :
    (cpack dictionarySize).Sound allocates (Grown dictionarySize) words where
  patterns := by
    simp only [cpack, forall_mem_cons, not_mem_nil, false_implies, implies_true, and_true]
    exact ⟨maskedValue_sound 0 _ _ _ _ id _, masked_sound _ _ _ _, maskedValue_sound 0 _ _ _ _ id _,
      masked_sound _ _ _ _, masked_sound _ _ _ _⟩
  uncompressed _ _ _ := rfl
  addEntry := compData_add
  finish _ _ _ _ hfinish := by cases hfinish; rfl
  reset d hd := by
    cases hd
    exact grown_zeroDict dictionarySize
  step _ _ _ _ _ hd halloc := hd.allocate rfl halloc
  inRange _ _ hd := by rw [hd.1]; exact hd.2.1
  indexed k d pattern bytes d' i hk hd halloc hi hnear := by
    have hpush : d.push dictionarySize bytes = some d' := by
      rwa [Compressor.allocate, if_pos (show pattern.allocate = true from hnear)] at halloc
    have hroom := (push_eq_some.mp hpush).1
    have hcount := hd.2.2
    omega

theorem setWidth_and_mask {m : Nat} (hm : m ≤ 64) (x : BitVec 64) :
    (x &&& mask m).setWidth m = x.setWidth m := by
  apply eq_of_getLsbD_eq
  intro j hj
  have hj' : j < 64 := by omega
  simp only [getLsbD_setWidth, getLsbD_and, mask_getLsbD m hj']
  simp [hj]

/-- `szext` reads the low bits only. -/
theorem szext_congr {N : Nat} (hpos : 0 < N) {v w : BitVec 64}
    (h : ∀ j < N, v.getLsbD j = w.getLsbD j) : szext N v = szext N w := by
  have hsign : v.getLsbD (N - 1) = w.getLsbD (N - 1) := h (N - 1) (by omega)
  unfold szext
  rw [hsign]
  split_ifs with hbit
  · apply eq_of_getLsbD_eq
    intro j hj
    simp only [getLsbD_or, BitVec.getLsbD_not, mask_getLsbD N hj]
    by_cases hjN : j < N
    · rw [h j hjN]
    · simp [hj, hjN]
  · apply eq_of_getLsbD_eq
    intro j hj
    simp only [getLsbD_and, mask_getLsbD N hj]
    by_cases hjN : j < N
    · simp [hjN, h j hjN]
    · simp [hjN]

theorem extendByte_of_isSignExtendedHalfword {halfword : BitVec 16}
    (h : FPC.isSignExtendedHalfword halfword = true) :
    extendByte (halfword.setWidth 8) = halfword := by
  simp only [FPC.isSignExtendedHalfword, beq_iff_eq] at h
  -- a negative `int16_t` equals no `uint16_t`
  have hvalue : halfword = (szext 8 (halfword.signExtend 64)).setWidth 16 := by
    apply BitVec.eq_of_toNat_eq
    have hlt := halfword.isLt
    rw [BitVec.toInt_eq_toNat_cond] at h
    split_ifs at h
    · omega
    · omega
  have hbyte : szext 8 ((halfword.setWidth 8).signExtend 64) =
      szext 8 (halfword.signExtend 64) := by
    apply szext_congr (by omega)
    intro j hj
    have hj16 : j < 16 := by omega
    have hj64 : j < 64 := by omega
    simp only [BitVec.getLsbD_signExtend, getLsbD_setWidth, hj, hj16, hj64, decide_true,
      Bool.true_and, if_true]
  rw [extendByte, hbyte, ← hvalue]

/-- A word is its two halfwords. -/
theorem joinHalfwords (x : BitVec 32) : ((x.setWidth 64 >>> 16).setWidth 16).setWidth 32 <<< 16 |||
      ((x.setWidth 64).setWidth 16).setWidth 32 = x := by
  apply eq_of_getLsbD_eq
  intro j hj
  have hj64 : j < 64 := by omega
  simp only [getLsbD_or, BitVec.getLsbD_shiftLeft, getLsbD_setWidth,
    BitVec.getLsbD_ushiftRight]
  by_cases h16 : j < 16
  · simp [hj, h16, hj64]
  · have hback : 16 + (j - 16) = j := by omega
    have hlow : j - 16 < 16 := by omega
    have hmid : j - 16 < 32 := by omega
    simp [hj, h16, hback, hj64, hlow, hmid]

theorem twoHalfwords_sound :
    FPC.SignExtendedTwoHalfwords.Sound near := by
  refine sound_of_free fun bytes _ loc hp dict_bytes => ?_
  simp only [FPC.SignExtendedTwoHalfwords, Bool.and_eq_true] at hp
  obtain ⟨hlow, hhigh⟩ := hp
  rw [setWidth_and_mask (by omega)] at hlow hhigh
  have hlow' := extendByte_of_isSignExtendedHalfword hlow
  have hhigh' := extendByte_of_isSignExtendedHalfword hhigh
  rw [BitVec.setWidth_setWidth_of_le _ (by omega)] at hlow' hhigh'
  have hword : toDictionaryEntry (n := 4) ((extendByte
      ((((fromDictionaryEntry bytes).setWidth 64 >>> 16 &&& mask 8)).setWidth 8)).setWidth 32 <<< 16 |||
      (extendByte (((fromDictionaryEntry bytes).setWidth 64 &&& mask 8).setWidth 8)).setWidth 32) =
        bytes := by
    rw [setWidth_and_mask (by omega), setWidth_and_mask (by omega), hlow', hhigh',
      joinHalfwords (fromDictionaryEntry bytes)]
    exact toDictionaryEntry_fromDictionaryEntry bytes
  exact hword

theorem signExtended_sound {N : Nat} (hpos : 0 < N) (hN : N ≤ 64)
    (number : FPC.PatternNumber) : (FPC.SignExtended N number).Sound near :=
  sound_of_free fun _ _ _ hp => signExtendedPattern_free hpos hN hp _ _ _ _

theorem zeroRun_sound : FPC.ZeroRun.Sound near :=
  sound_of_free fun _ _ _ hp => maskedValuePattern_free hp 0 0 0 0 false

theorem repeated_sound (number code metadata_length : Nat) (place : Int → Int) (allocate : Bool) :
    PatternClass.Sound near ⟨fun bytes _ _ => isRepeatedValue 1 bytes, fun bytes loc =>
        repeatedValuePattern 1 number code metadata_length (place loc) bytes allocate⟩ :=
  sound_of_free fun _ _ _ hp => repeatedValuePattern_free (by omega) (by omega) hp _ _ _ _ _

theorem setRunLength_same (pattern : Pattern 4) (length : Nat) :
    pattern.Same (FPC.setRunLength pattern length) := by
  obtain ⟨_, _, _, _, _, _, payload⟩ := pattern
  cases payload <;> exact ⟨rfl, rfl, rfl⟩

theorem setRealSize_same (pattern : Pattern 4) (size : Nat) :
    pattern.Same (FPC.setRealSize pattern size) := by
  obtain ⟨_, _, _, _, _, _, payload⟩ := pattern
  cases payload <;> exact ⟨rfl, rfl, rfl⟩

/-- Joining a run changes the sizes only. -/
theorem inRun_same (zeroRunSizeBits : Nat) (entries : List (Pattern 4)) (pattern : Pattern 4) :
    pattern.Same (FPC.inRun zeroRunSizeBits entries pattern) := by
  unfold FPC.inRun
  split
  · split
    · exact setRealSize_same _ _
    · split_ifs
      · exact setRealSize_same _ _
      · exact setRealSize_same _ _
      · exact setRunLength_same _ _
  · exact ⟨rfl, rfl, rfl⟩

theorem fpc_sound (zeroRunSizeBits words : Nat) :
    (fpc zeroRunSizeBits).Sound nearby (Grown 1) words where
  patterns := by
    simp only [fpc, forall_mem_cons, not_mem_nil, false_implies, implies_true, and_true]
    exact ⟨zeroRun_sound, signExtended_sound (by omega) (by omega) _,
      signExtended_sound (by omega) (by omega) _, signExtended_sound (by omega) (by omega) _,
      maskedValue_sound 0 _ _ _ _ (fun _ => -1) _, twoHalfwords_sound,
      repeated_sound _ _ _ (fun _ => -1) _⟩
  uncompressed _ _ _ := rfl
  addEntry comp pattern := ⟨_, inRun_same zeroRunSizeBits comp.entries pattern, rfl⟩
  finish _ _ _ _ hfinish := by cases hfinish; rfl
  reset d hd := by
    cases hd
    exact grown_zeroDict 1
  step k d pattern bytes d' hd halloc := by
    have hsame : d' = d := by
      unfold Compressor.allocate at halloc
      split_ifs at halloc
      · exact (Option.some.inj halloc).symm
      · exact (Option.some.inj halloc).symm
    subst hsame
    exact hd.mono
  inRange _ _ hd := by rw [hd.1]; exact hd.2.1
  indexed _ _ _ _ _ _ _ _ _ _ hnear := by
    have : (_ : Int) < 256 := hnear
    omega

theorem fpcd_sound (words : Nat) : fpcd.Sound nearby (Grown 2) words where
  patterns := by
    have hvalue : ∀ value mask number code, (FPCD.valueClass value mask number code).Sound nearby :=
      fun _ _ _ _ => maskedValue_sound _ _ _ _ _ id _
    have hprevious : ∀ mask number code,
        (FPCD.locatedClass mask FPCD.previousIndex number code).Sound nearby :=
      fun _ _ _ => locatedMasked_sound _ (by decide) _ _ _ _
    have hpenultimate : ∀ mask number code,
        (FPCD.locatedClass mask FPCD.penultimateIndex number code).Sound nearby :=
      fun _ _ _ => locatedMasked_sound _ (by decide) _ _ _ _
    simp only [fpcd, forall_mem_cons, not_mem_nil, false_implies, implies_true, and_true]
    exact ⟨hvalue _ _ _ _, hvalue _ _ _ _, hprevious _ _ _, hpenultimate _ _ _, hvalue _ _ _ _,
      hvalue _ _ _ _, repeated_sound _ _ _ id _, hprevious _ _ _, hpenultimate _ _ _,
      hvalue _ _ _ _, hvalue _ _ _ _, hvalue _ _ _ _, hvalue _ _ _ _, hprevious _ _ _,
      hpenultimate _ _ _⟩
  uncompressed _ _ _ := rfl
  addEntry := compData_add
  finish _ _ _ _ hfinish := by cases hfinish; rfl
  reset d hd := by
    cases hd
    exact grown_zeroDict 2
  step k d pattern bytes d' hd halloc := by
    obtain ⟨hlen, hsize, hk⟩ := hd
    unfold Compressor.allocate at halloc
    split_ifs at halloc
    · cases halloc
      unfold FPCD.addToDictionary
      split_ifs with htwo
      · exact ⟨by simpa using hlen, hsize, by simp only; omega⟩
      · exact ⟨by simpa using hlen, by simp only; omega, by simp only; omega⟩
    · cases halloc
      exact ⟨hlen, hsize, by omega⟩
  inRange _ _ hd := by rw [hd.1]; exact hd.2.1
  indexed _ _ _ _ _ _ _ _ _ _ hnear := by
    have : (_ : Int) < 256 := hnear
    omega

theorem repeatedQwords_sound (dictionarySize words : Nat) :
    (repeatedQwords dictionarySize).Sound nearby (Grown dictionarySize) words where
  patterns := by
    simp only [repeatedQwords, forall_mem_cons, not_mem_nil, false_implies, implies_true, and_true]
    exact locatedMasked_sound _ (by decide) _ _ _ _
  uncompressed _ _ _ := rfl
  addEntry := compData_add
  finish _ d comp comp' hfinish := by
    simp only [repeatedQwords] at hfinish
    split_ifs at hfinish <;> cases hfinish <;> rfl
  reset d hd := by
    cases hd
    exact grown_zeroDict dictionarySize
  step _ _ _ _ _ hd halloc := hd.allocate rfl halloc
  inRange _ _ hd := by rw [hd.1]; exact hd.2.1
  indexed _ _ _ _ _ _ _ _ _ _ hnear := by
    have : (_ : Int) < 256 := hnear
    omega

theorem baseDelta_sound (n DeltaSizeBits dictionarySize words : Nat) :
    (baseDelta n DeltaSizeBits dictionarySize).Sound nearby (fun k => Grown dictionarySize (k + 1))
      words where
  patterns := by
    simp only [baseDelta, forall_mem_cons, not_mem_nil, false_implies, implies_true, and_true]
    exact sound_of_free fun _ _ _ _ _ => rfl
  uncompressed _ _ _ := rfl
  addEntry := compData_add
  finish _ d comp comp' hfinish := by
    simp only [baseDelta, Option.some.injEq] at hfinish
    rw [← hfinish]
    split_ifs <;> rfl
  reset d hd := (grown_zeroDict dictionarySize).push hd
  step _ _ _ _ _ hd halloc := hd.allocate rfl halloc
  inRange _ _ hd := by rw [hd.1]; exact hd.2.1
  indexed _ _ _ _ _ _ _ _ _ _ hnear := by
    have : (_ : Int) < 256 := hnear
    omega

end Sound

/-! ## Lines that do not come back: a last half qword -/

section Tail

variable {n : Nat} {c : Compressor n}

/-- `decompress` writes whole qwords only. -/
theorem not_lossless_of_not_dvd {blkSize : Nat} (hblk : ¬ 8 ∣ blkSize) {comp : CompData n}
    (h : c.compress blkSize (fun _ => 0) = some comp) : ¬ Lossless c blkSize := by
  intro hl
  obtain ⟨result, hresult, hbits⟩ :=
    (hl _ _ h).1 (fun _ _ => toDictionaryEntry 0) (fun _ => allOnes 64)
  simp only [Compressor.decompress, bind_eq_bind, bind_eq_some_iff,
    Option.some.injEq, Prod.exists] at hresult
  obtain ⟨values, _, -, rfl⟩ := hresult
  have hlast := hbits (64 * (blkSize / 8)) (by omega)
  have hindex : 64 * (blkSize / 8) / 64 = blkSize / 8 := by omega
  have hbit : 64 * (blkSize / 8) % 64 = 0 := by omega
  rw [bitAt, bitAt, hindex, hbit, fromValues, if_neg (Nat.lt_irrefl _)] at hlast
  simp at hlast

theorem toChunks_zero (n blkSize : Nat) :
    toChunks n blkSize (fun _ => 0) = replicate (blkSize * 8 / (8 * n)) 0 := by
  simp [toChunks, map_const']

theorem compressFrom_replicate {P : Dict n → Prop}
    (hstep : ∀ d, P d → ∃ pattern d', c.compressValue d 0 = some (pattern, d') ∧ P d') :
    ∀ (m : Nat) (d : Dict n) (comp : CompData n), P d →
      ∃ comp' d', c.compressFrom d comp (replicate m 0) = some (comp', d') ∧ P d'
  | 0, d, comp, hd => ⟨comp, d, rfl, hd⟩
  | m + 1, d, comp, hd => by
    obtain ⟨pattern, d₁, hvalue, hd₁⟩ := hstep d hd
    obtain ⟨comp', d', hrest, hd'⟩ := compressFrom_replicate hstep m d₁ (c.addEntry comp pattern) hd₁
    refine ⟨comp', d', ?_, hd'⟩
    simp only [replicate_succ, Compressor.compressFrom, hvalue, bind_eq_bind,
      bind_some, hrest]

/-- A word no pattern of which allocates leaves the dictionary alone. -/
theorem compressValue_of_not_allocate {data : Word n} (h : ∀ dict_bytes loc,
      (c.getPattern (toDictionaryEntry data) dict_bytes loc).allocate = false) (d : Dict n) :
    ∃ pattern, c.compressValue d data = some (pattern, d) := by
  have hbest : (c.bestPattern d (toDictionaryEntry data)).allocate = false := by
    unfold Compressor.bestPattern
    refine foldlRecOn (motive := fun p => p.allocate = false) (range d.numEntries)
      (c.better d (toDictionaryEntry data)) ?_ ?_
    · exact h _ _
    · intro pattern hpattern i _
      unfold Compressor.better
      simp only
      split_ifs
      · exact h _ _
      · exact hpattern
  refine ⟨c.bestPattern d (toDictionaryEntry data), ?_⟩
  simp [Compressor.compressValue, Compressor.allocate, hbest]

theorem isMaskedValue_zero (mask : Word n) : isMaskedValue 0 mask (toDictionaryEntry 0) = true := by
  simp [isMaskedValue]

theorem cpack_zero (dictionarySize : Nat) (d : Dict 4) :
    ∃ pattern, (cpack dictionarySize).compressValue d 0 = some (pattern, d) := by
  refine compressValue_of_not_allocate (fun dict_bytes loc => ?_) d
  have hfirst : CPack.PatternZZZZ.isPattern (toDictionaryEntry 0) dict_bytes loc = true :=
    isMaskedValue_zero _
  simp only [Compressor.getPattern, cpack, find?_cons, hfirst]
  rfl

theorem fpc_zero (zeroRunSizeBits : Nat) (d : Dict 4) :
    ∃ pattern, (fpc zeroRunSizeBits).compressValue d 0 = some (pattern, d) := by
  refine compressValue_of_not_allocate (fun dict_bytes loc => ?_) d
  have hfirst : FPC.ZeroRun.isPattern (toDictionaryEntry 0) dict_bytes loc = true :=
    isMaskedValue_zero _
  simp only [Compressor.getPattern, fpc, find?_cons, hfirst]
  rfl

theorem fpcd_compressValue (d : Dict 4) (data : Word 4) :
    ∃ pattern d', fpcd.compressValue d data = some (pattern, d') := by
  simp only [Compressor.compressValue, Compressor.allocate]
  split_ifs
  · exact ⟨_, _, rfl⟩
  · exact ⟨_, _, rfl⟩

/-- Zero lies within every delta of the zero base. -/
theorem isValidDelta_zero {DeltaSizeBits : Nat} (hn : n ≤ 8) (hdelta : DeltaSizeBits < 8 * n) :
    isValidDelta DeltaSizeBits (toDictionaryEntry (0 : Word n)) (toDictionaryEntry 0) = true := by
  have hlimit : 0 ≤ ((mask (DeltaSizeBits - 1)).setWidth (8 * n)).toInt := by
    have hmsb : ((mask (DeltaSizeBits - 1)).setWidth (8 * n)).msb = false := by
      rw [BitVec.msb_eq_getLsbD_last, getLsbD_setWidth, mask_getLsbD _ (by omega)]
      simp
      omega
    rw [BitVec.toInt_eq_toNat_of_msb hmsb]
    exact Int.natCast_nonneg _
  simp only [isValidDelta, fromDictionaryEntry_toDictionaryEntry, BitVec.sub_self,
    BitVec.toInt_zero]
  split_ifs
  · simp
  · simp only [Bool.and_eq_true, decide_eq_true_eq]
    omega

/-- The dictionary of a `BaseDelta` that has met nothing but zeros. -/
def ZeroBase (d : Dict n) : Prop := d.numEntries = 1 ∧ d.dictionary[0]? = some (toDictionaryEntry 0)

theorem baseDelta_zero {DeltaSizeBits dictionarySize : Nat} (hn : n ≤ 8)
    (hdelta : DeltaSizeBits < 8 * n) (d : Dict n) (hd : ZeroBase d) :
    ∃ pattern, (baseDelta n DeltaSizeBits dictionarySize).compressValue d 0 = some (pattern, d) := by
  obtain ⟨hcount, hbase⟩ := hd
  have hnone : (baseDelta n DeltaSizeBits dictionarySize).getPattern (toDictionaryEntry 0)
      (toDictionaryEntry 0) (-1) =
        (BaseDelta.PatternX n DeltaSizeBits).make (toDictionaryEntry 0) (-1) := by
    simp [Compressor.getPattern, baseDelta, BaseDelta.PatternM, isDelta]
  have hdelta₀ : (BaseDelta.PatternM n DeltaSizeBits).isPattern (toDictionaryEntry 0)
      (toDictionaryEntry 0) 0 = true := by
    rw [BaseDelta.PatternM]
    simp only [isDelta, isValidDelta_zero hn hdelta]
    rfl
  have hmatch : (baseDelta n DeltaSizeBits dictionarySize).getPattern (toDictionaryEntry 0)
      (toDictionaryEntry 0) 0 =
        (BaseDelta.PatternM n DeltaSizeBits).make (toDictionaryEntry 0) 0 := by
    simp only [Compressor.getPattern, baseDelta, find?_cons, hdelta₀]
  have hbest : (baseDelta n DeltaSizeBits dictionarySize).bestPattern d (toDictionaryEntry 0) =
      (BaseDelta.PatternM n DeltaSizeBits).make (toDictionaryEntry 0) 0 := by
    rw [Compressor.bestPattern, hcount, hnone]
    simp only [range_one, foldl_cons, foldl_nil, Compressor.better, hbase, getD_some]
    rw [show ((0 : Nat) : Int) = 0 from rfl, hmatch, if_pos]
    simp only [Pattern.getSizeBits, BaseDelta.PatternM, BaseDelta.PatternX, deltaPattern,
      uncompressedPattern]
    omega
  refine ⟨(BaseDelta.PatternM n DeltaSizeBits).make (toDictionaryEntry 0) 0, ?_⟩
  simp only [Compressor.compressValue, hbest]
  rfl

end Tail

/-! ## Lines that do not come back: a `CPack` match past entry 255 -/

section Far

/-- Word `i` of a line whose first 257 words have nothing in common, whose next one repeats the last
    of them, and whose other words are zero. -/
def farWord (i : Nat) : Word 4 :=
  if i < 257 then ofNat 32 (i + 1) <<< 16
  else if i = 257 then ofNat 32 257 <<< 16
  else 0

/-- The line of these words. -/
def farLine : Mem := fun q => joinWords (fun j => farWord (2 * q + j)) 2

theorem toChunks_farLine (blkSize : Nat) :
    toChunks 4 blkSize farLine = (range (blkSize / 4)).map farWord := by
  have hcount : blkSize * 8 / (8 * 4) = blkSize / 4 := by omega
  rw [toChunks, hcount]
  apply map_congr_left
  intro i _
  apply eq_of_getLsbD_eq
  intro j hj
  have hword : 2 * (i / 2) + i % 2 = i := by omega
  have hbit : i % 2 * 32 + j < 64 := by omega
  have hdiv : (i % 2 * 32 + j) / 32 = i % 2 := by omega
  have hmod : (i % 2 * 32 + j) % 32 = j := by omega
  have hall : i % 2 * 32 + j < 8 * 4 * 2 := by omega
  rw [getLsbD_setWidth, BitVec.getLsbD_ushiftRight, farLine,
    joinWords_getLsbD _ (by omega) _ hbit]
  simp [hj, hdiv, hmod, hword, hbit]

/-- The bits the weakest match looks at. -/
def upperHalf (x : Word 4) : Word 4 := x &&& 0xFFFF0000

variable {i m : Nat} {d : Dict 4}

theorem upperHalf_farWord (hi : i < 257) : upperHalf (farWord i) = farWord i := by
  have hones : (0xFFFF0000 : Word 4) = allOnes 32 <<< 16 := by decide
  rw [upperHalf, farWord, if_pos hi, hones]
  exact (BitVec.shiftLeft_and_distrib ..).symm.trans (by rw [BitVec.and_allOnes])

theorem farWord_inj {j : Nat} (hi : i < 257) (hj : j < 257) (h : farWord i = farWord j) :
    i = j := by
  have hnat := congrArg BitVec.toNat h
  simp only [farWord, hi, hj, if_true, BitVec.toNat_shiftLeft, toNat_ofNat,
    Nat.shiftLeft_eq] at hnat
  omega

theorem farWord_ne_zero (hi : i < 257) : farWord i ≠ 0 := by
  intro h
  have hnat := congrArg BitVec.toNat h
  simp only [farWord, hi, if_true, BitVec.toNat_shiftLeft, toNat_ofNat,
    Nat.shiftLeft_eq] at hnat
  have : (0 : Word 4).toNat = 0 := rfl
  omega

/-- A mask of a `CPack` class covers the upper half. -/
theorem upperHalf_eq_of_and {mask x y : Word 4} (hmask : mask &&& 0xFFFF0000 = 0xFFFF0000)
    (h : x &&& mask = y &&& mask) : upperHalf x = upperHalf y := by
  have := congrArg (fun w => w &&& (0xFFFF0000 : Word 4)) h
  simp only [BitVec.and_assoc, hmask] at this
  exact this

variable {dictionarySize : Nat}

/-- A word with an upper half of its own matches nothing. -/
theorem cpack_getPattern_fresh {data : Word 4} {dict_bytes : Entry 4} {loc : Int}
    (hzero : upperHalf data ≠ 0)
    (hfresh : 0 ≤ loc → upperHalf data ≠ upperHalf (fromDictionaryEntry dict_bytes)) :
    (cpack dictionarySize).getPattern (toDictionaryEntry data) dict_bytes loc =
      CPack.PatternXXXX.make (toDictionaryEntry data) loc := by
  have hvalue : ∀ mask : Word 4, mask &&& 0xFFFF0000 = 0xFFFF0000 →
      isMaskedValue 0 mask (toDictionaryEntry data) = false := by
    intro mask hmask
    rw [isMaskedValue, fromDictionaryEntry_toDictionaryEntry, beq_eq_false_iff_ne]
    intro h
    refine hzero ((upperHalf_eq_of_and hmask h).symm.trans ?_)
    decide
  have hmasked : ∀ mask : Word 4, mask &&& 0xFFFF0000 = 0xFFFF0000 →
      isMasked mask (toDictionaryEntry data) dict_bytes loc = false := by
    intro mask hmask
    rw [isMasked, fromDictionaryEntry_toDictionaryEntry, Bool.and_eq_false_iff]
    by_cases hloc : 0 ≤ loc
    · refine .inr (beq_eq_false_iff_ne.mpr fun h => hfresh hloc (upperHalf_eq_of_and hmask h))
    · exact .inl (by simpa using hloc)
  have hZZZZ : CPack.PatternZZZZ.isPattern (toDictionaryEntry data) dict_bytes loc = false :=
    hvalue _ (by decide)
  have hMMMM : CPack.PatternMMMM.isPattern (toDictionaryEntry data) dict_bytes loc = false :=
    hmasked _ (by decide)
  have hZZZX : CPack.PatternZZZX.isPattern (toDictionaryEntry data) dict_bytes loc = false :=
    hvalue _ (by decide)
  have hMMMX : CPack.PatternMMMX.isPattern (toDictionaryEntry data) dict_bytes loc = false :=
    hmasked _ (by decide)
  have hMMXX : CPack.PatternMMXX.isPattern (toDictionaryEntry data) dict_bytes loc = false :=
    hmasked _ (by decide)
  simp only [Compressor.getPattern, cpack, find?_cons, hZZZZ, hMMMM, hZZZX, hMMMX, hMMXX, find?_nil]

/-- The search through entries none of which matches. -/
theorem cpack_search_fresh {data : Word 4} (hzero : upperHalf data ≠ 0)
    (hfresh : ∀ i < m, upperHalf data ≠
      upperHalf (fromDictionaryEntry (d.dictionary[i]?.getD (toDictionaryEntry 0)))) :
    (range m).foldl ((cpack dictionarySize).better d (toDictionaryEntry data))
        ((cpack dictionarySize).getPattern (toDictionaryEntry data) (toDictionaryEntry 0) (-1)) =
      CPack.PatternXXXX.make (toDictionaryEntry data) (-1) := by
  induction m with
  | zero => exact cpack_getPattern_fresh hzero (by omega)
  | succ m ih =>
    rw [range_succ, foldl_append, ih fun i hi => hfresh i (by omega)]
    simp only [foldl_cons, foldl_nil, Compressor.better]
    rw [cpack_getPattern_fresh hzero fun _ => hfresh m (by omega)]
    exact if_neg (Nat.lt_irrefl _)

/-- The dictionary after the first `m` words of the line. -/
def Seen (dictionarySize m : Nat) (d : Dict 4) : Prop :=
  Grown dictionarySize m d ∧ d.numEntries = m ∧
    ∀ i < m, d.dictionary[i]? = some (toDictionaryEntry (farWord i))

theorem Seen.fresh (h : Seen dictionarySize m d) {w : Nat} (hw : w < 257)
    (hi : i < m) (hi' : i < 257) (hne : w ≠ i) :
    upperHalf (farWord w) ≠
      upperHalf (fromDictionaryEntry (d.dictionary[i]?.getD (toDictionaryEntry 0))) := by
  rw [h.2.2 i hi, getD_some, fromDictionaryEntry_toDictionaryEntry, upperHalf_farWord hw,
    upperHalf_farWord hi']
  exact fun heq => hne (farWord_inj hw hi' heq)

theorem upperHalf_farWord_ne_zero (hi : i < 257) : upperHalf (farWord i) ≠ 0 := by
  rw [upperHalf_farWord hi]
  exact farWord_ne_zero hi

/-- A word that allocates is seen. -/
theorem Seen.push (h : Seen dictionarySize m d) (hroom : m < dictionarySize)
    : ∃ d', d.push dictionarySize (toDictionaryEntry (farWord m)) = some d' ∧
        Seen dictionarySize (m + 1) d' := by
  obtain ⟨hgrown, hcount, hwords⟩ := h
  have hpush : d.push dictionarySize (toDictionaryEntry (farWord m)) =
      some ⟨d.dictionary.set m (toDictionaryEntry (farWord m)), m + 1⟩ :=
    push_eq_some.mpr ⟨by omega, by rw [hcount]⟩
  refine ⟨_, hpush, hgrown.push hpush, rfl, fun i hi => ?_⟩
  have hlen := hgrown.1
  by_cases him : i = m
  · subst him
    exact getElem?_set_self (by omega)
  · rw [getElem?_set_ne (by omega)]
    exact hwords i (by omega)

/-- The first 257 words stay uncompressed. -/
theorem Seen.compress_front (dictionarySize : Nat) (hm : m ≤ 257) (hroom : m ≤ dictionarySize) :
    ∃ comp d, (cpack dictionarySize).compressFrom (zeroDict 4 dictionarySize) {}
        ((range m).map farWord) = some (comp, d) ∧ Seen dictionarySize m d := by
  induction m with
  | zero => exact ⟨{}, _, rfl, grown_zeroDict dictionarySize, rfl, by omega⟩
  | succ m ih =>
    obtain ⟨comp, d, hfront, hseen⟩ := ih (by omega) (by omega)
    obtain ⟨d', hpush, hseen'⟩ := hseen.push (by omega)
    have hbest : (cpack dictionarySize).bestPattern d (toDictionaryEntry (farWord m)) =
        CPack.PatternXXXX.make (toDictionaryEntry (farWord m)) (-1) := by
      rw [Compressor.bestPattern, hseen.2.1]
      exact cpack_search_fresh (upperHalf_farWord_ne_zero (by omega)) fun i hi =>
        hseen.fresh (by omega) hi (by omega) (by omega)
    have hvalue : (cpack dictionarySize).compressValue d (farWord m) =
        some (CPack.PatternXXXX.make (toDictionaryEntry (farWord m)) (-1), d') := by
      simp only [Compressor.compressValue, hbest]
      show (d.push dictionarySize _).map _ = _
      rw [hpush]
      rfl
    refine ⟨(cpack dictionarySize).addEntry comp
      (CPack.PatternXXXX.make (toDictionaryEntry (farWord m)) (-1)), d', ?_, hseen'⟩
    rw [range_succ, map_append, compressFrom_append, hfront]
    simp only [bind_some, map_cons, map_nil, Compressor.compressFrom, hvalue,
      bind_eq_bind]

/-- The pattern of word 257: a whole match at entry 256. -/
def farPattern : Pattern 4 := CPack.PatternMMMM.make (toDictionaryEntry (farWord 257)) 256

theorem farWord_257 : farWord 257 = farWord 256 := by decide

theorem Seen.bestPattern_far (h : Seen dictionarySize 257 d) :
    (cpack dictionarySize).bestPattern d (toDictionaryEntry (farWord 257)) = farPattern := by
  have hmatch : (cpack dictionarySize).getPattern (toDictionaryEntry (farWord 257))
      (toDictionaryEntry (farWord 256)) 256 = farPattern := by
    have hZZZZ : CPack.PatternZZZZ.isPattern (toDictionaryEntry (farWord 257))
        (toDictionaryEntry (farWord 256)) 256 = false := by decide
    have hMMMM : CPack.PatternMMMM.isPattern (toDictionaryEntry (farWord 257))
        (toDictionaryEntry (farWord 256)) 256 = true := by
      rw [farWord_257]
      simp [CPack.PatternMMMM, isMasked]
    simp only [Compressor.getPattern, cpack, find?_cons, hZZZZ, hMMMM]
    rfl
  rw [Compressor.bestPattern, h.2.1, range_succ, foldl_append, farWord_257,
    cpack_search_fresh (upperHalf_farWord_ne_zero (by omega)) fun i hi =>
      h.fresh (by omega) (by omega) (by omega) (by omega)]
  simp only [foldl_cons, foldl_nil, Compressor.better, h.2.2 256 (by omega), getD_some]
  rw [← farWord_257] at hmatch ⊢
  rw [show ((256 : Nat) : Int) = 256 from rfl, hmatch]
  exact if_pos (by decide)

theorem Seen.compress_far (h : Seen dictionarySize 257 d) (hroom : 258 ≤ dictionarySize) :
    ∃ d', (cpack dictionarySize).compressValue d (farWord 257) = some (farPattern, d') ∧
      d'.dictionary[257]? = some (toDictionaryEntry (farWord 257)) := by
  obtain ⟨d', hpush, hseen⟩ := h.push (by omega)
  refine ⟨d', ?_, hseen.2.2 257 (by omega)⟩
  simp only [Compressor.compressValue, h.bestPattern_far]
  show (d.push dictionarySize _).map _ = _
  rw [hpush]
  rfl

/-- The decoder looks for entry 256 at entry 0. -/
theorem Seen.decompress_far {d' : Dict 4} (h : Seen dictionarySize 257 d) {v : Word 4}
    {garbage : Nat → Entry 4}
    (hvalue : (cpack dictionarySize).decompressValue garbage d farPattern = some (v, d')) :
    d'.dictionary[257]? = some (toDictionaryEntry (farWord 0)) := by
  have hword : farPattern.decompress (toDictionaryEntry (farWord 0)) =
      toDictionaryEntry (farWord 0) := by
    show unmask _ _ _ = _
    rw [unmask, fromDictionaryEntry_toDictionaryEntry, fromDictionaryEntry_toDictionaryEntry]
    congr 1
  have hlocation : farPattern.getMatchLocation = 0 := rfl
  simp only [Compressor.decompressValue, hlocation, h.2.2 0 (by omega), getD_some, hword,
    Option.map_eq_some_iff, Prod.mk.injEq] at hvalue
  obtain ⟨_, hpush, -, rfl⟩ := hvalue
  obtain ⟨hlt, rfl⟩ := push_eq_some.mp hpush
  have hlen := h.1.1
  rw [h.2.1] at hlt ⊢
  exact getElem?_set_self (by omega)

theorem decompressFrom_snoc {n : Nat} {c : Compressor n} {garbage : Nat → Nat → Entry n}
    {pattern : Pattern n} :
    ∀ (front : List (Pattern n)) (k : Nat) (d d₁ d' : Dict n) (values decoded : List (Word n)),
      c.decompressFrom garbage k d front = some (values, d₁) →
      c.decompressFrom garbage k d (front ++ [pattern]) = some (decoded, d') →
      ∃ v, c.decompressValue (garbage (k + front.length)) d₁ pattern = some (v, d')
  | [], k, d, d₁, d', values, decoded, hfront, hall => by
    cases hfront
    simp only [nil_append, Compressor.decompressFrom, bind_eq_bind,
      bind_eq_some_iff, Prod.exists, Option.some.injEq, Prod.mk.injEq] at hall
    obtain ⟨v, d₂, hvalue, _, _, ⟨-, rfl⟩, -, rfl⟩ := hall
    exact ⟨v, hvalue⟩
  | p :: front, k, d, d₁, d', values, decoded, hfront, hall => by
    simp only [cons_append, Compressor.decompressFrom, bind_eq_bind,
      bind_eq_some_iff, Prod.exists, Option.some.injEq, Prod.mk.injEq] at hfront hall
    obtain ⟨v, d₂, hvalue, vs, _, hrest, -, rfl⟩ := hfront
    obtain ⟨_, _, hvalue', vs', _, hrest', -, rfl⟩ := hall
    rw [hvalue] at hvalue'
    cases hvalue'
    rw [length_cons, ← Nat.add_assoc, Nat.add_right_comm]
    exact decompressFrom_snoc front (k + 1) d₂ _ _ vs vs' hrest hrest'

theorem cpack_compressFrom_entries :
    ∀ (chunks : List (Word 4)) (d d' : Dict 4) (comp comp' : CompData 4),
      (cpack dictionarySize).compressFrom d comp chunks = some (comp', d') →
      ∃ kept, comp'.entries = comp.entries ++ kept
  | [], d, d', comp, comp', h => by
    cases h
    exact ⟨[], by simp⟩
  | value :: chunks, d, d', comp, comp', h => by
    simp only [Compressor.compressFrom, bind_eq_bind, bind_eq_some_iff,
      Prod.exists] at h
    obtain ⟨pattern, d₁, -, hrest⟩ := h
    obtain ⟨kept, hkept⟩ := cpack_compressFrom_entries chunks d₁ d' _ comp' hrest
    exact ⟨pattern :: kept, by simp [hkept, cpack, CompData.add]⟩

/-- The words of the line: 257 of their own, the repeated one, zeros. -/
theorem map_farWord_range {words : Nat} (h : 258 ≤ words) : (range words).map farWord =
      (range 257).map farWord ++ farWord 257 :: replicate (words - 258) 0 := by
  obtain ⟨r, rfl⟩ := Nat.exists_eq_add_of_le h
  have hzeros : ((range r).map (258 + ·)).map farWord = replicate r 0 := by
    rw [map_map, eq_replicate_iff]
    refine ⟨by simp, fun w hw => ?_⟩
    obtain ⟨i, -, rfl⟩ := mem_map.mp hw
    have h1 : ¬ 258 + i < 257 := by omega
    have h2 : ¬ 258 + i = 257 := by omega
    simp only [Function.comp_apply, farWord, if_neg h1, if_neg h2]
  rw [range_add, range_succ (n := 257), map_append, hzeros, map_append,
    append_assoc, Nat.add_sub_cancel_left, map_cons, map_nil,
    singleton_append]

theorem cpack_not_lossless {blkSize : Nat} (hblk : 1032 ≤ blkSize) (hroom : 258 ≤ dictionarySize) :
    ¬ Lossless (cpack dictionarySize) blkSize := by
  intro hl
  obtain ⟨comp, d, hfront, hseen⟩ := Seen.compress_front dictionarySize (Nat.le_refl 257) (by omega)
  obtain ⟨d', hvalue, hencoded⟩ := hseen.compress_far hroom
  obtain ⟨comp', d'', hzeros, -⟩ := compressFrom_replicate (P := fun _ => True) (fun d _ => by
      obtain ⟨pattern, hpattern⟩ := cpack_zero dictionarySize d
      exact ⟨pattern, d, hpattern, trivial⟩)
    (blkSize / 4 - 258) d' ((cpack dictionarySize).addEntry comp farPattern) trivial
  have hchunks : toChunks 4 blkSize farLine =
      (range 257).map farWord ++ farWord 257 :: replicate (blkSize / 4 - 258) 0 := by
    rw [toChunks_farLine, map_farWord_range (by omega)]
  have hcompress : (cpack dictionarySize).compress blkSize farLine = some comp' := by
    have hfrom : (cpack dictionarySize).compressFrom (zeroDict 4 dictionarySize) {}
        (toChunks 4 blkSize farLine) = some (comp', d'') := by
      rw [hchunks, compressFrom_append, hfront]
      simp only [bind_some, Compressor.compressFrom, hvalue, bind_eq_bind, hzeros]
    rw [Compressor.compress, compressChunks_eq_some.mpr ⟨_, rfl, hfrom⟩]
    rfl
  -- 257 words decode well; they leave the encoder's dictionary
  have hsound : (cpack dictionarySize).Sound allocates (Grown dictionarySize) 257 :=
    cpack_sound (.inl (Nat.le_refl 257))
  obtain ⟨-, kept, hkept, hlength, hdecode⟩ :=
    hsound.decompressFrom_compressFrom _ 0 _ _ comp d (grown_zeroDict dictionarySize) (by simp)
      hfront
  have hlen : kept.length = 257 := by simpa using hlength
  obtain ⟨rest, hrest⟩ := cpack_compressFrom_entries _ _ _ _ _ hzeros
  have hentries : comp'.entries.take 258 = kept ++ [farPattern] := by
    rw [hrest]
    show take 258 ((comp.entries ++ [farPattern]) ++ rest) = _
    rw [hkept, nil_append]
    exact take_left' (by simp [hlen])
  have htake : (toChunks 4 blkSize farLine).take 258 =
      (range 257).map farWord ++ [farWord 257] := by
    rw [hchunks, ← singleton_append, ← append_assoc]
    exact take_left' (by simp)
  -- the next one does not
  obtain ⟨part, decoded, d₂, hpart, hdecoded⟩ :=
    (hl farLine comp' hcompress).2 (fun _ _ => toDictionaryEntry 0) 258 (by
      rw [toChunks_length]
      omega)
  obtain ⟨_, hreset, hpart⟩ := compressChunks_eq_some.mp hpart
  cases hreset
  rw [htake, compressFrom_append, hfront] at hpart
  simp only [bind_some, Compressor.compressFrom, hvalue, bind_eq_bind,
    Option.some.injEq, Prod.mk.injEq] at hpart
  obtain ⟨-, rfl⟩ := hpart
  rw [hentries, decompressEntries_of_reset rfl] at hdecoded
  obtain ⟨v, hfar⟩ := decompressFrom_snoc kept 0 _ d d' _ decoded (hdecode _) hdecoded
  have hwrong := hseen.decompress_far hfar
  rw [hencoded, farWord_257, Option.some.injEq] at hwrong
  have hequal : farWord 256 = farWord 0 := by
    rw [← fromDictionaryEntry_toDictionaryEntry (farWord 256), hwrong,
      fromDictionaryEntry_toDictionaryEntry]
  exact absurd (farWord_inj (by omega) (by omega) hequal) (by omega)

end Far

/-! ## The result -/

/-- Without room for the zero base the assertion of the reset fails. -/
theorem baseDelta_compress_none (n DeltaSizeBits blkSize : Nat) (data : Mem) :
    (baseDelta n DeltaSizeBits 0).compress blkSize data = none := rfl

theorem Scheme.lossless_of_restorable (s : Scheme) {blkSize : Nat} (h : s.Restorable blkSize) :
    Lossless s.compressor blkSize := by
  cases s with
  | cpack dictionarySize =>
    obtain ⟨hblk, hfar⟩ := h
    exact (cpack_sound (by omega)).lossless (by decide) hblk (Nat.le_refl _)
  | fpc zeroRunSizeBits => exact (fpc_sound zeroRunSizeBits _).lossless (by decide) h (Nat.le_refl _)
  | fpcd => exact (fpcd_sound _).lossless (by decide) h (Nat.le_refl _)
  | repeatedQwords dictionarySize =>
    exact (repeatedQwords_sound dictionarySize _).lossless (by decide) h (Nat.le_refl _)
  | baseDelta n DeltaSizeBits dictionarySize hn hdelta =>
    rcases h with hblk | rfl
    · exact (baseDelta_sound n DeltaSizeBits dictionarySize _).lossless hn hblk (Nat.le_refl _)
    · intro data comp hcomp
      rw [show (Scheme.baseDelta n DeltaSizeBits 0 hn hdelta).compressor.compress blkSize data = none
        from baseDelta_compress_none n DeltaSizeBits blkSize data] at hcomp
      cases hcomp

/-- A line of zeros is compressed, whatever its length. -/
theorem compress_zero {n : Nat} {c : Compressor n} {P : Dict n → Prop} {d₀ : Dict n}
    (hreset : c.resetDictionary = some d₀) (h₀ : P d₀)
    (hstep : ∀ d, P d → ∃ pattern d', c.compressValue d 0 = some (pattern, d') ∧ P d')
    (hfinish : ∀ blkSize d comp, ∃ comp', c.finish blkSize d comp = some comp') (blkSize : Nat) :
    ∃ comp, c.compress blkSize (fun _ => 0) = some comp := by
  obtain ⟨comp, d, hfrom, -⟩ := compressFrom_replicate hstep (blkSize * 8 / (8 * n)) d₀ {} h₀
  obtain ⟨comp', hcomp'⟩ := hfinish blkSize d comp
  refine ⟨comp', ?_⟩
  rw [Compressor.compress, toChunks_zero, compressChunks_eq_some.mpr ⟨d₀, hreset, hfrom⟩]
  exact hcomp'

theorem Scheme.compress_zero_of_not_dvd (s : Scheme) {blkSize : Nat}
    (hdvd : s.chunkBytes ∣ blkSize) (hblk : ¬ 8 ∣ blkSize)
    (hbase : ∀ n D d hn hd, s = .baseDelta n D d hn hd → d ≠ 0) :
    ∃ comp, s.compressor.compress blkSize (fun _ => 0) = some comp := by
  cases s with
  | cpack dictionarySize =>
    exact compress_zero (P := fun _ => True) rfl trivial (fun d _ => by
      obtain ⟨pattern, hpattern⟩ := cpack_zero dictionarySize d
      exact ⟨pattern, d, hpattern, trivial⟩) (fun _ _ comp => ⟨comp, rfl⟩) blkSize
  | fpc zeroRunSizeBits =>
    exact compress_zero (P := fun _ => True) rfl trivial (fun d _ => by
      obtain ⟨pattern, hpattern⟩ := fpc_zero zeroRunSizeBits d
      exact ⟨pattern, d, hpattern, trivial⟩) (fun _ _ comp => ⟨comp, rfl⟩) blkSize
  | fpcd =>
    exact compress_zero (P := fun _ => True) rfl trivial (fun d _ => by
      obtain ⟨pattern, d', hpattern⟩ := fpcd_compressValue d 0
      exact ⟨pattern, d', hpattern, trivial⟩) (fun _ _ comp => ⟨comp, rfl⟩) blkSize
  | repeatedQwords dictionarySize => exact absurd hdvd hblk
  | baseDelta n DeltaSizeBits dictionarySize hn hdelta =>
    have hroom : 0 < dictionarySize := Nat.pos_of_ne_zero (hbase _ _ _ _ _ rfl)
    have hreset : (zeroDict n dictionarySize).push dictionarySize (toDictionaryEntry 0) =
        some ⟨(zeroDict n dictionarySize).dictionary.set 0 (toDictionaryEntry 0), 1⟩ :=
      push_eq_some.mpr ⟨hroom, rfl⟩
    refine compress_zero (P := ZeroBase) (c := Dictionary.baseDelta n DeltaSizeBits dictionarySize)
      hreset ⟨rfl, ?_⟩ (fun d hd => ?_) (fun _ _ _ => ⟨_, rfl⟩) blkSize
    · exact getElem?_set_self (by simpa [zeroDict] using hroom)
    · obtain ⟨pattern, hpattern⟩ := baseDelta_zero (Nat.le_of_dvd (by omega) hn) hdelta d hd
      exact ⟨pattern, d, hpattern, hd⟩

/-- Dictionary compression is lossless exactly where it can be undone. -/
theorem lossless_iff (s : Scheme) (blkSize : Nat) (hdvd : s.chunkBytes ∣ blkSize) :
    Lossless s.compressor blkSize ↔ s.Restorable blkSize := by
  refine ⟨fun hl => ?_, s.lossless_of_restorable⟩
  have hwhole : (∀ n D d hn hd, s = .baseDelta n D d hn hd → d ≠ 0) → 8 ∣ blkSize := by
    intro hbase
    by_contra hblk
    obtain ⟨comp, hcomp⟩ := s.compress_zero_of_not_dvd hdvd hblk hbase
    exact not_lossless_of_not_dvd hblk hcomp hl
  cases s with
  | cpack dictionarySize =>
    have hblk := hwhole (by simp)
    refine ⟨hblk, ?_⟩
    by_contra hfar
    exact cpack_not_lossless (by omega) (by omega) hl
  | fpc _ => exact hwhole (by simp)
  | fpcd => exact hwhole (by simp)
  | repeatedQwords _ => exact hwhole (by simp)
  | baseDelta n DeltaSizeBits dictionarySize hn hdelta =>
    by_cases hzero : dictionarySize = 0
    · exact .inr hzero
    · refine .inl (hwhole fun _ _ _ _ _ heq => ?_)
      cases heq
      exact hzero

/-- A 64-byte line of `CPack`. -/
theorem lossless_cpack_64 : Lossless (Scheme.cpack 64).compressor 64 :=
  (lossless_iff (.cpack 64) 64 (by decide)).mpr ⟨by decide, .inl (by decide)⟩

/-- A 2048-byte line with the dictionary the configuration gives it. -/
theorem not_lossless_cpack_2048 : ¬ Lossless (Scheme.cpack 2048).compressor 2048 :=
  cpack_not_lossless (by decide) (by decide)

end Gem5Dvr.Dictionary
