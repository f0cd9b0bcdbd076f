/-
  The dictionary compressors (`mem/cache/compressors/dictionary_compressor.hh` and
  `dictionary_compressor_impl.hh`): what `CPack`, `FPC`, `FPCD`, `RepeatedQwords` and `BaseDelta`
  share.

  A line is cut into words.  Each word becomes the smallest PATTERN that matches it, alone or
  against an entry of a dictionary that grows with the words already seen; decompression turns the
  patterns back into words and grows a dictionary of its own.

  1. **Program** — words and entries, the pattern classes, the factory, `compressValue`,
     `decompressValue`, and the loops over a line.

  2. **Specification** — `Lossless`: the line comes back BIT FOR BIT, and after every word the two
     dictionaries are the same.

  3. **The crux (`decompressFrom_compressFrom`)** — a pattern either rebuilds its word from itself,
     or from the entry it was matched against.  In the second case the decoder has to FIND that
     entry, and it looks for it with the low 8 bits of the index.
-/
import Mathlib.Data.BitVec
import Mathlib.Data.List.Basic
import Mathlib.Tactic.Common
import Mathlib.Tactic.Ring

namespace Gem5Dvr.Dictionary

open List
open BitVec (allOnes eq_of_getLsbD_eq getLsbD_and getLsbD_not getLsbD_of_ge getLsbD_or
  getLsbD_setWidth getLsbD_shiftLeft)
open Option (bind_eq_bind bind_eq_some_iff getD_some)

/-! ## Words and dictionary entries -/

/-- The type `T` of a compressor, `n` bytes wide. -/
abbrev Word (n : Nat) := BitVec (8 * n)

/-- `DictionaryEntry`: the bytes of a word, the least significant first. -/
abbrev Entry (n : Nat) := Fin n → BitVec 8

/-- `n` bytes at memory that ends after `n` bytes. -/
def byteAt {n : Nat} (entry : Entry n) (i : Nat) : BitVec 8 :=
  if h : i < n then entry ⟨i, h⟩ else 0

/-- A word as its bytes, the lowest first. -/
def toDictionaryEntry {n : Nat} (value : Word n) : Entry n :=
  fun i => (value >>> (8 * i.val)).setWidth 8

/-- The loop of `fromDictionaryEntry`, from the last byte down, after `m` rounds. -/
def joinBytes {n : Nat} (entry : Entry n) : Nat → Word n
  | 0 => 0
  | m + 1 => joinBytes entry m <<< 8 ||| (byteAt entry (n - 1 - m)).setWidth (8 * n)

/-- The word of the bytes. -/
def fromDictionaryEntry {n : Nat} (entry : Entry n) : Word n := joinBytes entry n

/-! ## `base/bitfield.hh` -/

/-- Ones in the lowest bits. -/
def mask (nbits : Nat) : BitVec 64 :=
  if 64 ≤ nbits then allOnes 64 else (1#64 <<< nbits) - 1

/-- `sext<N>`: the bits above the sign are set, and kept where it is clear. -/
def sext (N : Nat) (val : BitVec 64) : BitVec 64 :=
  if val.getLsbD (N - 1) then val ||| ~~~mask N else val

/-- `szext<N>`. -/
def szext (N : Nat) (val : BitVec 64) : BitVec 64 :=
  if val.getLsbD (N - 1) then val ||| ~~~mask N else val &&& mask N

/-- The bits that are set. -/
def popCount {w : Nat} (val : BitVec w) : Nat := (range w).countP fun i => val.getLsbD i

/-! ## Patterns -/

/-- What a pattern keeps of its word. -/
inductive Payload (n : Nat) where
  /-- `UncompressedPattern` and `DeltaPattern`, which keeps the whole word too. -/
  | copy (data : Entry n)
  /-- `MaskedPattern` and `LocatedMaskedPattern`. -/
  | masked (mask bits : Word n)
  | maskedValue (value mask bits : Word n)
  /-- `FPC::ZeroRun`, a `MaskedValuePattern<0, 0xFFFFFFFF>` with a length and a size of its own. -/
  | zeroRun (bits : Word n) (runLength realSize : Nat)
  | repeated (size : Nat) (value : BitVec (8 * size))
  | signExtended (N : Nat) (bits : BitVec N)
  /-- `FPC::SignExtendedTwoHalfwords`. -/
  | twoHalfwords (byte0 byte1 : BitVec 8)

/-- A pattern that was chosen for a word. -/
structure Pattern (n : Nat) where
  patternNumber : Nat
  code : Nat
  length : Nat
  numUnmatchedBits : Nat
  matchLocation : Int
  allocate : Bool
  payload : Payload n

section Patterns

variable {n : Nat}

/-- `MaskedPattern::decompress`. -/
def unmask (mask bits : Word n) (dict_bytes : Entry n) : Entry n :=
  toDictionaryEntry (bits ||| (fromDictionaryEntry dict_bytes &&& mask))

/-- The loop of `RepeatedValuePattern::decompress` after `k` rounds. -/
def repeatValue {size : Nat} (value : BitVec (8 * size)) : Nat → Word n
  | 0 => 0
  | k + 1 => repeatValue value k <<< (8 * size) ||| value.setWidth (8 * n)

/-- `(uint16_t)szext<8>` of an `int8_t`. -/
def extendByte (byte : BitVec 8) : BitVec 16 := (szext 8 (byte.signExtend 64)).setWidth 16

/-- What each class puts back for its dictionary entry. -/
def Payload.decompress (dict_bytes : Entry n) : Payload n → Entry n
  | .copy data => data
  | .masked mask bits => unmask mask bits dict_bytes
  | .maskedValue value mask bits => unmask mask bits (toDictionaryEntry value)
  | .zeroRun bits _ _ => unmask (allOnes _) bits (toDictionaryEntry 0)
  | .repeated size value => toDictionaryEntry (repeatValue value (n / size))
  | .signExtended N bits => toDictionaryEntry ((sext N (bits.setWidth 64)).setWidth (8 * n))
  | .twoHalfwords byte0 byte1 =>
    toDictionaryEntry
      (((extendByte byte1).setWidth (8 * n) <<< 16) ||| (extendByte byte0).setWidth (8 * n))

/-- The bytes that the pattern stands for. -/
def Pattern.decompress (pattern : Pattern n) (dict_bytes : Entry n) : Entry n :=
  pattern.payload.decompress dict_bytes

/-- A `uint8_t`, whatever the location. -/
def Pattern.getMatchLocation (pattern : Pattern n) : Nat := (pattern.matchLocation % 256).toNat

/-- The bits of the pattern: its code and its data. -/
def Pattern.getSizeBits (pattern : Pattern n) : Nat :=
  match pattern.payload with
  | .zeroRun _ _ realSize => realSize
  | _ => pattern.numUnmatchedBits + pattern.length

/-- A class of patterns: when a word is of it, and the pattern of such a word. -/
structure PatternClass (n : Nat) where
  isPattern : Entry n → Entry n → Int → Bool
  make : Entry n → Int → Pattern n

/-- The constructor of `UncompressedPattern`. -/
def uncompressedPattern (number code metadata_length : Nat) (match_location : Int)
    (bytes : Entry n) : Pattern n :=
  ⟨number, code, metadata_length, n * 8, match_location, true, .copy bytes⟩

/-- The constructor of `MaskedPattern<mask>`. -/
def maskedPattern (mask : Word n) (number code metadata_length : Nat) (match_location : Int)
    (bytes : Entry n) (allocate : Bool) : Pattern n :=
  ⟨number, code, metadata_length, popCount (~~~mask), match_location, allocate,
    .masked mask (fromDictionaryEntry bytes &&& ~~~mask)⟩

/-- Its `isPattern`: a dictionary entry has the masked bits. -/
def isMasked (mask : Word n) (bytes dict_bytes : Entry n) (match_location : Int) : Bool :=
  decide (0 ≤ match_location) &&
    (fromDictionaryEntry bytes &&& mask == fromDictionaryEntry dict_bytes &&& mask)

/-- The constructor of `MaskedValuePattern<value, mask>`. -/
def maskedValuePattern (value mask : Word n) (number code metadata_length : Nat)
    (match_location : Int) (bytes : Entry n) (allocate : Bool) : Pattern n :=
  ⟨number, code, metadata_length, popCount (~~~mask), match_location, allocate,
    .maskedValue value mask (fromDictionaryEntry bytes &&& ~~~mask)⟩

/-- Its `isPattern`: the value has the masked bits. -/
def isMaskedValue (value mask : Word n) (bytes : Entry n) : Bool :=
  value &&& mask == fromDictionaryEntry bytes &&& mask

/-- `isPattern` of `LocatedMaskedPattern`: the entry is at the location. -/
def isLocatedMasked (mask : Word n) (location : Int) (bytes dict_bytes : Entry n)
    (match_location : Int) : Bool :=
  match_location == location && isMasked mask bytes dict_bytes match_location

/-- The constructor of `RepeatedValuePattern`. -/
def repeatedValuePattern (size number code metadata_length : Nat) (match_location : Int)
    (bytes : Entry n) (allocate : Bool) : Pattern n :=
  ⟨number, code, metadata_length, 8 * size, match_location, allocate,
    .repeated size ((fromDictionaryEntry bytes).setWidth (8 * size))⟩

/-- Its `isPattern`: every value is the first. -/
def isRepeatedValue (size : Nat) (bytes : Entry n) : Bool :=
  let bytes_value := fromDictionaryEntry bytes
  (range (n / size)).all fun i =>
    (bytes_value >>> (8 * size * i)).setWidth (8 * size) == bytes_value.setWidth (8 * size)

/-- The constructor of `DeltaPattern<DeltaSizeBits>`. -/
def deltaPattern (DeltaSizeBits number code metadata_length : Nat) (match_location : Int)
    (bytes : Entry n) : Pattern n :=
  ⟨number, code, metadata_length, DeltaSizeBits, match_location, false, .copy bytes⟩

/-- The difference fits the bits, as a signed number. -/
def isValidDelta (DeltaSizeBits : Nat) (bytes base_bytes : Entry n) : Bool :=
  let limit : Int :=
    if DeltaSizeBits = 0 then 0 else ((mask (DeltaSizeBits - 1)).setWidth (8 * n)).toInt
  let delta := (fromDictionaryEntry bytes - fromDictionaryEntry base_bytes).toInt
  decide (-limit ≤ delta) && decide (delta ≤ limit)

/-- `isPattern` of `DeltaPattern`. -/
def isDelta (DeltaSizeBits : Nat) (bytes dict_bytes : Entry n) (match_location : Int) : Bool :=
  decide (0 ≤ match_location) && isValidDelta DeltaSizeBits bytes dict_bytes

/-- The constructor of `SignExtendedPattern<N>`. -/
def signExtendedPattern (N number code metadata_length : Nat) (bytes : Entry n)
    (allocate : Bool) : Pattern n :=
  ⟨number, code, metadata_length, N, -1, allocate,
    .signExtended N (((fromDictionaryEntry bytes).setWidth 64 &&& mask N).setWidth N)⟩

/-- Its `isPattern`: the word is its low bits, sign-extended. -/
def isSignExtended (N : Nat) (bytes : Entry n) : Bool :=
  let data := fromDictionaryEntry bytes
  data == (szext N (data.setWidth 64)).setWidth (8 * n)

end Patterns

/-! ## The compressor -/

/-- The dictionary with its number of valid entries. -/
structure Dict (n : Nat) where
  dictionary : List (Entry n)
  numEntries : Nat

/-- The patterns of a line, and their bits. -/
structure CompData (n : Nat) where
  entries : List (Pattern n) := []
  sizeBits : Nat := 0

/-- What a compressor brings: the list of its factory and the class that ends it, and the virtual
    functions.  `none` is a failed assertion. -/
structure Compressor (n : Nat) where
  patterns : List (PatternClass n)
  uncompressed : PatternClass n
  dictionarySize : Nat
  addToDictionary : Dict n → Entry n → Option (Dict n)
  resetDictionary : Option (Dict n)
  addEntry : CompData n → Pattern n → CompData n
  /-- What `compress` of the subclass does with the result. -/
  finish : Nat → Dict n → CompData n → Option (CompData n)

section Program

variable {n : Nat}

/-- The dictionary as `resetDictionary` of the base class leaves it. -/
def zeroDict (n dictionarySize : Nat) : Dict n :=
  ⟨replicate dictionarySize (toDictionaryEntry 0), 0⟩

/-- `assert(numEntries < dictionarySize); dictionary[numEntries++] = data`. -/
def Dict.push (dictionarySize : Nat) (d : Dict n) (data : Entry n) : Option (Dict n) :=
  if d.numEntries < dictionarySize then
    some ⟨d.dictionary.set d.numEntries data, d.numEntries + 1⟩
  else none

/-- `CompData::addEntry`. -/
def CompData.add (comp : CompData n) (pattern : Pattern n) : CompData n :=
  ⟨comp.entries ++ [pattern], comp.sizeBits + pattern.getSizeBits⟩

namespace Compressor

variable (c : Compressor n)

/-- `Factory::getPattern`: the first class the word is of. -/
def getPattern (bytes dict_bytes : Entry n) (match_location : Int) : Pattern n :=
  match c.patterns.find? fun p => p.isPattern bytes dict_bytes match_location with
  | some p => p.make bytes match_location
  | none => c.uncompressed.make bytes match_location

/-- One round of the search through the dictionary. -/
def better (d : Dict n) (bytes : Entry n) (pattern : Pattern n) (i : Nat) : Pattern n :=
  let temp_pattern := c.getPattern bytes (d.dictionary[i]?.getD (toDictionaryEntry 0)) i
  if temp_pattern.getSizeBits < pattern.getSizeBits then temp_pattern else pattern

/-- The smallest pattern of a word. -/
def bestPattern (d : Dict n) (bytes : Entry n) : Pattern n :=
  (range d.numEntries).foldl (c.better d bytes) (c.getPattern bytes (toDictionaryEntry 0) (-1))

/-- The word enters the dictionary where the pattern says so. -/
def allocate (d : Dict n) (pattern : Pattern n) (data : Entry n) : Option (Dict n) :=
  if pattern.allocate then c.addToDictionary d data else some d

/-- One word: its best pattern, which may enter the dictionary. -/
def compressValue (d : Dict n) (data : Word n) : Option (Pattern n × Dict n) :=
  let bytes := toDictionaryEntry data
  let pattern := c.bestPattern d bytes
  (c.allocate d pattern bytes).map fun d => (pattern, d)

/-- The loop of `compress`. -/
def compressFrom : Dict n → CompData n → List (Word n) → Option (CompData n × Dict n)
  | d, comp, [] => some (comp, d)
  | d, comp, value :: chunks => do
    let (pattern, d) ← c.compressValue d value
    compressFrom d (c.addEntry comp pattern) chunks

/-- The words of a line, from a fresh dictionary. -/
def compressChunks (chunks : List (Word n)) : Option (CompData n × Dict n) := do
  let d ← c.resetDictionary
  c.compressFrom d {} chunks

/-- A location past the end of the dictionary reads what stands there. -/
def decompressValue (garbage : Nat → Entry n) (d : Dict n) (pattern : Pattern n) :
    Option (Word n × Dict n) :=
  let location := pattern.getMatchLocation
  let data := pattern.decompress (d.dictionary[location]?.getD (garbage location))
  (c.allocate d pattern data).map fun d => (fromDictionaryEntry data, d)

/-- The loop of `decompress`; `garbage k` is the memory past the dictionary at round `k`. -/
def decompressFrom (garbage : Nat → Nat → Entry n) :
    Nat → Dict n → List (Pattern n) → Option (List (Word n) × Dict n)
  | _, d, [] => some ([], d)
  | k, d, pattern :: entries => do
    let (value, d) ← c.decompressValue (garbage k) d pattern
    let (decomp_values, d) ← decompressFrom garbage (k + 1) d entries
    some (value :: decomp_values, d)

/-- The patterns of a line, from a fresh dictionary. -/
def decompressEntries (garbage : Nat → Nat → Entry n) (entries : List (Pattern n)) :
    Option (List (Word n) × Dict n) := do
  let d ← c.resetDictionary
  c.decompressFrom garbage 0 d entries

end Compressor

/-- A `uint64_t*`. -/
abbrev Mem := Nat → BitVec 64

/-- The words of a line. -/
def toChunks (n blkSize : Nat) (data : Mem) : List (Word n) :=
  let num_chunks_per_64 := 64 / (8 * n)
  (range (blkSize * 8 / (8 * n))).map fun i =>
    (data (i / num_chunks_per_64) >>> (i % num_chunks_per_64 * (8 * n))).setWidth (8 * n)

/-- The 64-bit value of the words `f 0`, `f 1`, …, the last one first. -/
def joinWords (f : Nat → Word n) (values_per_entry : Nat) : BitVec 64 :=
  (range values_per_entry).foldr (fun j data => data ||| (f j).setWidth 64 <<< (j * 8 * n)) 0

/-- The concatenation at the end of `decompress`, into a buffer. -/
def fromValues (blkSize : Nat) (decomp_values : List (Word n)) (data : Mem) : Mem := fun i =>
    if i < blkSize / 8 then
      joinWords (fun j => (decomp_values[8 / n * i + j]?).getD 0) (8 / n)
    else data i

namespace Compressor

variable (c : Compressor n)

/-- A line: its words, then what the compressor does of its own. -/
def compress (blkSize : Nat) (data : Mem) : Option (CompData n) := do
  let (comp, d) ← c.compressChunks (toChunks n blkSize data)
  c.finish blkSize d comp

/-- The line that the patterns stand for. -/
def decompress (garbage : Nat → Nat → Entry n) (blkSize : Nat) (comp : CompData n) (data : Mem) :
    Option Mem := do
  let (decomp_values, _) ← c.decompressEntries garbage comp.entries
  some (fromValues blkSize decomp_values data)

end Compressor

end Program

/-! ## Specification -/

/-- Bit `i` of the memory at `data`. -/
def bitAt (data : Mem) (i : Nat) : Bool := (data (i / 64)).getLsbD (i % 64)

section Spec

variable {n : Nat}

/-- The line comes back bit for bit. -/
def Restores (c : Compressor n) (blkSize : Nat) (data : Mem) (comp : CompData n) : Prop :=
  ∀ garbage buffer, ∃ result, c.decompress garbage blkSize comp buffer = some result ∧
    ∀ i < 8 * blkSize, bitAt result i = bitAt data i

/-- After every word the dictionary of the decoder is that of the encoder. -/
def InStep (c : Compressor n) (blkSize : Nat) (data : Mem) (comp : CompData n) : Prop :=
  ∀ garbage k, k ≤ (toChunks n blkSize data).length → ∃ part decoded d,
    c.compressChunks ((toChunks n blkSize data).take k) = some (part, d) ∧
      c.decompressEntries garbage (comp.entries.take k) = some (decoded, d)

/-- Every line that is compressed comes back, and the dictionaries agree. -/
def Lossless (c : Compressor n) (blkSize : Nat) : Prop :=
  ∀ data comp, c.compress blkSize data = some comp →
    Restores c blkSize data comp ∧ InStep c blkSize data comp

end Spec

/-! ## Bits -/

section Bits

variable {n : Nat}

theorem joinBytes_getLsbD (entry : Entry n) : ∀ m ≤ n, ∀ j < 8 * n, (joinBytes entry m).getLsbD j =
      (decide (j < 8 * m) && (byteAt entry (n - m + j / 8)).getLsbD (j % 8))
  | 0, _, j, hj => by simp [joinBytes]
  | m + 1, hm, j, hj => by
    have ih := joinBytes_getLsbD entry m (by omega)
    rw [joinBytes, getLsbD_or, getLsbD_shiftLeft, getLsbD_setWidth]
    by_cases hlow : j < 8
    · have hdiv : j / 8 = 0 := by omega
      have hmod : j % 8 = j := by omega
      have hidx : n - (m + 1) + 0 = n - 1 - m := by omega
      simp [hlow, hj, hdiv, hmod, hidx, show j < 8 * (m + 1) by omega]
    · have hhigh : (byteAt entry (n - 1 - m)).getLsbD j = false :=
        getLsbD_of_ge _ _ (by omega)
      have hdiv : n - (m + 1) + j / 8 = n - m + (j - 8) / 8 := by omega
      have hmod : (j - 8) % 8 = j % 8 := by omega
      rw [ih (j - 8) (by omega), hhigh, hdiv, hmod]
      simp only [hj, hlow, decide_true, decide_false, Bool.not_false, Bool.true_and, Bool.and_false,
        Bool.or_false]
      congr 1
      exact decide_eq_decide.mpr (by omega)

theorem fromDictionaryEntry_getLsbD (entry : Entry n) {j : Nat} (hj : j < 8 * n) :
    (fromDictionaryEntry entry).getLsbD j = (byteAt entry (j / 8)).getLsbD (j % 8) := by
  rw [fromDictionaryEntry, joinBytes_getLsbD entry n (Nat.le_refl n) j hj]
  simp [hj]

@[simp] theorem toDictionaryEntry_fromDictionaryEntry (entry : Entry n) :
    toDictionaryEntry (fromDictionaryEntry entry) = entry := by
  funext i
  apply eq_of_getLsbD_eq
  intro j hj
  have hbit : 8 * i.val + j < 8 * n := by have := i.isLt; omega
  rw [toDictionaryEntry, getLsbD_setWidth, BitVec.getLsbD_ushiftRight,
    fromDictionaryEntry_getLsbD entry hbit]
  have hdiv : (8 * i.val + j) / 8 = i.val := by omega
  have hmod : (8 * i.val + j) % 8 = j := by omega
  simp [hj, hdiv, hmod, byteAt]

@[simp] theorem fromDictionaryEntry_toDictionaryEntry (value : Word n) :
    fromDictionaryEntry (toDictionaryEntry value) = value := by
  apply eq_of_getLsbD_eq
  intro j hj
  have hbyte : j / 8 < n := by omega
  have hsum : 8 * (j / 8) + j % 8 = j := by omega
  have hmod : j % 8 < 8 := by omega
  rw [fromDictionaryEntry_getLsbD _ hj]
  simp [byteAt, hbyte, toDictionaryEntry, hmod, hsum]

theorem mask_getLsbD (N : Nat) {j : Nat} (hj : j < 64) : (mask N).getLsbD j = decide (j < N) := by
  unfold mask
  split_ifs with hN
  · rw [BitVec.getLsbD_allOnes]
    simp [hj, show j < N by omega]
  · have hpow : 2 ^ N < 2 ^ 64 := Nat.pow_lt_pow_right (by omega) (by omega)
    have hpos : 0 < 2 ^ N := Nat.pow_pos (by omega)
    have hshift : (1#64 <<< N).toNat = 2 ^ N := by
      rw [BitVec.toNat_shiftLeft, Nat.shiftLeft_eq, BitVec.toNat_ofNat, Nat.one_mod, Nat.one_mul,
        Nat.mod_eq_of_lt hpow]
    have htoNat : ((1#64 <<< N) - 1).toNat = 2 ^ N - 1 := by
      rw [BitVec.toNat_sub_of_le, hshift]
      · rfl
      · rw [BitVec.le_def, hshift]
        exact hpos
    rw [← BitVec.testBit_toNat, htoNat, Nat.testBit_two_pow_sub_one]

/-- Extending what the field kept is extending the value. -/
theorem sext_and_mask {N : Nat} (hpos : 0 < N) (hN : N ≤ 64) (val : BitVec 64) :
    sext N (((val &&& mask N).setWidth N).setWidth 64) = szext N val := by
  have hkeep : ((val &&& mask N).setWidth N).setWidth 64 = val &&& mask N := by
    apply eq_of_getLsbD_eq
    intro j hj
    simp only [getLsbD_setWidth, getLsbD_and, mask_getLsbD N hj]
    by_cases hjN : j < N <;> simp [hj, hjN]
  have hsign : (val &&& mask N).getLsbD (N - 1) = val.getLsbD (N - 1) := by
    rw [getLsbD_and, mask_getLsbD N (by omega)]
    simp [show N - 1 < N by omega]
  rw [hkeep, sext, szext, hsign]
  split_ifs with hbit
  · apply eq_of_getLsbD_eq
    intro j hj
    simp only [getLsbD_or, getLsbD_and, getLsbD_not, mask_getLsbD N hj]
    by_cases hjN : j < N <;> simp [hj, hjN]
  · rfl

theorem repeatValue_getLsbD {size : Nat} (hsize : 0 < size) (value : BitVec (8 * size)) :
    ∀ k, ∀ j < 8 * n, (repeatValue value k : Word n).getLsbD j =
      (decide (j < 8 * size * k) && value.getLsbD (j % (8 * size)))
  | 0, j, _ => by simp [repeatValue]
  | k + 1, j, hj => by
    rw [repeatValue, getLsbD_or, getLsbD_shiftLeft, getLsbD_setWidth]
    have hgrow : 8 * size * (k + 1) = 8 * size * k + 8 * size := by ring
    by_cases hlow : j < 8 * size
    · simp [hlow, hj, Nat.mod_eq_of_lt hlow, show j < 8 * size * (k + 1) by omega]
    · have hhigh : value.getLsbD j = false := getLsbD_of_ge _ _ (by omega)
      rw [repeatValue_getLsbD hsize value k (j - 8 * size) (by omega), hhigh,
        ← Nat.mod_eq_sub_mod (by omega)]
      simp only [hj, hlow, decide_true, decide_false, Bool.not_false, Bool.true_and, Bool.and_false,
        Bool.or_false]
      congr 1
      exact decide_eq_decide.mpr (by omega)

theorem joinWords_getLsbD (f : Nat → Word n) (hn : 0 < n) (m : Nat) {t : Nat} (ht : t < 64) :
    (joinWords f m).getLsbD t =
      (decide (t < 8 * n * m) && (f (t / (8 * n))).getLsbD (t % (8 * n))) := by
  suffices h : ∀ (m : Nat) (acc : BitVec 64),
      ((range m).foldr (fun j data => data ||| (f j).setWidth 64 <<< (j * 8 * n)) acc).getLsbD t
        = (acc.getLsbD t || (decide (t < 8 * n * m) && (f (t / (8 * n))).getLsbD (t % (8 * n)))) by
    rw [joinWords, h]
    simp
  intro m
  induction m with
  | zero => intro acc; simp
  | succ m ih =>
    intro acc
    have hshift : m * 8 * n = 8 * n * m := by ring
    have hgrow : 8 * n * (m + 1) = 8 * n * m + 8 * n := by ring
    rw [range_succ, foldr_append, foldr_cons, foldr_nil, ih,
      getLsbD_or, getLsbD_shiftLeft, getLsbD_setWidth, hshift, hgrow]
    by_cases hlow : t < 8 * n * m
    · simp [ht, hlow, show t < 8 * n * m + 8 * n by omega]
    · by_cases hthis : t < 8 * n * m + 8 * n
      · have hdiv : t / (8 * n) = m :=
          Nat.div_eq_of_lt_le (by rw [Nat.mul_comm]; omega) (by rw [Nat.mul_comm, hgrow]; omega)
        have hmod : t % (8 * n) = t - 8 * n * m := by
          have := Nat.div_add_mod t (8 * n)
          rw [hdiv] at this
          omega
        have hsmall : t - 8 * n * m < 64 := by omega
        simp [ht, hlow, hthis, hdiv, hmod, hsmall]
      · have hhigh : (f m).getLsbD (t - 8 * n * m) = false := getLsbD_of_ge _ _ (by omega)
        simp [ht, hlow, hthis, hhigh]

end Bits

/-! ## A pattern gives its word back -/

section Sound

variable {n : Nat}

/-- The pattern rebuilds its word from itself. -/
def Pattern.Free (pattern : Pattern n) (bytes : Entry n) : Prop :=
  ∀ dict_bytes, pattern.decompress dict_bytes = bytes

/-- A pattern of the class is free, or stands for its word at the location it was matched at; `near`
    is what is known of the second kind. -/
def PatternClass.Sound (near : Int → Pattern n → Prop) (p : PatternClass n) : Prop :=
  ∀ bytes dict_bytes match_location, p.isPattern bytes dict_bytes match_location = true →
    (p.make bytes match_location).Free bytes ∨
      0 ≤ match_location ∧ (p.make bytes match_location).matchLocation = match_location ∧
        (p.make bytes match_location).decompress dict_bytes = bytes ∧
        near match_location (p.make bytes match_location)

/-- The bits kept and the bits matched make up the word. -/
theorem unmask_eq {mask : Word n} {bytes dict_bytes : Entry n}
    (h : fromDictionaryEntry bytes &&& mask = fromDictionaryEntry dict_bytes &&& mask) :
    unmask mask (fromDictionaryEntry bytes &&& ~~~mask) dict_bytes = bytes := by
  have hword : fromDictionaryEntry bytes &&& ~~~mask ||| fromDictionaryEntry dict_bytes &&& mask =
      fromDictionaryEntry bytes := by
    rw [← h]
    apply eq_of_getLsbD_eq
    intro j hj
    simp only [getLsbD_or, getLsbD_and, getLsbD_not]
    cases mask.getLsbD j <;> simp [hj]
  rw [unmask, hword, toDictionaryEntry_fromDictionaryEntry]

theorem maskedPattern_decompress {mask : Word n} {bytes dict_bytes : Entry n} {loc : Int}
    (h : isMasked mask bytes dict_bytes loc = true) (number code metadata_length : Nat)
    (allocate : Bool) :
    (maskedPattern mask number code metadata_length loc bytes allocate).decompress dict_bytes =
      bytes := by
  simp only [isMasked, Bool.and_eq_true, beq_iff_eq] at h
  exact unmask_eq h.2

theorem maskedValuePattern_free {value mask : Word n} {bytes : Entry n}
    (h : isMaskedValue value mask bytes = true) (number code metadata_length : Nat) (loc : Int)
    (allocate : Bool) :
    (maskedValuePattern value mask number code metadata_length loc bytes allocate).Free bytes := by
  intro dict_bytes
  simp only [isMaskedValue, beq_iff_eq] at h
  exact unmask_eq (by rw [fromDictionaryEntry_toDictionaryEntry, h])

theorem repeatedValuePattern_free {size : Nat} {bytes : Entry n} (hpos : 0 < size) (hdvd : size ∣ n)
    (h : isRepeatedValue size bytes = true) (number code metadata_length : Nat) (loc : Int)
    (allocate : Bool) :
    (repeatedValuePattern size number code metadata_length loc bytes allocate).Free bytes := by
  intro dict_bytes
  obtain ⟨k, rfl⟩ := hdvd
  simp only [isRepeatedValue, all_eq_true, mem_range, beq_iff_eq,
    Nat.mul_div_cancel_left k hpos] at h
  have hword : repeatValue ((fromDictionaryEntry bytes).setWidth (8 * size)) k =
      fromDictionaryEntry bytes := by
    apply eq_of_getLsbD_eq
    intro j hj
    have hj' : j < 8 * size * k := by rwa [Nat.mul_assoc]
    have hdiv : j / (8 * size) < k := Nat.div_lt_of_lt_mul hj'
    have hmod : j % (8 * size) < 8 * size := Nat.mod_lt _ (by omega)
    have hbit := congrArg (fun w => w.getLsbD (j % (8 * size))) (h (j / (8 * size)) hdiv)
    simp only [getLsbD_setWidth, hmod, decide_true, Bool.true_and,
      BitVec.getLsbD_ushiftRight, Nat.div_add_mod] at hbit
    rw [repeatValue_getLsbD hpos _ k j hj, getLsbD_setWidth, ← hbit]
    simp [hj', hmod]
  show toDictionaryEntry (repeatValue _ (size * k / size)) = bytes
  rw [Nat.mul_div_cancel_left k hpos, hword, toDictionaryEntry_fromDictionaryEntry]

theorem signExtendedPattern_free {N : Nat} {bytes : Entry n} (hpos : 0 < N) (hN : N ≤ 64)
    (h : isSignExtended N bytes = true) (number code metadata_length : Nat) (allocate : Bool) :
    (signExtendedPattern N number code metadata_length bytes allocate).Free bytes := by
  intro dict_bytes
  simp only [isSignExtended, beq_iff_eq] at h
  show toDictionaryEntry ((sext N _).setWidth (8 * n)) = bytes
  rw [sext_and_mask hpos hN, ← h, toDictionaryEntry_fromDictionaryEntry]

end Sound

/-! ## Encoder and decoder in step -/

section Lockstep

variable {n : Nat}

/-- Two patterns that decode alike. -/
def Pattern.Same (p q : Pattern n) : Prop :=
  p.matchLocation = q.matchLocation ∧ p.allocate = q.allocate ∧ p.decompress = q.decompress

/-- What makes a compressor lossless on lines of `words` words; `Inv k` holds of the dictionary after
    `k` words. -/
structure Compressor.Sound (near : Int → Pattern n → Prop) (Inv : Nat → Dict n → Prop) (words : Nat)
    (c : Compressor n) : Prop where
  patterns : ∀ p ∈ c.patterns, p.Sound near
  uncompressed : ∀ bytes match_location, (c.uncompressed.make bytes match_location).Free bytes
  addEntry : ∀ comp pattern, ∃ kept, pattern.Same kept ∧
    (c.addEntry comp pattern).entries = comp.entries ++ [kept]
  finish : ∀ blkSize d comp comp', c.finish blkSize d comp = some comp' →
    comp'.entries = comp.entries
  reset : ∀ d, c.resetDictionary = some d → Inv 0 d
  step : ∀ k d pattern bytes d', Inv k d → c.allocate d pattern bytes = some d' → Inv (k + 1) d'
  inRange : ∀ k d, Inv k d → d.numEntries ≤ d.dictionary.length
  /-- An entry a word is matched against has an 8-bit index. -/
  indexed : ∀ k d pattern bytes d' (i : Nat), k < words → Inv k d →
    c.allocate d pattern bytes = some d' → i < d.numEntries → near i pattern → i < 256

variable {c : Compressor n} {near : Int → Pattern n → Prop} {Inv : Nat → Dict n → Prop} {words : Nat}

theorem Compressor.Sound.getPattern (hc : c.Sound near Inv words) (bytes dict_bytes : Entry n)
    (loc : Int) :
    (c.getPattern bytes dict_bytes loc).Free bytes ∨
      0 ≤ loc ∧ (c.getPattern bytes dict_bytes loc).matchLocation = loc ∧
        (c.getPattern bytes dict_bytes loc).decompress dict_bytes = bytes ∧
        near loc (c.getPattern bytes dict_bytes loc) := by
  unfold Compressor.getPattern
  cases hfind : c.patterns.find? fun p => p.isPattern bytes dict_bytes loc with
  | none => exact .inl (hc.uncompressed bytes loc)
  | some p =>
    have hp := find?_some hfind
    exact hc.patterns p (mem_of_find?_eq_some hfind) bytes dict_bytes loc hp

/-- The dictionary accounts for a pattern of `bytes`. -/
def Explains (near : Int → Pattern n → Prop) (d : Dict n) (bytes : Entry n) (pattern : Pattern n) :
    Prop :=
  pattern.Free bytes ∨ ∃ i < d.numEntries, pattern.matchLocation = i ∧
      pattern.decompress (d.dictionary[i]?.getD (toDictionaryEntry 0)) = bytes ∧ near i pattern

theorem Compressor.Sound.bestPattern (hc : c.Sound near Inv words) (d : Dict n) (bytes : Entry n) :
    Explains near d bytes (c.bestPattern d bytes) := by
  refine foldlRecOn (range d.numEntries) (c.better d bytes) ?_ ?_
  · rcases hc.getPattern bytes (toDictionaryEntry 0) (-1) with hfree | ⟨hneg, -⟩
    · exact .inl hfree
    · omega
  · intro pattern hpattern i hi
    unfold Compressor.better
    simp only
    split_ifs
    · rcases hc.getPattern bytes (d.dictionary[i]?.getD (toDictionaryEntry 0)) i with
        hfree | ⟨-, hloc, hword, hnear⟩
      · exact .inl hfree
      · exact .inr ⟨i, mem_range.mp hi, hloc, hword, hnear⟩
    · exact hpattern

/-- Decompression of one word: the word and the dictionary of the encoder. -/
theorem Compressor.Sound.decompressValue (hc : c.Sound near Inv words) {k : Nat} (hk : k < words)
    {d d' : Dict n} (hd : Inv k d) {data : Word n} {pattern kept : Pattern n}
    (h : c.compressValue d data = some (pattern, d')) (hsame : pattern.Same kept)
    (garbage : Nat → Entry n) : c.decompressValue garbage d kept = some (data, d') := by
  simp only [Compressor.compressValue, Option.map_eq_some_iff, Prod.mk.injEq] at h
  obtain ⟨d₁, halloc, rfl, rfl⟩ := h
  obtain ⟨hloc, hallocate, hdecompress⟩ := hsame
  have hword : kept.decompress
      (d.dictionary[kept.getMatchLocation]?.getD (garbage kept.getMatchLocation)) =
        toDictionaryEntry data := by
    rw [← hdecompress]
    rcases hc.bestPattern d (toDictionaryEntry data) with hfree | ⟨i, hi, hat, hdec, hnear⟩
    · exact hfree _
    · have hsmall := hc.indexed k d _ _ d₁ i hk hd halloc hi hnear
      have hindex : kept.getMatchLocation = i := by
        rw [Pattern.getMatchLocation, ← hloc, hat]
        omega
      have hrange : i < d.dictionary.length := Nat.lt_of_lt_of_le hi (hc.inRange k d hd)
      rw [hindex, getElem?_eq_getElem hrange, getD_some]
      rwa [getElem?_eq_getElem hrange, getD_some] at hdec
  have hgrow : c.allocate d kept (toDictionaryEntry data) = some d₁ := by
    rw [← halloc, Compressor.allocate, Compressor.allocate, hallocate]
  simp only [Compressor.decompressValue, hword, hgrow, Option.map_some,
    fromDictionaryEntry_toDictionaryEntry]

theorem Compressor.Sound.decompressFrom_compressFrom (hc : c.Sound near Inv words) :
    ∀ (chunks : List (Word n)) (k : Nat) (d : Dict n) (comp comp' : CompData n) (d' : Dict n),
      Inv k d → k + chunks.length ≤ words → c.compressFrom d comp chunks = some (comp', d') →
      Inv (k + chunks.length) d' ∧
        ∃ kept, comp'.entries = comp.entries ++ kept ∧ kept.length = chunks.length ∧
          ∀ garbage, c.decompressFrom garbage k d kept = some (chunks, d')
  | [], k, d, comp, comp', d', hd, _, h => by
    obtain ⟨rfl, rfl⟩ := h
    exact ⟨hd, [], by simp, rfl, fun _ => rfl⟩
  | value :: chunks, k, d, comp, comp', d', hd, hlen, h => by
    rw [length_cons] at hlen
    simp only [Compressor.compressFrom, bind_eq_bind, bind_eq_some_iff,
      Prod.exists] at h
    obtain ⟨pattern, d₁, hvalue, hrest⟩ := h
    obtain ⟨kept, hsame, hentries⟩ := hc.addEntry comp pattern
    have hd₁ : Inv (k + 1) d₁ := by
      simp only [Compressor.compressValue, Option.map_eq_some_iff, Prod.mk.injEq] at hvalue
      obtain ⟨_, halloc, -, rfl⟩ := hvalue
      exact hc.step k d _ _ _ hd halloc
    obtain ⟨hd', keptRest, happ, hlength, hdec⟩ :=
      hc.decompressFrom_compressFrom chunks (k + 1) d₁ _ comp' d' hd₁ (by omega) hrest
    refine ⟨?_, kept :: keptRest, ?_, by simp [hlength], fun garbage => ?_⟩
    · rwa [length_cons, ← Nat.add_assoc, Nat.add_right_comm]
    · rw [happ, hentries, append_assoc, singleton_append]
    · simp only [Compressor.decompressFrom, hc.decompressValue (by omega) hd hvalue hsame,
        bind_eq_bind, Option.bind_some, hdec]

theorem compressFrom_append (c : Compressor n) :
    ∀ (front back : List (Word n)) (d : Dict n) (comp : CompData n),
      c.compressFrom d comp (front ++ back) =
        (c.compressFrom d comp front).bind fun r => c.compressFrom r.2 r.1 back
  | [], _, _, _ => rfl
  | value :: front, back, d, comp => by
    simp only [cons_append, Compressor.compressFrom, bind_eq_bind, Option.bind_assoc]
    congr 1
    funext r
    exact compressFrom_append c front back r.2 _

theorem compressChunks_eq_some {chunks : List (Word n)} {comp : CompData n} {d : Dict n} :
    c.compressChunks chunks = some (comp, d) ↔
      ∃ d₀, c.resetDictionary = some d₀ ∧ c.compressFrom d₀ {} chunks = some (comp, d) := by
  simp [Compressor.compressChunks, bind_eq_some_iff]

theorem decompressEntries_of_reset {d₀ : Dict n} (h : c.resetDictionary = some d₀)
    (garbage : Nat → Nat → Entry n) (entries : List (Pattern n)) :
    c.decompressEntries garbage entries = c.decompressFrom garbage 0 d₀ entries := by
  simp [Compressor.decompressEntries, h]

/-! ## Whole lines -/

theorem toChunks_length (blkSize : Nat) (data : Mem) :
    (toChunks n blkSize data).length = blkSize / n := by
  rw [toChunks, length_map, length_range, Nat.mul_comm blkSize 8,
    Nat.mul_div_mul_left _ _ (by omega)]

/-- The words of a line, put together again. -/
theorem fromValues_toChunks (hn : n ∣ 8) {blkSize : Nat} (hblk : 8 ∣ blkSize) (data buffer : Mem)
    {i : Nat} (hi : i < 8 * blkSize) :
    bitAt (fromValues blkSize (toChunks n blkSize data) buffer) i = bitAt data i := by
  obtain ⟨m, hm⟩ := hn
  obtain ⟨q, rfl⟩ := hblk
  have hn0 : 0 < n := by
    rcases Nat.eq_zero_or_pos n with rfl | h
    · omega
    · exact h
  have hm0 : 0 < m := by
    rcases Nat.eq_zero_or_pos m with rfl | h
    · omega
    · exact h
  have hper : 64 / (8 * n) = m := by
    rw [show 64 = 8 * n * m by rw [Nat.mul_assoc, ← hm]]
    exact Nat.mul_div_cancel_left _ (by omega)
  have hvalues : 8 / n = m := by
    rw [hm]
    exact Nat.mul_div_cancel_left _ hn0
  have hqword : i / 64 < q := by omega
  have hcount : 8 * q * 8 / (8 * n) = m * q := by
    rw [show 8 * q * 8 = 8 * n * (m * q) by rw [Nat.mul_assoc 8 q 8, hm]; ring]
    exact Nat.mul_div_cancel_left _ (by omega)
  have hbit : i % 64 < 64 := Nat.mod_lt _ (by omega)
  have hword : i % 64 / (8 * n) < m := by
    refine Nat.div_lt_of_lt_mul ?_
    rw [Nat.mul_assoc, ← hm]
    exact hbit
  have hindex : m * (i / 64) + i % 64 / (8 * n) < m * q := by
    calc m * (i / 64) + i % 64 / (8 * n) < m * (i / 64) + m := by omega
      _ = m * (i / 64 + 1) := by ring
      _ ≤ m * q := Nat.mul_le_mul_left m hqword
  have hdiv : (m * (i / 64) + i % 64 / (8 * n)) / m = i / 64 := by
    rw [Nat.mul_add_div hm0, Nat.div_eq_of_lt hword, Nat.add_zero]
  have hmod : (m * (i / 64) + i % 64 / (8 * n)) % m = i % 64 / (8 * n) := by
    rw [Nat.mul_add_mod, Nat.mod_eq_of_lt hword]
  have hlast : i % 64 % (8 * n) < 8 * n := Nat.mod_lt _ (by omega)
  have hall : i % 64 < 8 * n * m := by
    rw [Nat.mul_assoc, ← hm]
    exact hbit
  have hsum : i % 64 / (8 * n) * (8 * n) + i % 64 % (8 * n) = i % 64 := by
    rw [Nat.mul_comm]
    exact Nat.div_add_mod _ _
  rw [bitAt, bitAt, fromValues, if_pos (by omega), joinWords_getLsbD _ hn0 _ hbit, hvalues]
  simp [toChunks, hper, hcount, hindex, hdiv, hmod, hall, hlast, hsum]

theorem Compressor.Sound.inStep (hc : c.Sound near Inv words) {blkSize : Nat} {data : Mem}
    (hwords : (toChunks n blkSize data).length ≤ words) {comp : CompData n}
    (h : c.compress blkSize data = some comp) : InStep c blkSize data comp := by
  intro garbage k hk
  simp only [Compressor.compress, bind_eq_bind, bind_eq_some_iff, Prod.exists] at h
  obtain ⟨comp₁, d₁, hchunks, hfinish⟩ := h
  obtain ⟨d₀, hreset, hfrom⟩ := compressChunks_eq_some.mp hchunks
  -- the run over the line passes through the run over its first `k` words
  rw [← take_append_drop k (toChunks n blkSize data), compressFrom_append,
    bind_eq_some_iff] at hfrom
  obtain ⟨⟨part, d⟩, hfront, hback⟩ := hfrom
  have hlength : ((toChunks n blkSize data).take k).length = k := by
    rw [length_take]
    omega
  obtain ⟨hd, kept, hentries, hkept, hdec⟩ :=
    hc.decompressFrom_compressFrom _ 0 d₀ {} part d (hc.reset d₀ hreset) (by omega) hfront
  obtain ⟨-, rest, hrest, -, -⟩ := hc.decompressFrom_compressFrom _ _ d part comp₁ d₁ hd
      (by rw [length_drop, length_take]; omega) hback
  have htake : comp.entries.take k = kept := by
    rw [hc.finish blkSize d₁ comp₁ comp hfinish, hrest, hentries, nil_append,
      take_append_of_le_length (by omega), take_of_length_le (by omega)]
  refine ⟨part, (toChunks n blkSize data).take k, d,
    compressChunks_eq_some.mpr ⟨d₀, hreset, hfront⟩, ?_⟩
  rw [htake, decompressEntries_of_reset hreset, hdec]

/-- A sound compressor gives every line of whole qwords back. -/
theorem Compressor.Sound.lossless (hc : c.Sound near Inv words) (hn : n ∣ 8) {blkSize : Nat}
    (hblk : 8 ∣ blkSize) (hwords : blkSize / n ≤ words) : Lossless c blkSize := by
  intro data comp h
  have hlength : (toChunks n blkSize data).length ≤ words := by
    rw [toChunks_length]
    exact hwords
  have hinStep := hc.inStep hlength h
  refine ⟨fun garbage buffer => ?_, hinStep⟩
  simp only [Compressor.compress, bind_eq_bind, bind_eq_some_iff, Prod.exists] at h
  obtain ⟨comp₁, d₁, hchunks, hfinish⟩ := h
  obtain ⟨d₀, hreset, hfrom⟩ := compressChunks_eq_some.mp hchunks
  obtain ⟨-, kept, hentries, -, hdec⟩ :=
    hc.decompressFrom_compressFrom _ 0 d₀ {} comp₁ d₁ (hc.reset d₀ hreset) (by omega) hfrom
  have hcomp : comp.entries = kept := by
    rw [hc.finish blkSize d₁ comp₁ comp hfinish, hentries, nil_append]
  refine ⟨fromValues blkSize (toChunks n blkSize data) buffer, ?_, fun i hi =>
    fromValues_toChunks hn hblk data buffer hi⟩
  rw [Compressor.decompress, hcomp, decompressEntries_of_reset hreset, hdec]
  rfl

end Lockstep

end Gem5Dvr.Dictionary
