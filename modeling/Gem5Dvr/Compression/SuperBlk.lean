/-
  Superblocks of the compressed cache (`mem/cache/tags/super_blk.cc`, `sector_blk.cc`,
  `compressed_tags.cc`, and the allocation of `mem/cache/base.cc` 1734-1804).

  A superblock holds up to `n` neighbouring blocks under one tag, in the space of ONE uncompressed
  block.  Its compression factor is set by the block that comes first: the space is cut into that
  many parts, and a further block is co-allocated when it fits a part and a part is free.

  1. **Program** — a cache of superblocks.  An insertion is `findVictim`, the evictions it asks for,
     `insertBlock` and `setSizeBits`; which superblocks an address may live in, and which of them the
     replacement policy gives up, are data of the event.

  2. **Specification** — `Fits`: the compressed sizes of the valid blocks add up to at most the block,
     and when there are several each fits a part and there are parts enough.

  3. **The crux (`Inv`)** — the counter counts the valid blocks, and several valid blocks fit.  A
     co-allocation checks the NEW block against the parts; that the block already there fits one is
     checked nowhere, and it need not: the factor is rounded UP to a power of two.
-/
import Gem5Dvr.Lib.Trace
import Gem5Dvr.Lib.Fold
import Mathlib.Data.BitVec
import Mathlib.Algebra.Order.BigOperators.Group.Finset
import Mathlib.Data.Fin.VecNotation

namespace Gem5Dvr.Compressed

open List Function

/-! ## The program -/

/-- `CompressionBlk`, as far as allocation reads it. -/
structure Blk where
  valid : Bool := false
  size : Nat := 0
  compressed : Bool := false
  deriving DecidableEq, Repr

/-- `SuperBlk`; `validCounter` is `_validCounter` of `SectorBlk`. -/
structure SuperBlk (n : Nat) where
  tag : BitVec 64 := BitVec.allOnes 64
  secure : Bool := false
  blks : Fin n → Blk := fun _ => {}
  validCounter : Nat := 0
  compressionFactor : Nat := 1

/-- `alignToPowerOfTwo` of `base/bitfield.hh`. -/
def alignToPowerOfTwo (val : BitVec 64) : BitVec 64 :=
  let val := val - 1
  let val := val ||| val >>> 1
  let val := val ||| val >>> 2
  let val := val ||| val >>> 4
  let val := val ||| val >>> 8
  let val := val ||| val >>> 16
  let val := val ||| val >>> 32
  val + 1

/-- The bits of an uncompressed block. -/
def blkSizeBits (blkSize : Nat) : Nat := 8 * blkSize

/-- The quotient of two numbers far below 2^53 has the same floor as a `double`. -/
def calculateCompressionFactor (blkSize n : Nat) (size : Nat) : Nat :=
  let blk_size_bits := blkSizeBits blkSize
  let compression_factor :=
    if blk_size_bits < size then 1
    else if size = 0 then blk_size_bits
    else (alignToPowerOfTwo (BitVec.ofNat 64 (blk_size_bits / size))).toNat
  min compression_factor n % 256

namespace SuperBlk

variable {n : Nat}

/-- A block of it is valid. -/
def isValid (sb : SuperBlk n) : Bool := 0 < sb.validCounter

/-- It has the tag, and its security. -/
def matchTag (sb : SuperBlk n) (tag : BitVec 64) (is_secure : Bool) : Bool :=
  sb.isValid && sb.tag == tag && sb.secure == is_secure

/-- A superblock without (other) valid blocks is seen as compressed. -/
def isCompressed (sb : SuperBlk n) (ignored_blk : Option (Fin n)) : Bool :=
  match (finRange n).find? fun k => (sb.blks k).valid && some k != ignored_blk with
  | some k => (sb.blks k).compressed
  | none => true

/-- A block of this size fits a part, and a part is free. -/
def canCoAllocate (blkSize : Nat) (sb : SuperBlk n) (compressed_size : Nat) : Bool :=
  decide (sb.validCounter < sb.compressionFactor) &&
    decide (compressed_size ≤ blkSizeBits blkSize / sb.compressionFactor)

/-- A superblock of one block, or none, takes the factor. -/
def setCompressionFactor (sb : SuperBlk n) (compression_factor : Nat) : SuperBlk n :=
  if sb.validCounter ≤ 1 then { sb with compressionFactor := compression_factor } else sb

/-- One block changed. -/
def setBlk (sb : SuperBlk n) (k : Fin n) (blk : Blk) : SuperBlk n :=
  { sb with blks := update sb.blks k blk }

/-- `CompressionBlk::setSizeBits`. -/
def setSizeBits (blkSize : Nat) (sb : SuperBlk n) (k : Fin n) (size : Nat) : SuperBlk n :=
  let compression_factor := calculateCompressionFactor blkSize n size
  let sb := sb.setCompressionFactor compression_factor
  let compressed :=
    if sb.validCounter = 1 then compression_factor != 1 else sb.isCompressed (some k)
  sb.setBlk k { sb.blks k with size := size, compressed := compressed }

/-- `SectorSubBlk::insert` and `setValid`: the first block brings the tag. -/
def insertBlk (sb : SuperBlk n) (k : Fin n) (tag : BitVec 64) (is_secure : Bool) : SuperBlk n :=
  let sb := if sb.isValid then sb else { sb with tag := tag, secure := is_secure }
  { sb.setBlk k { sb.blks k with valid := true } with validCounter := sb.validCounter + 1 }

/-- `CompressionBlk::invalidate` of a valid block; the last one takes the tag and the factor with
    it. -/
def invalidateBlk (sb : SuperBlk n) (k : Fin n) : SuperBlk n :=
  let sb := { sb.setBlk k { sb.blks k with valid := false, compressed := false } with
    validCounter := sb.validCounter - 1 }
  if sb.validCounter = 0 then
    { sb with tag := BitVec.allOnes 64, secure := false, compressionFactor := 1 }
  else sb

/-- The evictions of a replacement. -/
def evictAll (sb : SuperBlk n) : SuperBlk n :=
  (finRange n).foldl (fun sb k => if (sb.blks k).valid then sb.invalidateBlk k else sb) sb

end SuperBlk

/-- The superblocks of a cache. -/
abbrev Tags (m n : Nat) := Fin m → SuperBlk n

/-- A block to insert: where its superblock may live, its tag and place there, its compressed size,
    and what the replacement policy would give up. -/
structure Insertion (m n : Nat) where
  entries : List (Fin m)
  tag : BitVec 64
  is_secure : Bool
  offset : Fin n
  compressed_size : Nat
  getVictim : Fin m

/-- The superblock to co-allocate in, as `findVictim` looks for it. -/
def coAllocation {m n : Nat} (blkSize : Nat) (tags : Tags m n) (r : Insertion m n) :
    Option (Fin m) :=
  r.entries.find? fun i =>
    (tags i).matchTag r.tag r.is_secure && !((tags i).blks r.offset).valid &&
      (tags i).isCompressed none && (tags i).canCoAllocate blkSize r.compressed_size

/-- `allocateBlock`, its evictions being possible. -/
def allocateBlock {m n : Nat} (blkSize : Nat) (tags : Tags m n) (r : Insertion m n) : Tags m n :=
  let fill (sb : SuperBlk n) : SuperBlk n :=
    (sb.insertBlk r.offset r.tag r.is_secure).setSizeBits blkSize r.offset r.compressed_size
  match coAllocation blkSize tags r with
  | some i => update tags i (fill (tags i))
  | none => update tags r.getVictim (fill (tags r.getVictim).evictAll)

/-- What happens to the cache. -/
inductive Event (m n : Nat)
  | insert (r : Insertion m n)
  | invalidate (superblock : Fin m) (offset : Fin n)

/-- An event on the tags. -/
def step {m n : Nat} (blkSize : Nat) (tags : Tags m n) : Event m n → Tags m n
  | .insert r => allocateBlock blkSize tags r
  | .invalidate i k =>
      if ((tags i).blks k).valid then update tags i ((tags i).invalidateBlk k) else tags

/-! ## Fitting -/

section fitting

variable {n : Nat}

/-- The valid blocks. -/
def validBlks (sb : SuperBlk n) : Finset (Fin n) := Finset.univ.filter fun k => (sb.blks k).valid

/-- The valid blocks share the space of one block; several of them keep to their parts. -/
def Fits (blkSize : Nat) (sb : SuperBlk n) : Prop :=
  ∑ k ∈ validBlks sb, (sb.blks k).size ≤ blkSizeBits blkSize ∧ (1 < (validBlks sb).card →
      (∀ k ∈ validBlks sb, (sb.blks k).size ≤ blkSizeBits blkSize / sb.compressionFactor) ∧
        (validBlks sb).card ≤ sb.compressionFactor)

instance (blkSize : Nat) (sb : SuperBlk n) : Decidable (Fits blkSize sb) :=
  inferInstanceAs (Decidable (_ ∧ (_ → _)))

/-- What every superblock keeps, under the guard. -/
structure Inv (blkSize : Nat) (sb : SuperBlk n) : Prop where
  counter : sb.validCounter = (validBlks sb).card
  size_le : ∀ k ∈ validBlks sb, (sb.blks k).size ≤ blkSizeBits blkSize
  parts : 1 < (validBlks sb).card →
    (∀ k ∈ validBlks sb, (sb.blks k).size ≤ blkSizeBits blkSize / sb.compressionFactor) ∧
      (validBlks sb).card ≤ sb.compressionFactor

variable {blkSize : Nat} {sb : SuperBlk n}

theorem mem_validBlks {k : Fin n} : k ∈ validBlks sb ↔ (sb.blks k).valid = true := by
  simp [validBlks]

/-- Parts times their number is at most the block. -/
theorem Inv.fits (h : Inv blkSize sb) : Fits blkSize sb := by
  refine ⟨?_, h.parts⟩
  by_cases hmany : 1 < (validBlks sb).card
  · obtain ⟨hpart, hcard⟩ := h.parts hmany
    calc ∑ k ∈ validBlks sb, (sb.blks k).size
        ≤ (validBlks sb).card • (blkSizeBits blkSize / sb.compressionFactor) :=
          Finset.sum_le_card_nsmul _ _ _ hpart
      _ ≤ sb.compressionFactor * (blkSizeBits blkSize / sb.compressionFactor) := by
          exact Nat.mul_le_mul_right _ hcard
      _ ≤ blkSizeBits blkSize := Nat.mul_div_le _ _
  · rcases Nat.lt_or_ge (validBlks sb).card 1 with h0 | h1
    · have hempty : validBlks sb = ∅ := Finset.card_eq_zero.mp (by omega)
      rw [hempty, Finset.sum_empty]
      exact Nat.zero_le _
    · obtain ⟨k, hk⟩ := Finset.card_eq_one.mp (show (validBlks sb).card = 1 by omega)
      rw [hk, Finset.sum_singleton]
      exact h.size_le k (by rw [hk]; exact Finset.mem_singleton_self k)

/-- An invalidation takes one block out. -/
theorem validBlks_invalidate (k : Fin n) :
    validBlks (sb.invalidateBlk k) = (validBlks sb).erase k := by
  ext j
  rw [mem_validBlks, Finset.mem_erase, mem_validBlks]
  unfold SuperBlk.invalidateBlk SuperBlk.setBlk
  by_cases hj : j = k
  · subst hj
    simp only
    split_ifs <;> simp
  · simp only
    split_ifs <;> simp [hj]

theorem size_invalidate (k j : Fin n) : ((sb.invalidateBlk k).blks j).size = (sb.blks j).size := by
  unfold SuperBlk.invalidateBlk SuperBlk.setBlk
  by_cases hj : j = k
  · subst hj
    simp only
    split_ifs <;> simp
  · simp only
    split_ifs <;> simp [hj]

theorem Inv.invalidate (h : Inv blkSize sb) {k : Fin n} (hk : (sb.blks k).valid = true) :
    Inv blkSize (sb.invalidateBlk k) := by
  have hmem : k ∈ validBlks sb := mem_validBlks.mpr hk
  have hcard := Finset.card_erase_of_mem hmem
  have hcounter : (sb.invalidateBlk k).validCounter = sb.validCounter - 1 := by
    unfold SuperBlk.invalidateBlk
    simp only
    split_ifs with h0
    · rfl
    · rfl
  have hold := h.counter
  refine ⟨?_, ?_, ?_⟩
  · rw [hcounter, validBlks_invalidate, hcard, hold]
  · intro j hj
    rw [validBlks_invalidate] at hj
    rw [size_invalidate]
    exact h.size_le j (Finset.mem_of_mem_erase hj)
  · rw [validBlks_invalidate]
    intro hmany
    have hfactor : (sb.invalidateBlk k).compressionFactor = sb.compressionFactor := by
      unfold SuperBlk.invalidateBlk
      rw [if_neg (by simp only [hold]; omega)]
      rfl
    obtain ⟨hpart, hle⟩ := h.parts (by omega)
    rw [hfactor]
    refine ⟨?_, by omega⟩
    intro j hj
    rw [size_invalidate]
    exact hpart j (Finset.mem_of_mem_erase hj)

/-- After its evictions a superblock is empty. -/
theorem Inv.evictAll (h : Inv blkSize sb) :
    Inv blkSize sb.evictAll ∧ validBlks sb.evictAll = ∅ := by
  have hloop := Fold.foldl_prefix (b := sb) (P := fun (pre : List (Fin n)) (s : SuperBlk n) =>
      Inv blkSize s ∧ ∀ k ∈ pre, (s.blks k).valid = false)
    (f := fun s k => if (s.blks k).valid then s.invalidateBlk k else s)
    ⟨h, by simp⟩ (by
      rintro pre k s - ⟨hs, hpre⟩
      by_cases hk : (s.blks k).valid = true
      · rw [if_pos hk]
        refine ⟨hs.invalidate hk, ?_⟩
        intro j hj
        have hnot : j ∉ validBlks (s.invalidateBlk k) := by
          rw [validBlks_invalidate, Finset.mem_erase]
          rintro ⟨hne, hmem⟩
          rcases mem_append.mp hj with hj | hj
          · rw [mem_validBlks, hpre j hj] at hmem
            cases hmem
          · exact hne (mem_singleton.mp hj)
        rw [mem_validBlks] at hnot
        simpa using hnot
      · rw [if_neg hk]
        refine ⟨hs, ?_⟩
        intro j hj
        rcases mem_append.mp hj with hj | hj
        · exact hpre j hj
        · rw [mem_singleton.mp hj]
          simpa using hk) (nodup_finRange n)
  refine ⟨hloop.1, ?_⟩
  apply Finset.eq_empty_of_forall_notMem
  intro k hk
  have hfalse := hloop.2 k (mem_finRange k)
  rw [mem_validBlks] at hk
  exact absurd hk (by rw [SuperBlk.evictAll]; simp [hfalse])

/-! ### Filling a place -/

/-- A block put in a place of a superblock. -/
def fill (blkSize : Nat) (sb : SuperBlk n) (k : Fin n) (tag : BitVec 64) (is_secure : Bool)
    (size : Nat) : SuperBlk n :=
  (sb.insertBlk k tag is_secure).setSizeBits blkSize k size

section fill

variable (k : Fin n) (tag : BitVec 64) (is_secure : Bool) (size : Nat)

theorem insertBlk_blks (j : Fin n) : (sb.insertBlk k tag is_secure).blks j
    = if j = k then { sb.blks k with valid := true } else sb.blks j := by
  unfold SuperBlk.insertBlk SuperBlk.setBlk
  by_cases hj : j = k
  · subst hj
    cases sb.isValid <;> simp
  · cases sb.isValid <;> simp [hj]

theorem insertBlk_counter : (sb.insertBlk k tag is_secure).validCounter = sb.validCounter + 1 := by
  unfold SuperBlk.insertBlk
  cases sb.isValid <;> rfl

theorem insertBlk_factor :
    (sb.insertBlk k tag is_secure).compressionFactor = sb.compressionFactor := by
  unfold SuperBlk.insertBlk
  cases sb.isValid <;> rfl

theorem setCompressionFactor_frame (sb : SuperBlk n) (f : Nat) :
    (sb.setCompressionFactor f).blks = sb.blks ∧
      (sb.setCompressionFactor f).validCounter = sb.validCounter := by
  unfold SuperBlk.setCompressionFactor
  split_ifs
  · exact ⟨rfl, rfl⟩
  · exact ⟨rfl, rfl⟩

theorem fill_blks (j : Fin n) :
    ((fill blkSize sb k tag is_secure size).blks j).valid = (decide (j = k) || (sb.blks j).valid) ∧
      ((fill blkSize sb k tag is_secure size).blks j).size
        = if j = k then size else (sb.blks j).size := by
  unfold fill SuperBlk.setSizeBits SuperBlk.setBlk
  have hframe := setCompressionFactor_frame (sb.insertBlk k tag is_secure)
    (calculateCompressionFactor blkSize n size)
  simp only [hframe.1]
  by_cases hj : j = k
  · subst hj
    simp [insertBlk_blks]
  · simp [hj, insertBlk_blks]

theorem fill_counter :
    (fill blkSize sb k tag is_secure size).validCounter = sb.validCounter + 1 := by
  have hframe := setCompressionFactor_frame (sb.insertBlk k tag is_secure)
    (calculateCompressionFactor blkSize n size)
  show ((sb.insertBlk k tag is_secure).setCompressionFactor _).validCounter = _
  rw [hframe.2, insertBlk_counter]

/-- A block that is not alone leaves the factor as it was. -/
theorem fill_factor (hpos : 0 < sb.validCounter) :
    (fill blkSize sb k tag is_secure size).compressionFactor = sb.compressionFactor := by
  show ((sb.insertBlk k tag is_secure).setCompressionFactor _).compressionFactor = _
  rw [SuperBlk.setCompressionFactor, insertBlk_counter, if_neg (by omega), insertBlk_factor]

theorem validBlks_fill : validBlks (fill blkSize sb k tag is_secure size)
    = insert k (validBlks sb) := by
  ext j
  rw [mem_validBlks, (fill_blks k tag is_secure size j).1, Finset.mem_insert, mem_validBlks]
  simp

/-- A block alone. -/
theorem Inv.fill_empty (h : Inv blkSize sb) (hempty : validBlks sb = ∅)
    (hsize : size ≤ blkSizeBits blkSize) : Inv blkSize (fill blkSize sb k tag is_secure size) := by
  have hone : validBlks (fill blkSize sb k tag is_secure size) = {k} := by
    rw [validBlks_fill, hempty]
    rfl
  refine ⟨?_, ?_, ?_⟩
  · rw [fill_counter, hone, h.counter, hempty]
    rfl
  · intro j hj
    rw [hone, Finset.mem_singleton] at hj
    rw [(fill_blks k tag is_secure size j).2, if_pos hj]
    exact hsize
  · rw [hone, Finset.card_singleton]
    intro hmany
    omega

/-- A block next to others that keep to their parts. -/
theorem Inv.fill_next (h : Inv blkSize sb) (hk : k ∉ validBlks sb) (hpos : 0 < sb.validCounter)
    (hroom : sb.validCounter < sb.compressionFactor)
    (hsize : size ≤ blkSizeBits blkSize / sb.compressionFactor)
    (hothers : ∀ j ∈ validBlks sb, (sb.blks j).size ≤ blkSizeBits blkSize / sb.compressionFactor) :
    Inv blkSize (fill blkSize sb k tag is_secure size) := by
  have hcard := Finset.card_insert_of_notMem hk
  have hcounter := h.counter
  have hall : ∀ j ∈ validBlks (fill blkSize sb k tag is_secure size),
      ((fill blkSize sb k tag is_secure size).blks j).size
        ≤ blkSizeBits blkSize / sb.compressionFactor := by
    intro j hj
    rw [validBlks_fill, Finset.mem_insert] at hj
    rw [(fill_blks k tag is_secure size j).2]
    split_ifs with heq
    · exact hsize
    · exact hothers j (hj.resolve_left heq)
  refine ⟨?_, ?_, ?_⟩
  · rw [fill_counter, validBlks_fill, hcard, hcounter]
  · intro j hj
    exact Nat.le_trans (hall j hj) (Nat.div_le_self _ _)
  · intro _
    rw [fill_factor k tag is_secure size hpos]
    refine ⟨hall, ?_⟩
    rw [validBlks_fill, hcard]
    omega

end fill

end fitting

/-! ## Runs -/

section runs

variable {m n : Nat} {blkSize : Nat}

/-- The replacement policy picks one of the candidates, and the compressor's size is that of a block
    at most. -/
def legal (blkSize : Nat) : Event m n → Prop
  | .insert r => r.getVictim ∈ r.entries ∧ 1 ≤ r.compressed_size ∧
      r.compressed_size ≤ blkSizeBits blkSize
  | .invalidate _ _ => True

instance (blkSize : Nat) : (e : Event m n) → Decidable (legal blkSize e)
  | .insert _ => inferInstanceAs (Decidable (_ ∧ _))
  | .invalidate _ _ => inferInstanceAs (Decidable True)

/-- A block that is co-allocated next to a single one finds it within its part. -/
def guard (blkSize : Nat) (tags : Tags m n) : Event m n → Prop
  | .insert r => ∀ i, coAllocation blkSize tags r = some i → (validBlks (tags i)).card = 1 →
      ∀ k ∈ validBlks (tags i),
        ((tags i).blks k).size ≤ blkSizeBits blkSize / (tags i).compressionFactor
  | .invalidate _ _ => True

theorem allocateBlock_eq (tags : Tags m n) (r : Insertion m n) :
    allocateBlock blkSize tags r = match coAllocation blkSize tags r with
      | some i => update tags i (fill blkSize (tags i) r.offset r.tag r.is_secure r.compressed_size)
      | none => update tags r.getVictim
          (fill blkSize (tags r.getVictim).evictAll r.offset r.tag r.is_secure r.compressed_size) :=
  rfl

/-- What `findVictim` has checked of the superblock it co-allocates in. -/
theorem coAllocation_some {tags : Tags m n} {r : Insertion m n} {i : Fin m}
    (h : coAllocation blkSize tags r = some i) :
    0 < (tags i).validCounter ∧ r.offset ∉ validBlks (tags i) ∧
      (tags i).validCounter < (tags i).compressionFactor ∧
      r.compressed_size ≤ blkSizeBits blkSize / (tags i).compressionFactor := by
  have hfound := find?_some h
  simp only [SuperBlk.matchTag, SuperBlk.isValid, SuperBlk.canCoAllocate, Bool.and_eq_true,
    decide_eq_true_eq, Bool.not_eq_true'] at hfound
  obtain ⟨⟨⟨⟨⟨hvalid, -⟩, -⟩, hplace⟩, -⟩, hroom, hsize⟩ := hfound
  refine ⟨hvalid, ?_, hroom, hsize⟩
  rw [mem_validBlks, hplace]
  simp

theorem forall_update {P : SuperBlk n → Prop} {tags : Tags m n} (h : ∀ i, P (tags i)) (i : Fin m)
    {sb : SuperBlk n} (hsb : P sb) (j : Fin m) : P (update tags i sb j) := by
  by_cases hj : j = i
  · subst hj
    rw [update_self]
    exact hsb
  · rw [update_of_ne hj]
    exact h j

theorem inv_step {tags : Tags m n} {e : Event m n} (h : ∀ i, Inv blkSize (tags i))
    (hlegal : legal blkSize e) (hguard : guard blkSize tags e) :
    ∀ i, Inv blkSize (step blkSize tags e i) := by
  cases e with
  | invalidate i k =>
    simp only [step]
    split_ifs with hk
    · exact forall_update h i ((h i).invalidate hk)
    · exact h
  | insert r =>
    obtain ⟨-, -, hsize⟩ := hlegal
    simp only [step, allocateBlock_eq]
    cases hco : coAllocation blkSize tags r with
    | none =>
      obtain ⟨hinv, hempty⟩ := (h r.getVictim).evictAll
      exact forall_update h r.getVictim (hinv.fill_empty _ _ _ _ hempty hsize)
    | some i =>
      obtain ⟨hpos, hplace, hroom, hfit⟩ := coAllocation_some hco
      refine forall_update h i ((h i).fill_next _ _ _ _ hplace hpos hroom hfit ?_)
      -- a single block is what the guard is about; several were checked when they came
      have hcounter := (h i).counter
      by_cases hone : (validBlks (tags i)).card = 1
      · exact hguard i hco hone
      · exact ((h i).parts (by omega)).1

/-- A step against the guard is a state that does not fit. -/
theorem guard_necessary {tags : Tags m n} {e : Event m n}
    (hguard : ¬ guard blkSize tags e) : ¬ ∀ i, Fits blkSize (step blkSize tags e i) := by
  intro hfits
  apply hguard
  cases e with
  | invalidate i k => trivial
  | insert r =>
    intro i hco hone k hk
    obtain ⟨hpos, hplace, -, -⟩ := coAllocation_some hco
    have hi := hfits i
    simp only [step, allocateBlock_eq, hco, update_self] at hi
    have hne : k ≠ r.offset := fun heq => hplace (heq ▸ hk)
    have hmany : 1 < (validBlks (fill blkSize (tags i) r.offset r.tag r.is_secure
        r.compressed_size)).card := by
      rw [validBlks_fill, Finset.card_insert_of_notMem hplace]
      omega
    have hpart := (hi.2 hmany).1 k (by
      rw [validBlks_fill]
      exact Finset.mem_insert_of_mem hk)
    rw [(fill_blks _ _ _ _ k).2, if_neg hne, fill_factor _ _ _ _ hpos] at hpart
    exact hpart

/-- An empty cache. -/
def emptyTags (m n : Nat) : Tags m n := fun _ => {}

theorem inv_empty : ∀ i, Inv blkSize (emptyTags m n i) := by
  intro i
  have hempty : validBlks (emptyTags m n i) = ∅ := by
    apply Finset.eq_empty_of_forall_notMem
    intro k hk
    rw [mem_validBlks] at hk
    cases hk
  refine ⟨?_, ?_, ?_⟩
  · rw [hempty]
    rfl
  · rw [hempty]
    intro k hk
    cases hk
  · rw [hempty]
    intro hmany
    cases hmany

/-- The blocks of every superblock fit after every step of a run just when the run never puts a
    block next to a single one that is larger than its part. -/
theorem coAllocated_fit_iff (es : List (Event m n)) (hlegal : ∀ e ∈ es, legal blkSize e) :
    (∀ pre, pre <+: es → ∀ i, Fits blkSize (pre.foldl (step blkSize) (emptyTags m n) i)) ↔
      Trace.Admits (guard blkSize) (step blkSize) (emptyTags m n) es :=
  Trace.admits_iff_prefix (fun tags : Tags m n => ∀ i, Inv blkSize (tags i))
    (fun tags : Tags m n => ∀ i, Fits blkSize (tags i)) (legal blkSize)
    (fun _ _ h hl hg => inv_step h hl hg) (fun _ h i => (h i).fits)
    (fun _ _ _ _ hg => guard_necessary hg) inv_empty hlegal

end runs

/-! ## One superblock of four blocks of 64 bytes -/

/-- The blocks of one superblock, in order, with their compressed sizes. -/
def fillInOrder (sizes : Fin 4 → Nat) : List (Event 1 4) :=
  (finRange 4).map fun k => .insert ⟨[0], 0x40, false, k, sizes k, 0⟩

/-- A block of 170 bits is the third part of 512 bits; its factor is rounded up to four, and three
    blocks of 128 bits are put next to it. -/
theorem coAllocated_overflow : (∀ e ∈ fillInOrder ![170, 128, 128, 128], legal 64 e) ∧
      (let tags := (fillInOrder ![170, 128, 128, 128]).foldl (step 64) (emptyTags 1 4)
       ∑ k ∈ validBlks (tags 0), ((tags 0).blks k).size = 554 ∧ (tags 0).compressionFactor = 4 ∧
         blkSizeBits 64 = 512) ∧
      ¬ ∀ pre, pre <+: fillInOrder ![170, 128, 128, 128] →
        ∀ i, Fits 64 (pre.foldl (step 64) (emptyTags 1 4) i) := by
  refine ⟨by decide, by decide, ?_⟩
  intro h
  have hall := h _ (prefix_refl _) 0
  revert hall
  decide

/-- Four blocks of a quarter at most. -/
theorem coAllocated_fit_quarters : (∀ e ∈ fillInOrder ![128, 100, 128, 1], legal 64 e) ∧
      ((∀ pre, pre <+: fillInOrder ![128, 100, 128, 1] →
          ∀ i, Fits 64 (pre.foldl (step 64) (emptyTags 1 4) i)) ↔
        Trace.Admits (guard 64) (step 64) (emptyTags 1 4) (fillInOrder ![128, 100, 128, 1])) :=
  ⟨by decide, coAllocated_fit_iff _ (by decide)⟩

end Gem5Dvr.Compressed
