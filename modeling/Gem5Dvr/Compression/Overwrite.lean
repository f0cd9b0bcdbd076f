/-
  Overwriting a block of a compressed cache (`mem/cache/base.cc` 1067-1213, 1436-1583, 1807-1894,
  `mem/cache/tags/super_blk.cc`, `compressed_tags.cc` 104-164, `sector_tags.cc` 219-262,
  `mem/cache/cache.cc` 949-957, `mem/cache/noncoherent_cache.cc` 343-362).

    1. **Program** — the superblocks of `SuperBlk`, with the coherence bits and the data of each
       block beside them.  `updateCompressionData` makes room for the new size: by evicting, by
       moving the block, or by giving up.  A failed assertion leaves no result.
    2. **Specification** — `Keeps`: the current data of the line written and of each line that was
       dirty has an owner; `FitsFactor`: a valid block is no larger than its part.
    3. **The crux** — giving up invalidates the block.  The packet is then passed on, and takes the
       data with it, but a WritebackClean is no owner: where the block was dirty its data is lost
       (`Drops`).  And a factor that was rounded up is too large for the size it was computed from
       (`Roomy`).  `overwrite_kept_iff` says that nothing else goes wrong.

  The indexing policy and the compressor are parameters.
-/
import Gem5Dvr.Compression.SuperBlk

namespace Gem5Dvr.Compressed.Overwrite

open List Function

open SuperBlk

scoped instance neZero2 : NeZero 2 := ⟨by decide⟩

/-! ## The program -/

/-- The superblocks an address may live in, and the address of one; a sector is the address without
    the offsets.  The last field is what the policies give: the entries of an address and its tag
    give the address back. -/
structure Indexing (m : Nat) where
  getPossibleEntries : Nat → List (Fin m)
  extractTag : Nat → BitVec 64
  regenerateAddr : BitVec 64 → Fin m → Nat
  regenerate_extract : ∀ a, ∀ i ∈ getPossibleEntries a, regenerateAddr (extractTag a) i = a

/-- The address of a block, and its security. -/
structure Line (n : Nat) where
  sector : Nat
  offset : Fin n
  secure : Bool
  deriving DecidableEq

/-- The coherence bits of a block and its data. -/
structure Rest (α : Type) where
  dirty : Bool
  writable : Bool
  data : α

/-- The commands of a writeback. -/
inductive MemCmd where
  | WritebackDirty
  | WritebackClean
  | WriteClean
  | CleanEvict
  deriving DecidableEq

/-- A writeback on its way out. -/
structure Packet (α : Type) (n : Nat) where
  cmd : MemCmd
  line : Line n
  data : α
  hasSharers : Bool

/-- What an outstanding miss is asked for. -/
structure Mshr where
  needsWritable : Bool
  isCleaning : Bool

/-- An entry of the write buffer. -/
structure WbEntry where
  numTargets : Nat
  isWriteback : Bool

variable {α : Type} {m n : Nat}

/-- The parameters of a cache; `size` is the compressed size of data in bits. -/
structure Config (α : Type) (m : Nat) where
  ix : Indexing m
  blkSize : Nat
  size : α → Nat
  replaceExpansions : Bool
  moveContractions : Bool
  writebackClean : Bool
  coherent : Bool

/-- A block by its superblock and its place there. -/
abbrev BlkId (m n : Nat) := Fin m × Fin n

/-- The superblocks, and what each block has beside its tag. -/
structure Cache (α : Type) (m n : Nat) where
  tags : Tags m n
  rest : BlkId m n → Rest α

/-- What stands beside the tags: the outstanding misses, the write buffer, and what the replacement
    policy would give up. -/
structure Around (m n : Nat) where
  mshr : Line n → Option Mshr
  writeBuffer : Line n → Option WbEntry
  getVictim : Fin m

namespace Cache

variable (cfg : Config α m) (c : Cache α m n) (b : BlkId m n)

/-- The block at an index. -/
def blk : Blk := (c.tags b.1).blks b.2

/-- The block holds a line. -/
def valid : Bool := (c.blk b).valid

/-- `isSet(DirtyBit)`. -/
def isDirty : Bool := c.valid b && (c.rest b).dirty

/-- `isSet(WritableBit)`. -/
def isWritable : Bool := c.valid b && (c.rest b).writable

/-- `regenerateBlkAddr`, with the security. -/
def line : Line n := ⟨cfg.ix.regenerateAddr (c.tags b.1).tag b.1, b.2, (c.tags b.1).secure⟩

/-- The block of a line. -/
def findBlock (l : Line n) : Option (BlkId m n) :=
  ((cfg.ix.getPossibleEntries l.sector).find? fun i =>
    ((c.tags i).blks l.offset).valid && (c.tags i).tag == cfg.ix.extractTag l.sector &&
      (c.tags i).secure == l.secure).map fun i => (i, l.offset)

/-- One superblock changed. -/
def setSuper (i : Fin m) (sb : SuperBlk n) : Cache α m n :=
  { c with tags := Function.update c.tags i sb }

/-- One block's bits and data changed. -/
def setRest (r : Rest α) : Cache α m n := { c with rest := Function.update c.rest b r }

/-- `invalidateBlock`: the coherence bits go, the data stays where it is. -/
def invalidate : Cache α m n := (c.setSuper b.1 ((c.tags b.1).invalidateBlk b.2)).setRest b
    { c.rest b with dirty := false, writable := false }

/-- The packet that carries a block out. -/
def writebackBlk : Packet α n :=
  ⟨if c.isDirty b then .WritebackDirty else .WritebackClean, c.line cfg b, (c.rest b).data,
    !c.isWritable b⟩

/-- The packet of `evictBlock`, in a coherent cache and in a noncoherent one. -/
def evictPacket : Option (Packet α n) :=
  if c.isDirty b || cfg.writebackClean then some (c.writebackBlk cfg b)
  else if cfg.coherent then some ⟨.CleanEvict, c.line cfg b, (c.rest b).data, false⟩
  else none

/-- The second loop of `handleEvictions`: the valid blocks are evicted one by one. -/
def evictEach : List (BlkId m n) → Cache α m n → Cache α m n × List (Packet α n)
  | [], c => (c, [])
  | e :: es, c =>
    if c.valid e then
      let after := evictEach es (c.invalidate e)
      (after.1, (c.evictPacket cfg e).toList ++ after.2)
    else evictEach es c

/-- A valid block with an outstanding miss. -/
def held (env : Around m n) (e : BlkId m n) : Bool := c.valid e && (env.mshr (c.line cfg e)).isSome

/-- The assertion of `handleEvictions`: an outstanding upgrade or clean request. -/
def upgrading (env : Around m n) (e : BlkId m n) : Bool :=
  match env.mshr (c.line cfg e) with
  | some mshr => (!c.isWritable e && mshr.needsWritable) || mshr.isCleaning
  | none => false

/-- `handleEvictions`: whether it succeeds, and what it leaves. -/
def handleEvictions (env : Around m n) (evict_blks : List (BlkId m n)) :
    Option (Bool × Cache α m n × List (Packet α n)) :=
  match evict_blks.find? (c.held cfg env) with
  | some e => if c.upgrading cfg env e then some (false, c, []) else none
  | none => some (true, evictEach cfg evict_blks c)

/-- The valid blocks of a superblock. -/
def validIn (i : Fin m) : List (BlkId m n) :=
  ((finRange n).filter fun k => ((c.tags i).blks k).valid).map fun k => (i, k)

/-- `findVictim`, with the blocks it asks to evict. -/
def findVictim (env : Around m n) (l : Line n) (compressed_size : Nat) :
    BlkId m n × List (BlkId m n) :=
  match coAllocation cfg.blkSize c.tags ⟨cfg.ix.getPossibleEntries l.sector,
      cfg.ix.extractTag l.sector, l.secure, l.offset, compressed_size, env.getVictim⟩ with
  | some i => ((i, l.offset), [])
  | none => ((env.getVictim, l.offset), c.validIn env.getVictim)

/-- The superblock of the destination with the moved block in it. -/
def received (src dest : BlkId m n) : SuperBlk n :=
  let sb := (c.tags dest.1).setBlk dest.2 { c.blk dest with compressed := (c.blk src).compressed }
  sb.insertBlk dest.2 (c.tags src.1).tag (c.tags src.1).secure

/-- The bits of the destination; an entry moves its metadata, and its data stays where it is. -/
def receivedRest (src dest : BlkId m n) : Rest α := { c.rest dest with
    dirty := (c.rest dest).dirty || (c.rest src).dirty
    writable := (c.rest dest).writable || (c.rest src).writable }

/-- `SectorSubBlk::insert` panics where another sector is there. -/
def otherSector (src dest : BlkId m n) : Bool :=
  (c.tags dest.1).isValid && !(c.tags dest.1).matchTag (c.tags src.1).tag (c.tags src.1).secure

/-- A block changes its place. -/
def moveBlock (src dest : BlkId m n) : Option (Cache α m n) :=
  if c.valid dest = false ∧ c.valid src = true ∧ c.otherSector src dest = false then
    some (((c.setSuper dest.1 (c.received src dest)).setRest dest
      (c.receivedRest src dest)).invalidate src)
  else none

/-- `setSizeBits`. -/
def setSize (size : Nat) : Cache α m n :=
  c.setSuper b.1 ((c.tags b.1).setSizeBits cfg.blkSize b.2 size)

end Cache

/-- How an overwrite changes the size. -/
inductive OverwriteType where
  | UNCHANGED
  | DATA_EXPANSION
  | DATA_CONTRACTION
  deriving DecidableEq

/-- Whether the new size needs more room, less, or the same. -/
def checkExpansionContraction (blkSize : Nat) (sb : SuperBlk n) (size : Nat) : OverwriteType :=
  let new_cf := calculateCompressionFactor blkSize n size
  if new_cf < sb.compressionFactor then .DATA_EXPANSION
  else if new_cf > sb.compressionFactor then .DATA_CONTRACTION
  else .UNCHANGED

namespace Cache

variable (cfg : Config α m) (c : Cache α m n) (b : BlkId m n)

/-- The part of `updateCompressionData` that looks for room: nothing to do, or the place of the
    block and the blocks to evict. -/
def makeRoom (env : Around m n) (size : Nat) : Option (BlkId m n × List (BlkId m n)) :=
  let type := checkExpansionContraction cfg.blkSize (c.tags b.1) size
  let is_data_expansion := decide (type = .DATA_EXPANSION)
  let is_data_contraction := decide (type = .DATA_CONTRACTION) && cfg.moveContractions
  if is_data_expansion || is_data_contraction then
    if cfg.replaceExpansions || is_data_contraction then
      let found := c.findVictim cfg env (c.line cfg b) size
      some (found.1, if b = found.1 then found.2.erase b else found.2)
    else some (b, (c.validIn b.1).filter fun sub_blk => sub_blk ≠ b)
  else none

/-- The block in its place. -/
def settle (victim : BlkId m n) : Option (Cache α m n) :=
  if b = victim then some c else c.moveBlock b victim

/-- `updateCompressionData`: whether it succeeds, the cache, where the block is now, and the
    writebacks. -/
def updateCompressionData (env : Around m n) (data : α) :
    Option (Bool × Cache α m n × BlkId m n × List (Packet α n)) :=
  let size := cfg.size data
  match c.makeRoom cfg b env size with
  | none => some (true, c.setSize cfg b size, b, [])
  | some (victim, evict_blks) =>
    (c.handleEvictions cfg env evict_blks).bind fun (done, c', writebacks) =>
      if done then
        (c'.settle b victim).map fun c'' => (true, c''.setSize cfg victim size, victim, writebacks)
      else some (false, c', b, writebacks)

/-- The end of an overwrite: the bits a command sets, and the data. -/
def write (pkt : Packet α n) : Cache α m n := c.setRest b
    { dirty := (c.rest b).dirty || decide (pkt.cmd ≠ .WritebackClean)
      writable := (c.rest b).writable || (decide (pkt.cmd ≠ .WriteClean) && !pkt.hasSharers)
      data := pkt.data }

end Cache

/-- What `access` leaves. -/
structure Result (α : Type) (m n : Nat) where
  satisfied : Bool
  cache : Cache α m n
  writebacks : List (Packet α n)

namespace Cache

variable (cfg : Config α m) (c : Cache α m n) (b : BlkId m n)

/-- The overwrite of a resident block. -/
def overwrite (env : Around m n) (pkt : Packet α n) : Option (Result α m n) :=
  (c.updateCompressionData cfg b env pkt.data).map fun (done, c', b', writebacks) =>
    if done then ⟨true, c'.write b' pkt, writebacks⟩ else ⟨false, c'.invalidate b', writebacks⟩

/-- The write buffer meets an eviction from above: go on, discard the packet, or stop at an
    assertion. -/
def meetWriteBuffer (env : Around m n) (pkt : Packet α n) : Option Bool :=
  match env.writeBuffer pkt.line with
  | none => some true
  | some wb_entry =>
    if wb_entry.numTargets = 1 ∧ wb_entry.isWriteback = true then
      some (decide (pkt.cmd ≠ .WritebackClean))
    else none

/-- `access` of a writeback or a WriteClean that is not write-through, for a resident block; other
    commands are left out. -/
def access (env : Around m n) (pkt : Packet α n) : Option (Result α m n) :=
  if pkt.cmd = .CleanEvict then none
  else if pkt.cmd = .WriteClean then c.overwrite cfg b env pkt
  else
    (meetWriteBuffer env pkt).bind fun goes_on =>
      if !goes_on then some ⟨true, c, []⟩
      else if pkt.cmd = .WritebackClean ∧ (env.mshr pkt.line).isSome = true then
        some ⟨true, c, []⟩
      else c.overwrite cfg b env pkt

end Cache

/-! ## What an overwrite keeps, and when -/

/-- The tags of a cache: the counters count, and a line is in one block at most. -/
structure Wf (cfg : Config α m) (c : Cache α m n) : Prop where
  counter : ∀ i, (c.tags i).validCounter = (validBlks (c.tags i)).card
  unique : ∀ x y, c.valid x = true → c.valid y = true → c.line cfg x = c.line cfg y → x = y

/-- Every valid block is no larger than its part. -/
def FitsFactor (blkSize : Nat) (sb : SuperBlk n) : Prop :=
  ∀ k, (sb.blks k).valid = true → (sb.blks k).size ≤ blkSizeBits blkSize / sb.compressionFactor

instance (blkSize : Nat) (sb : SuperBlk n) : Decidable (FitsFactor blkSize sb) :=
  inferInstanceAs (Decidable (∀ _, _ → _))

/-- The current data of a line has an owner: a dirty block, a dirty writeback, or the packet where it
    goes on. -/
def Owned (cfg : Config α m) (cur : Line n → α) (pkt : Packet α n) (r : Result α m n)
    (l : Line n) : Prop :=
  (∃ x, r.cache.isDirty x = true ∧ r.cache.line cfg x = l ∧ (r.cache.rest x).data = cur l) ∨
    (∃ p ∈ r.writebacks, p.cmd = .WritebackDirty ∧ p.line = l ∧ p.data = cur l) ∨
    l = pkt.line ∧ pkt.cmd ≠ .WritebackClean ∧ r.satisfied = false

/-- No data is lost: of the lines that were dirty, and of the line of the packet. -/
def Keeps (cfg : Config α m) (cur : Line n → α) (c : Cache α m n) (pkt : Packet α n)
    (r : Result α m n) : Prop :=
  ∀ l, ((∃ x, c.isDirty x = true ∧ c.line cfg x = l) ∨
    l = pkt.line ∧ pkt.cmd ≠ .WritebackClean) → Owned cfg cur pkt r l

/-- The dirty blocks hold the current data; of the line of the packet its own is the current one, and
    a clean one is what the block holds. -/
structure Current (cfg : Config α m) (cur : Line n → α) (c : Cache α m n) (pkt : Packet α n) :
    Prop where
  packet : pkt.data = cur pkt.line
  blocks : ∀ x, c.isDirty x = true → c.line cfg x ≠ pkt.line ∨ pkt.cmd = .WritebackClean →
    (c.rest x).data = cur (c.line cfg x)

section condition

variable (cfg : Config α m) (c : Cache α m n) (b : BlkId m n) (env : Around m n) (pkt : Packet α n)

/-- A clean writeback that is discarded: its line is in the write buffer or has a miss. -/
def Discarded : Prop := pkt.cmd = .WritebackClean ∧
    ((env.writeBuffer pkt.line).isSome = true ∨ (env.mshr pkt.line).isSome = true)

/-- Where the block is to go, and the blocks to evict for it. -/
def room : BlkId m n × List (BlkId m n) := (c.makeRoom cfg b env (cfg.size pkt.data)).getD (b, [])

/-- A block to evict has an outstanding miss. -/
def Blocked : Prop := ∃ e ∈ (room cfg c b env pkt).2, c.held cfg env e = true

/-- Another block stays in the superblock. -/
def Beside : Prop :=
  ∃ x, x ≠ b ∧ x ∉ (room cfg c b env pkt).2 ∧ x.1 = (room cfg c b env pkt).1.1 ∧ c.valid x = true

open Classical in
/-- The new size fits the part: of the superblock where another block stays in it, and of the factor
    computed from the size where the block is alone. -/
def Roomy : Prop := cfg.size pkt.data ≤ blkSizeBits cfg.blkSize /
    if Beside cfg c b env pkt then (c.tags (room cfg c b env pkt).1.1).compressionFactor
    else calculateCompressionFactor cfg.blkSize n (cfg.size pkt.data)

/-- A clean writeback does not make the cache give up a dirty block, and a block that is overwritten
    has room. -/
def Safe : Prop := ¬ Discarded env pkt →
    (Blocked cfg c b env pkt → ¬ (pkt.cmd = .WritebackClean ∧ c.isDirty b = true)) ∧
      (¬ Blocked cfg c b env pkt → Roomy cfg c b env pkt)

end condition

/-! ## Blocks that go -/

section gone

variable {cfg : Config α m} {c c' c'' : Cache α m n} {b : BlkId m n}

/-- Some blocks have gone, and the others are as they were. -/
structure Trimmed (c c' : Cache α m n) (gone : BlkId m n → Prop) : Prop where
  valid : ∀ x, c'.valid x = true ↔ c.valid x = true ∧ ¬ gone x
  rest : ∀ x, c'.valid x = true → c'.rest x = c.rest x
  size : ∀ x, (c'.blk x).size = (c.blk x).size
  super : ∀ x, c'.valid x = true → (c'.tags x.1).tag = (c.tags x.1).tag ∧
    (c'.tags x.1).secure = (c.tags x.1).secure ∧
    (c'.tags x.1).compressionFactor = (c.tags x.1).compressionFactor
  counter : ∀ i, (c'.tags i).validCounter = (validBlks (c'.tags i)).card

theorem Trimmed.refl (h : ∀ i, (c.tags i).validCounter = (validBlks (c.tags i)).card) :
    Trimmed c c fun _ => False :=
  ⟨fun _ => by simp, fun _ _ => rfl, fun _ => rfl, fun _ _ => ⟨rfl, rfl, rfl⟩, h⟩

theorem Trimmed.trans {g g' : BlkId m n → Prop} (h : Trimmed c c' g) (h' : Trimmed c' c'' g') :
    Trimmed c c'' fun x => g x ∨ g' x where
  valid x := by rw [h'.valid, h.valid, not_or, and_assoc]
  rest x hx := (h'.rest x hx).trans (h.rest x ((h'.valid x).mp hx).1)
  size x := (h'.size x).trans (h.size x)
  super x hx := by
    obtain ⟨ht, hs, hf⟩ := h'.super x hx
    obtain ⟨ht', hs', hf'⟩ := h.super x ((h'.valid x).mp hx).1
    exact ⟨ht.trans ht', hs.trans hs', hf.trans hf'⟩
  counter := h'.counter

theorem Trimmed.line {g : BlkId m n → Prop} (h : Trimmed c c' g) {x : BlkId m n}
    (hx : c'.valid x = true) : c'.line cfg x = c.line cfg x := by
  obtain ⟨ht, hs, -⟩ := h.super x hx
  rw [Cache.line, Cache.line, ht, hs]

theorem Trimmed.isDirty {g : BlkId m n → Prop} (h : Trimmed c c' g) {x : BlkId m n}
    (hx : c'.valid x = true) : c'.isDirty x = c.isDirty x := by
  rw [Cache.isDirty, Cache.isDirty, hx, ((h.valid x).mp hx).1, h.rest x hx]

/-- The blocks that stay fit as they did. -/
theorem Trimmed.fits {g : BlkId m n → Prop} (h : Trimmed c c' g) {blkSize : Nat}
    (hfit : ∀ i, FitsFactor blkSize (c.tags i)) (i : Fin m) : FitsFactor blkSize (c'.tags i) := by
  intro k hk
  have hx : c'.valid (i, k) = true := hk
  obtain ⟨-, -, hf⟩ := h.super (i, k) hx
  have hsize : ((c'.tags i).blks k).size = ((c.tags i).blks k).size := h.size (i, k)
  rw [hsize, hf]
  exact hfit i k ((h.valid (i, k)).mp hx).1

theorem setSuper_tags (c : Cache α m n) (i j : Fin m) (sb : SuperBlk n) :
    (c.setSuper i sb).tags j = if j = i then sb else c.tags j := by
  by_cases hj : j = i
  · subst hj
    simp [Cache.setSuper]
  · simp [Cache.setSuper, hj]

/-- A block is invalidated. -/
theorem invalidate_trimmed (hcount : ∀ i, (c.tags i).validCounter = (validBlks (c.tags i)).card)
    (hb : c.valid b = true) : Trimmed c (c.invalidate b) fun x => x = b := by
  have htags : ∀ j, (c.invalidate b).tags j =
      if j = b.1 then (c.tags b.1).invalidateBlk b.2 else c.tags j :=
    fun j => setSuper_tags c b.1 j _
  have hmem : b.2 ∈ validBlks (c.tags b.1) := mem_validBlks.mpr hb
  have hvalid : ∀ x, (c.invalidate b).valid x = true ↔ c.valid x = true ∧ ¬ x = b := by
    intro x
    show (((c.invalidate b).tags x.1).blks x.2).valid = true ↔
      ((c.tags x.1).blks x.2).valid = true ∧ _
    rw [htags]
    by_cases hi : x.1 = b.1
    · rw [if_pos hi, hi, ← mem_validBlks, validBlks_invalidate, Finset.mem_erase, mem_validBlks]
      have hne : x = b ↔ x.2 = b.2 := ⟨fun h => by rw [h], fun h => Prod.ext hi h⟩
      rw [hne, and_comm]
    · rw [if_neg hi]
      have hne : ¬ x = b := fun h => hi (by rw [h])
      simp [hne]
  refine ⟨hvalid, fun x hx => ?_, fun x => ?_, fun x hx => ?_, fun i => ?_⟩
  · exact update_of_ne ((hvalid x).mp hx).2 _ _
  · show (((c.invalidate b).tags x.1).blks x.2).size = ((c.tags x.1).blks x.2).size
    rw [htags]
    by_cases hi : x.1 = b.1
    · rw [if_pos hi, size_invalidate, hi]
    · rw [if_neg hi]
  · rw [htags]
    by_cases hi : x.1 = b.1
    · -- another block of the superblock is valid, so the tag and the factor stay
      obtain ⟨hold, hne⟩ := (hvalid x).mp hx
      have hmem' : x.2 ∈ validBlks (c.tags b.1) := mem_validBlks.mpr (hi ▸ hold)
      have hcard : 1 < (validBlks (c.tags b.1)).card :=
        Finset.one_lt_card.mpr ⟨x.2, hmem', b.2, hmem, fun h => hne (Prod.ext hi h)⟩
      rw [if_pos hi, hi]
      unfold SuperBlk.invalidateBlk
      dsimp only
      rw [if_neg (by rw [hcount]; omega)]
      exact ⟨rfl, rfl, rfl⟩
    · rw [if_neg hi]
      exact ⟨rfl, rfl, rfl⟩
  · rw [htags]
    split
    · rw [validBlks_invalidate, Finset.card_erase_of_mem hmem, ← hcount]
      unfold SuperBlk.invalidateBlk
      dsimp only
      split <;> rfl
    · exact hcount i

/-- A dirty block is evicted with its data. -/
theorem evictPacket_dirty (cfg : Config α m) (hb : c.isDirty b = true) :
    ∃ p ∈ (c.evictPacket cfg b).toList, p.cmd = .WritebackDirty ∧ p.line = c.line cfg b ∧
      p.data = (c.rest b).data := by
  refine ⟨c.writebackBlk cfg b, ?_, if_pos hb, rfl, rfl⟩
  rw [Cache.evictPacket, if_pos (by simp [hb])]
  exact mem_singleton_self _

/-- The evictions: the blocks of the list go, and the dirty ones among them are written back. -/
theorem evictEach_spec (cfg : Config α m) (es : List (BlkId m n)) (c : Cache α m n)
    (hcount : ∀ i, (c.tags i).validCounter = (validBlks (c.tags i)).card) :
    Trimmed c (Cache.evictEach cfg es c).1 (fun x => x ∈ es) ∧
      ∀ e ∈ es, c.isDirty e = true → ∃ p ∈ (Cache.evictEach cfg es c).2,
        p.cmd = .WritebackDirty ∧ p.line = c.line cfg e ∧ p.data = (c.rest e).data := by
  induction es generalizing c with
  | nil =>
    refine ⟨?_, fun e he => nomatch he⟩
    have h := Trimmed.refl hcount
    refine ⟨fun x => ?_, h.rest, h.size, h.super, h.counter⟩
    show c.valid x = true ↔ _
    simp
  | cons e es ih =>
    rw [Cache.evictEach]
    by_cases he : c.valid e = true
    · rw [if_pos he]
      have htrim := invalidate_trimmed hcount he
      obtain ⟨hrest, hpkts⟩ := ih (c.invalidate e) htrim.counter
      have hall := htrim.trans hrest
      refine ⟨⟨fun x => ?_, hall.rest, hall.size, hall.super, hall.counter⟩, fun x hx hdirty => ?_⟩
      · rw [hall.valid, mem_cons]
      · by_cases hxe : x = e
        · subst hxe
          obtain ⟨p, hp, hspec⟩ := evictPacket_dirty cfg hdirty
          exact ⟨p, mem_append_left _ hp, hspec⟩
        · have hvx : (c.invalidate e).valid x = true :=
            (htrim.valid x).mpr ⟨(Bool.and_eq_true_iff.mp hdirty).1, hxe⟩
          obtain ⟨p, hp, hcmd, hline, hdata⟩ := hpkts x
            ((mem_cons.mp hx).resolve_left hxe) (by rw [htrim.isDirty hvx]; exact hdirty)
          refine ⟨p, mem_append_right _ hp, hcmd, ?_, ?_⟩
          · rw [hline, htrim.line hvx]
          · rw [hdata, htrim.rest x hvx]
    · rw [if_neg he]
      obtain ⟨hrest, hpkts⟩ := ih c hcount
      refine ⟨⟨fun x => ?_, hrest.rest, hrest.size, hrest.super, hrest.counter⟩,
        fun x hx hdirty => ?_⟩
      · rw [hrest.valid, mem_cons, not_or]
        refine ⟨fun ⟨hv, hn⟩ => ⟨hv, fun h => he (h ▸ hv), hn⟩, fun ⟨hv, _, hn⟩ => ⟨hv, hn⟩⟩
      · have hne : x ≠ e := fun h => he (h ▸ (Bool.and_eq_true_iff.mp hdirty).1)
        exact hpkts x ((mem_cons.mp hx).resolve_left hne) hdirty

end gone

/-! ## A block in its place -/

section settled

variable {cfg : Config α m} {c s : Cache α m n} {b v : BlkId m n}

/-- The block `b` is in the place `v`, and the other blocks are as they were. -/
structure Settled (c s : Cache α m n) (b v : BlkId m n) : Prop where
  valid : ∀ x, s.valid x = true ↔ x = v ∨ c.valid x = true ∧ x ≠ b
  rest : ∀ x, s.valid x = true → x ≠ v → s.rest x = c.rest x
  dirty : (c.rest b).dirty = true → (s.rest v).dirty = true
  size : ∀ x, x ≠ v → (s.blk x).size = (c.blk x).size
  super : ∀ x, c.valid x = true → x ≠ b → (s.tags x.1).tag = (c.tags x.1).tag ∧
    (s.tags x.1).secure = (c.tags x.1).secure ∧
    (s.tags x.1).compressionFactor = (c.tags x.1).compressionFactor
  place : (s.tags v.1).tag = (c.tags b.1).tag ∧ (s.tags v.1).secure = (c.tags b.1).secure
  fresh : c.valid v = true → v = b
  counter : ∀ i, (s.tags i).validCounter = (validBlks (s.tags i)).card

theorem Settled.refl (hcount : ∀ i, (c.tags i).validCounter = (validBlks (c.tags i)).card)
    (hb : c.valid b = true) : Settled c c b b where
  valid x := by
    constructor
    · intro hx
      by_cases hxb : x = b
      · exact Or.inl hxb
      · exact Or.inr ⟨hx, hxb⟩
    · rintro (rfl | ⟨hx, -⟩)
      · exact hb
      · exact hx
  rest _ _ _ := rfl
  dirty h := h
  size _ _ := rfl
  super _ _ _ := ⟨rfl, rfl, rfl⟩
  place := ⟨rfl, rfl⟩
  fresh _ := rfl
  counter := hcount

theorem insertBlk_tag (sb : SuperBlk n) (k : Fin n) (tag : BitVec 64) (secure : Bool) :
    (sb.insertBlk k tag secure).tag = (if sb.isValid then sb.tag else tag) ∧
      (sb.insertBlk k tag secure).secure = if sb.isValid then sb.secure else secure := by
  unfold SuperBlk.insertBlk
  cases sb.isValid <;> exact ⟨rfl, rfl⟩

/-- The superblock a block is moved to. -/
theorem received_spec (c : Cache α m n) (b v : BlkId m n) (hv : c.valid v = false)
    (hcount : ∀ i, (c.tags i).validCounter = (validBlks (c.tags i)).card)
    (hsector : c.otherSector b v = false) :
    (∀ k, ((c.received b v).blks k).valid = true ↔ k = v.2 ∨ ((c.tags v.1).blks k).valid = true) ∧
      (∀ k, k ≠ v.2 → (c.received b v).blks k = (c.tags v.1).blks k) ∧
      (c.received b v).tag = (c.tags b.1).tag ∧ (c.received b v).secure = (c.tags b.1).secure ∧
      (c.received b v).compressionFactor = (c.tags v.1).compressionFactor ∧
      (c.received b v).validCounter = (validBlks (c.received b v)).card := by
  have hother : ∀ k, k ≠ v.2 → (c.received b v).blks k = (c.tags v.1).blks k := by
    intro k hk
    unfold Cache.received
    rw [insertBlk_blks, if_neg hk]
    exact update_of_ne hk _ _
  have hvalid : ∀ k, ((c.received b v).blks k).valid = true ↔
      k = v.2 ∨ ((c.tags v.1).blks k).valid = true := by
    intro k
    by_cases hk : k = v.2
    · subst hk
      unfold Cache.received
      rw [insertBlk_blks, if_pos rfl]
      simp
    · rw [hother k hk]
      simp [hk]
  have htag : (c.received b v).tag = (if (c.tags v.1).isValid then (c.tags v.1).tag
      else (c.tags b.1).tag) ∧ (c.received b v).secure = if (c.tags v.1).isValid
        then (c.tags v.1).secure else (c.tags b.1).secure := insertBlk_tag _ _ _ _
  refine ⟨hvalid, hother, ?_, ?_, ?_, ?_⟩
  · rw [htag.1]
    split
    · next hval =>
      -- a valid sector has the tag of the block
      simp only [Cache.otherSector, hval, Bool.true_and, Bool.not_eq_false', SuperBlk.matchTag,
        Bool.and_eq_true, beq_iff_eq] at hsector
      exact hsector.1
    · rfl
  · rw [htag.2]
    split
    · next hval =>
      simp only [Cache.otherSector, hval, Bool.true_and, Bool.not_eq_false', SuperBlk.matchTag,
        Bool.and_eq_true, beq_iff_eq] at hsector
      exact hsector.2
    · rfl
  · unfold Cache.received
    rw [insertBlk_factor]
    rfl
  · have hnot : v.2 ∉ validBlks (c.tags v.1) := by
      rw [mem_validBlks]
      exact fun h => by rw [show ((c.tags v.1).blks v.2).valid = false from hv] at h; cases h
    have hins : validBlks (c.received b v) = insert v.2 (validBlks (c.tags v.1)) := by
      ext k
      rw [mem_validBlks, hvalid, Finset.mem_insert, mem_validBlks]
    rw [hins, Finset.card_insert_of_notMem hnot, ← hcount]
    unfold Cache.received
    rw [insertBlk_counter]
    rfl

/-- A move brings the block to an invalid place. -/
theorem moveBlock_spec (hcount : ∀ i, (c.tags i).validCounter = (validBlks (c.tags i)).card)
    (hmove : c.moveBlock b v = some s) : Settled c s b v := by
  unfold Cache.moveBlock at hmove
  split at hmove
  case isFalse => cases hmove
  case isTrue hassert =>
    obtain ⟨hv, hb, hsector⟩ := hassert
    have hne : v ≠ b := fun h => by rw [h, hb] at hv; cases hv
    obtain ⟨hvalid, hother, htag, hsec, hfactor, hcnt⟩ := received_spec c b v hv hcount hsector
    obtain ⟨c', hc'⟩ : ∃ c' : Cache α m n, c' = (c.setSuper v.1 (c.received b v)).setRest v
      (c.receivedRest b v) := ⟨_, rfl⟩
    rw [← hc'] at hmove
    obtain rfl := Option.some.inj hmove
    have htags : ∀ j, c'.tags j = if j = v.1 then c.received b v else c.tags j := by
      intro j
      rw [hc']
      exact setSuper_tags c v.1 j _
    have hrest : ∀ x, x ≠ v → c'.rest x = c.rest x := by
      intro x hx
      rw [hc']
      exact update_of_ne hx _ _
    have hrestv : c'.rest v = c.receivedRest b v := by
      rw [hc']
      exact update_self ..
    have hv' : ∀ x, c'.valid x = true ↔ x = v ∨ c.valid x = true := by
      intro x
      show ((c'.tags x.1).blks x.2).valid = true ↔ _ ∨ ((c.tags x.1).blks x.2).valid = true
      rw [htags]
      by_cases hi : x.1 = v.1
      · rw [if_pos hi, hvalid, hi]
        have hxv : x = v ↔ x.2 = v.2 := ⟨fun h => by rw [h], fun h => Prod.ext hi h⟩
        rw [hxv]
      · rw [if_neg hi]
        have hxv : ¬ x = v := fun h => hi (by rw [h])
        simp [hxv]
    have hcount' : ∀ i, (c'.tags i).validCounter = (validBlks (c'.tags i)).card := by
      intro i
      rw [htags]
      split
      · exact hcnt
      · exact hcount i
    have htrim := invalidate_trimmed hcount' ((hv' b).mpr (Or.inr hb))
    have hvv : (c'.invalidate b).valid v = true :=
      (htrim.valid v).mpr ⟨(hv' v).mpr (Or.inl rfl), hne⟩
    refine ⟨fun x => ?_, fun x hx hxv => ?_, fun hdirty => ?_, fun x hxv => ?_, fun x hx hxb => ?_,
      ?_, fun h => (by rw [hv] at h; cases h), htrim.counter⟩
    · rw [htrim.valid, hv']
      constructor
      · rintro ⟨hx | hx, hxb⟩
        · exact Or.inl hx
        · exact Or.inr ⟨hx, hxb⟩
      · rintro (rfl | ⟨hx, hxb⟩)
        · exact ⟨Or.inl rfl, hne⟩
        · exact ⟨Or.inr hx, hxb⟩
    · rw [htrim.rest x hx, hrest x hxv]
    · rw [htrim.rest v hvv, hrestv]
      show ((c.rest v).dirty || (c.rest b).dirty) = true
      rw [hdirty, Bool.or_true]
    · rw [htrim.size x]
      show ((c'.tags x.1).blks x.2).size = ((c.tags x.1).blks x.2).size
      rw [htags]
      by_cases hi : x.1 = v.1
      · rw [if_pos hi, hother x.2 fun h => hxv (Prod.ext hi h), hi]
      · rw [if_neg hi]
    · have hx' : (c'.invalidate b).valid x = true :=
        (htrim.valid x).mpr ⟨(hv' x).mpr (Or.inr hx), hxb⟩
      obtain ⟨ht, hs, hf⟩ := htrim.super x hx'
      rw [ht, hs, hf, htags]
      by_cases hi : x.1 = v.1
      · -- the destination was valid, so its sector is the one of the block
        have hval : (c.tags v.1).isValid = true := by
          have hmem : x.2 ∈ validBlks (c.tags v.1) := mem_validBlks.mpr (hi ▸ hx)
          have := Finset.card_pos.mpr ⟨_, hmem⟩
          simp only [SuperBlk.isValid, decide_eq_true_eq, hcount]
          exact this
        simp only [Cache.otherSector, hval, Bool.true_and, Bool.not_eq_false', SuperBlk.matchTag,
          Bool.and_eq_true, beq_iff_eq] at hsector
        rw [if_pos hi, hi, htag, hsec, hfactor]
        exact ⟨hsector.1.symm, hsector.2.symm, rfl⟩
      · rw [if_neg hi]
        exact ⟨rfl, rfl, rfl⟩
    · obtain ⟨ht, hs, -⟩ := htrim.super v hvv
      rw [ht, hs, htags, if_pos rfl]
      exact ⟨htag, hsec⟩

theorem settle_spec (hcount : ∀ i, (c.tags i).validCounter = (validBlks (c.tags i)).card)
    (hb : c.valid b = true) (hsettle : c.settle b v = some s) : Settled c s b v := by
  unfold Cache.settle at hsettle
  split at hsettle
  · next hbv =>
    subst hbv
    obtain rfl := Option.some.inj hsettle
    exact Settled.refl hcount hb
  · exact moveBlock_spec hcount hsettle

/-- What `setSizeBits` changes: the size of one block, and the factor where it is alone. -/
theorem setSizeBits_spec (blkSize : Nat) (sb : SuperBlk n) (k : Fin n) (size : Nat) :
    (∀ j, ((sb.setSizeBits blkSize k size).blks j).valid = (sb.blks j).valid) ∧
      (∀ j, ((sb.setSizeBits blkSize k size).blks j).size =
        if j = k then size else (sb.blks j).size) ∧
      (sb.setSizeBits blkSize k size).tag = sb.tag ∧
      (sb.setSizeBits blkSize k size).secure = sb.secure ∧
      (sb.setSizeBits blkSize k size).compressionFactor =
        if sb.validCounter ≤ 1 then calculateCompressionFactor blkSize n size
        else sb.compressionFactor := by
  have hblks : ∀ f, (sb.setCompressionFactor f).blks = sb.blks :=
    fun f => (setCompressionFactor_frame sb f).1
  refine ⟨fun j => ?_, fun j => ?_, ?_, ?_, ?_⟩
  · unfold SuperBlk.setSizeBits SuperBlk.setBlk
    by_cases hj : j = k
    · subst hj
      simp [hblks]
    · simp [hblks, hj]
  · unfold SuperBlk.setSizeBits SuperBlk.setBlk
    by_cases hj : j = k
    · subst hj
      simp
    · simp [hblks, hj]
  · show (sb.setCompressionFactor _).tag = _
    unfold SuperBlk.setCompressionFactor
    split <;> rfl
  · show (sb.setCompressionFactor _).secure = _
    unfold SuperBlk.setCompressionFactor
    split <;> rfl
  · show (sb.setCompressionFactor _).compressionFactor = _
    unfold SuperBlk.setCompressionFactor
    split <;> rfl

theorem setSize_tags (cfg : Config α m) (s : Cache α m n) (v : BlkId m n) (size : Nat) (j : Fin m) :
    (s.setSize cfg v size).tags j =
      if j = v.1 then (s.tags v.1).setSizeBits cfg.blkSize v.2 size else s.tags j :=
  setSuper_tags s v.1 j _

theorem setSize_valid (cfg : Config α m) (s : Cache α m n) (v x : BlkId m n) (size : Nat) :
    (s.setSize cfg v size).valid x = s.valid x := by
  show (((s.setSize cfg v size).tags x.1).blks x.2).valid = ((s.tags x.1).blks x.2).valid
  rw [setSize_tags]
  by_cases hi : x.1 = v.1
  · rw [if_pos hi, (setSizeBits_spec ..).1, hi]
  · rw [if_neg hi]

theorem setSize_line (cfg : Config α m) (s : Cache α m n) (v x : BlkId m n) (size : Nat) :
    (s.setSize cfg v size).line cfg x = s.line cfg x := by
  unfold Cache.line
  rw [setSize_tags]
  by_cases hi : x.1 = v.1
  · obtain ⟨-, -, ht, hs, -⟩ := setSizeBits_spec cfg.blkSize (s.tags v.1) v.2 size
    rw [if_pos hi, ht, hs, hi]
  · rw [if_neg hi]

end settled

/-! ## The update of the compression data -/

section update

variable {cfg : Config α m} {c c₁ s : Cache α m n} {b v : BlkId m n} {env : Around m n}
  {pkt : Packet α n} {evict : List (BlkId m n)}

theorem mem_validIn {c : Cache α m n} {i : Fin m} {x : BlkId m n} :
    x ∈ c.validIn i ↔ x.1 = i ∧ c.valid x = true := by
  unfold Cache.validIn
  rw [mem_map]
  constructor
  · rintro ⟨k, hk, rfl⟩
    exact ⟨rfl, (mem_filter.mp hk).2⟩
  · rintro ⟨rfl, hx⟩
    exact ⟨x.2, mem_filter.mpr ⟨mem_finRange _, hx⟩, rfl⟩

theorem nodup_validIn (c : Cache α m n) (i : Fin m) : (c.validIn i).Nodup :=
  ((nodup_finRange n).filter _).map fun _ _ h => (Prod.ext_iff.mp h).2

/-- The block itself is never evicted, and its new place has its offset, in a superblock its address
    may live in. -/
theorem room_spec (cfg : Config α m) (c : Cache α m n) (b : BlkId m n) (env : Around m n)
    (pkt : Packet α n) (hb : b.1 ∈ cfg.ix.getPossibleEntries (c.line cfg b).sector)
    (hvictim : env.getVictim ∈ cfg.ix.getPossibleEntries (c.line cfg b).sector) :
    b ∉ (room cfg c b env pkt).2 ∧ (room cfg c b env pkt).1.2 = b.2 ∧
      (room cfg c b env pkt).1.1 ∈ cfg.ix.getPossibleEntries (c.line cfg b).sector := by
  unfold room Cache.makeRoom
  dsimp only
  split
  · split
    · rw [Option.getD_some]
      unfold Cache.findVictim
      split
      · next i hco =>
        refine ⟨?_, rfl, mem_of_find?_eq_some hco⟩
        split
        · exact fun h => nomatch mem_of_mem_erase h
        · exact fun h => nomatch h
      · refine ⟨?_, rfl, hvictim⟩
        split
        · exact fun h => (Nodup.mem_erase_iff (nodup_validIn c _)).mp h |>.1 rfl
        · next hne =>
          -- a block of the superblock given up with this offset is the victim
          exact fun h => hne (Prod.ext (mem_validIn.mp h).1 rfl)
    · refine ⟨fun h => ?_, rfl, hb⟩
      simpa using (mem_filter.mp h).2
  · exact ⟨not_mem_nil, rfl, hb⟩

/-- The update gives up because a block to evict is held, or it evicts them all, writes back the
    dirty ones, and puts the block in its place. -/
theorem update_spec (hcount : ∀ i, (c.tags i).validCounter = (validBlks (c.tags i)).card)
    (hvalid : c.valid b = true) (hmem : b ∉ (room cfg c b env pkt).2) {done : Bool}
    {c' : Cache α m n} {b' : BlkId m n} {wbs : List (Packet α n)}
    (h : c.updateCompressionData cfg b env pkt.data = some (done, c', b', wbs)) :
    done = false ∧ Blocked cfg c b env pkt ∧ c' = c ∧ b' = b ∧ wbs = [] ∨
      done = true ∧ ¬ Blocked cfg c b env pkt ∧ b' = (room cfg c b env pkt).1 ∧ ∃ c₁ s,
        Trimmed c c₁ (fun x => x ∈ (room cfg c b env pkt).2) ∧
        (∀ e ∈ (room cfg c b env pkt).2, c.isDirty e = true → ∃ p ∈ wbs,
          p.cmd = .WritebackDirty ∧ p.line = c.line cfg e ∧ p.data = (c.rest e).data) ∧
        Settled c₁ s b (room cfg c b env pkt).1 ∧
        c' = s.setSize cfg (room cfg c b env pkt).1 (cfg.size pkt.data) := by
  unfold Cache.updateCompressionData at h
  dsimp only at h
  unfold Blocked
  unfold room at hmem ⊢
  cases hroom : c.makeRoom cfg b env (cfg.size pkt.data) with
  | none =>
    rw [hroom] at h
    obtain ⟨rfl, rfl, rfl, rfl⟩ : true = done ∧ c.setSize cfg b (cfg.size pkt.data) = c' ∧ b = b' ∧
        [] = wbs := by simpa using h
    have hrefl := Trimmed.refl hcount
    refine Or.inr ⟨rfl, fun ⟨e, he, _⟩ => not_mem_nil he, rfl, c, c, ?_,
      fun e he => absurd he not_mem_nil, Settled.refl hcount hvalid, rfl⟩
    refine ⟨fun x => ?_, hrefl.rest, hrefl.size, hrefl.super, hcount⟩
    show c.valid x = true ↔ c.valid x = true ∧ x ∉ []
    simp
  | some found =>
    obtain ⟨victim, evict⟩ := found
    rw [hroom] at h hmem
    dsimp only at h hmem ⊢
    unfold Cache.handleEvictions at h
    cases hheld : evict.find? (c.held cfg env) with
    | some e =>
      rw [hheld] at h
      dsimp only at h
      split at h
      · obtain ⟨rfl, rfl, rfl, rfl⟩ : false = done ∧ c = c' ∧ b = b' ∧ [] = wbs := by
          simpa using h
        exact Or.inl ⟨rfl, ⟨e, mem_of_find?_eq_some hheld, find?_some hheld⟩, rfl, rfl,
          rfl⟩
      · cases h
    | none =>
      rw [hheld] at h
      obtain ⟨htrim, hpkts⟩ := evictEach_spec cfg evict c hcount
      generalize Cache.evictEach cfg evict c = after at h htrim hpkts
      obtain ⟨c₁, wbs₁⟩ := after
      simp only [Option.bind_some, if_true, Option.map_eq_some_iff, Prod.mk.injEq] at h
      obtain ⟨s, hsettle, rfl, rfl, rfl, rfl⟩ := h
      refine Or.inr ⟨rfl, fun ⟨e, he, hh⟩ => ?_, rfl, c₁, s, htrim, hpkts, ?_, rfl⟩
      · exact find?_eq_none.mp hheld e he hh
      · exact settle_spec htrim.counter ((htrim.valid b).mpr ⟨hvalid, hmem⟩) hsettle

end update

/-! ## The three ends of an access -/

section ends

variable {cfg : Config α m} {c c₁ s : Cache α m n} {b v : BlkId m n} {env : Around m n}
  {pkt : Packet α n} {cur : Line n → α} {evict : List (BlkId m n)}

/-- The block of a line. -/
theorem findBlock_spec {l : Line n} (h : c.findBlock cfg l = some b) :
    b.1 ∈ cfg.ix.getPossibleEntries l.sector ∧ c.valid b = true ∧ c.line cfg b = l ∧
      (c.tags b.1).tag = cfg.ix.extractTag l.sector := by
  obtain ⟨i, hi, rfl⟩ := Option.map_eq_some_iff.mp h
  have hfound := find?_some hi
  have hmem := mem_of_find?_eq_some hi
  simp only [Bool.and_eq_true, beq_iff_eq] at hfound
  obtain ⟨⟨hvalid, htag⟩, hsec⟩ := hfound
  refine ⟨hmem, hvalid, ?_, htag⟩
  unfold Cache.line
  rw [htag, hsec, cfg.ix.regenerate_extract _ _ hmem]

theorem access_cases {r : Result α m n} (h : c.access cfg b env pkt = some r) :
    Discarded env pkt ∧ r = ⟨true, c, []⟩ ∨
      ¬ Discarded env pkt ∧ c.overwrite cfg b env pkt = some r := by
  unfold Cache.access at h
  split at h
  · cases h
  · split at h
    · next hclean =>
      refine Or.inr ⟨fun hd => ?_, h⟩
      have hcmd := hd.1
      rw [hclean] at hcmd
      cases hcmd
    · unfold Cache.meetWriteBuffer at h
      cases hwb : env.writeBuffer pkt.line with
      | none =>
        rw [hwb, Option.bind_some] at h
        simp only [Bool.not_true, Bool.false_eq_true, if_false] at h
        split at h
        · next hdrop => exact Or.inl ⟨⟨hdrop.1, Or.inr hdrop.2⟩, (Option.some.inj h).symm⟩
        · next hgo =>
          refine Or.inr ⟨fun hd => ?_, h⟩
          rcases hd.2 with hw | hm
          · rw [hwb] at hw
            cases hw
          · exact hgo ⟨hd.1, hm⟩
      | some entry =>
        rw [hwb] at h
        dsimp only at h
        split at h
        · rw [Option.bind_some] at h
          by_cases hcmd : pkt.cmd = .WritebackClean
          · rw [if_pos (by simp [hcmd])] at h
            exact Or.inl ⟨⟨hcmd, Or.inl (by rw [hwb]; rfl)⟩, (Option.some.inj h).symm⟩
          · rw [if_neg (by simp [hcmd]), if_neg fun hd => hcmd hd.1] at h
            exact Or.inr ⟨fun hd => hcmd hd.1, h⟩
        · cases h

/-- A discarded packet changes nothing. -/
theorem discarded_keeps (hcur : Current cfg cur c pkt) (hd : Discarded env pkt) :
    Keeps cfg cur c pkt ⟨true, c, []⟩ := by
  rintro l (⟨x, hx, rfl⟩ | ⟨-, hne⟩)
  · exact Or.inl ⟨x, hx, rfl, hcur.blocks x hx (Or.inr hd.1)⟩
  · exact absurd hd.1 hne

/-- Giving up keeps the data just when the packet takes it along, or the block was clean. -/
theorem givenUp_keeps_iff (hwf : Wf cfg c) (hcur : Current cfg cur c pkt) (hb : c.valid b = true)
    (hline : c.line cfg b = pkt.line) :
    Keeps cfg cur c pkt ⟨false, c.invalidate b, []⟩ ↔
      ¬ (pkt.cmd = .WritebackClean ∧ c.isDirty b = true) := by
  have htrim := invalidate_trimmed hwf.counter hb
  constructor
  · rintro hkeeps ⟨hclean, hdirty⟩
    rcases hkeeps pkt.line (Or.inl ⟨b, hdirty, hline⟩) with
      ⟨x, hx, hxl, -⟩ | ⟨p, hp, -⟩ | ⟨-, hne, -⟩
    · -- a dirty block of the line would be another block of it
      have hvx := (Bool.and_eq_true_iff.mp hx).1
      obtain ⟨hv, hne⟩ := (htrim.valid x).mp hvx
      have hxl' : (c.invalidate b).line cfg x = pkt.line := hxl
      rw [htrim.line hvx, ← hline] at hxl'
      exact hne (hwf.unique x b hv hb hxl')
    · exact absurd hp not_mem_nil
    · exact hne hclean
  · intro hsafe l hl
    by_cases hcmd : l = pkt.line ∧ pkt.cmd ≠ .WritebackClean
    · exact Or.inr (Or.inr ⟨hcmd.1, hcmd.2, rfl⟩)
    · obtain ⟨x, hx, rfl⟩ := hl.resolve_right hcmd
      have hvx := (Bool.and_eq_true_iff.mp hx).1
      have hne : x ≠ b := by
        rintro rfl
        by_cases hclean : pkt.cmd = .WritebackClean
        · exact hsafe ⟨hclean, hx⟩
        · exact hcmd ⟨hline, hclean⟩
      have hvx' := (htrim.valid x).mpr ⟨hvx, hne⟩
      refine Or.inl ⟨x, by rw [htrim.isDirty hvx']; exact hx, htrim.line hvx', ?_⟩
      show ((c.invalidate b).rest x).data = _
      rw [htrim.rest x hvx']
      refine hcur.blocks x hx ?_
      by_cases hclean : pkt.cmd = .WritebackClean
      · exact Or.inr hclean
      · exact Or.inl fun h => hcmd ⟨h, hclean⟩

/-- The valid blocks after the update. -/
theorem done_valid (htrim : Trimmed c c₁ fun x => x ∈ evict) (hs : Settled c₁ s b v)
    (x : BlkId m n) : s.valid x = true ↔ x = v ∨ c.valid x = true ∧ x ∉ evict ∧ x ≠ b := by
  rw [hs.valid, htrim.valid, and_assoc]

/-- A block that stays is not in the place of the block moved. -/
theorem done_other (htrim : Trimmed c c₁ fun x => x ∈ evict) (hs : Settled c₁ s b v)
    {x : BlkId m n} (hx : c.valid x = true) (hne : x ≠ b) (hstay : x ∉ evict) : x ≠ v := by
  rintro rfl
  exact hne (hs.fresh ((htrim.valid x).mpr ⟨hx, hstay⟩))

theorem write_rest (s : Cache α m n) (v : BlkId m n) (pkt : Packet α n) :
    ((s.write v pkt).rest v).dirty = ((s.rest v).dirty || decide (pkt.cmd ≠ .WritebackClean)) ∧
      ((s.write v pkt).rest v).data = pkt.data := by
  unfold Cache.write Cache.setRest
  simp

/-- An update that is done keeps the data of every line. -/
theorem done_keeps (hwf : Wf cfg c) (hcur : Current cfg cur c pkt) (hb : c.valid b = true)
    (hline : c.line cfg b = pkt.line) (hmem : b ∉ evict)
    (htrim : Trimmed c c₁ fun x => x ∈ evict) {wbs : List (Packet α n)}
    (hpkts : ∀ e ∈ evict, c.isDirty e = true → ∃ p ∈ wbs, p.cmd = .WritebackDirty ∧
      p.line = c.line cfg e ∧ p.data = (c.rest e).data)
    (hs : Settled c₁ s b v) (hplace : s.line cfg v = pkt.line) (size : Nat) :
    Keeps cfg cur c pkt ⟨true, (s.setSize cfg v size).write v pkt, wbs⟩ := by
  intro l hl
  obtain ⟨f, hf⟩ : ∃ f : Cache α m n, f = (s.setSize cfg v size).write v pkt := ⟨_, rfl⟩
  rw [← hf]
  have hfvalid : ∀ x, f.valid x = s.valid x := by
    intro x
    rw [hf]
    exact setSize_valid cfg s v x size
  have hfline : ∀ x, f.line cfg x = s.line cfg x := by
    intro x
    rw [hf]
    exact setSize_line cfg s v x size
  by_cases hlp : l = pkt.line
  · subst hlp
    refine Or.inl ⟨v, ?_, (hfline v).trans hplace, ?_⟩
    · have hdirty : (f.rest v).dirty = ((s.rest v).dirty || decide (pkt.cmd ≠ .WritebackClean)) := by
        rw [hf]
        exact (write_rest _ v pkt).1
      show (f.valid v && (f.rest v).dirty) = true
      rw [hfvalid, (hs.valid v).mpr (Or.inl rfl), hdirty, Bool.true_and]
      by_cases hclean : pkt.cmd = .WritebackClean
      · -- a clean writeback leaves the dirty bit, and the block brought it along
        obtain ⟨x, hx, hxl⟩ := hl.resolve_right fun h => h.2 hclean
        obtain ⟨hvx, hdx⟩ := Bool.and_eq_true_iff.mp hx
        obtain rfl := hwf.unique x b hvx hb (hxl.trans hline.symm)
        have hv₁ := (htrim.valid x).mpr ⟨hvx, hmem⟩
        rw [hs.dirty (by rw [htrim.rest x hv₁]; exact hdx)]
        rfl
      · simp [hclean]
    · have hdata : (f.rest v).data = pkt.data := by
        rw [hf]
        exact (write_rest _ v pkt).2
      exact hdata.trans hcur.packet
  · obtain ⟨x, hx, rfl⟩ := hl.resolve_right fun h => hlp h.1
    have hvx := (Bool.and_eq_true_iff.mp hx).1
    have hdata := hcur.blocks x hx (Or.inl hlp)
    have hne : x ≠ b := fun h => hlp (h ▸ hline)
    by_cases hgone : x ∈ evict
    · obtain ⟨p, hp, hcmd, hpl, hpd⟩ := hpkts x hgone hx
      exact Or.inr (Or.inl ⟨p, hp, hcmd, hpl, hpd.trans hdata⟩)
    · have hxv := done_other htrim hs hvx hne hgone
      have hv₁ := (htrim.valid x).mpr ⟨hvx, hgone⟩
      have hsx : s.valid x = true := (done_valid htrim hs x).mpr (Or.inr ⟨hvx, hgone, hne⟩)
      have hrest : f.rest x = c.rest x := by
        rw [hf]
        refine (update_of_ne hxv _ _).trans ?_
        show s.rest x = _
        rw [hs.rest x hsx hxv, htrim.rest x hv₁]
      refine Or.inl ⟨x, ?_, ?_, by rw [hrest]; exact hdata⟩
      · show (f.valid x && (f.rest x).dirty) = true
        rw [hfvalid, hsx, hrest, Bool.true_and]
        exact (Bool.and_eq_true_iff.mp hx).2
      · obtain ⟨ht, hsec, -⟩ := hs.super x hv₁ hne
        rw [hfline, Cache.line, ht, hsec]
        exact htrim.line hv₁

/-- In its new place the block has the address it had. -/
theorem done_line (hb : c.valid b = true) (hmem : b ∉ evict)
    (htrim : Trimmed c c₁ fun x => x ∈ evict) (hs : Settled c₁ s b v)
    (hline : c.line cfg b = pkt.line)
    (htag : (c.tags b.1).tag = cfg.ix.extractTag pkt.line.sector) (hoffset : v.2 = b.2)
    (hv : v.1 ∈ cfg.ix.getPossibleEntries pkt.line.sector) : s.line cfg v = pkt.line := by
  obtain ⟨ht, hsec⟩ := hs.place
  obtain ⟨ht₁, hsec₁, -⟩ := htrim.super b ((htrim.valid b).mpr ⟨hb, hmem⟩)
  have hsector : cfg.ix.regenerateAddr (c.tags b.1).tag v.1 = (c.line cfg b).sector := by
    rw [htag, cfg.ix.regenerate_extract _ _ hv, hline]
  rw [← hline, Cache.line, ht, hsec, ht₁, hsec₁, hoffset, hsector]
  rfl

/-! ### The sizes -/

/-- Two valid blocks of a superblock are counted. -/
theorem two_counted (hcount : ∀ i, (s.tags i).validCounter = (validBlks (s.tags i)).card)
    {x : BlkId m n} (hx : s.valid x = true) (hv : s.valid v = true) (hne : x ≠ v)
    (hi : x.1 = v.1) : ¬ (s.tags v.1).validCounter ≤ 1 := by
  have hcard : 1 < (validBlks (s.tags v.1)).card :=
    Finset.one_lt_card.mpr ⟨x.2, mem_validBlks.mpr (hi ▸ hx), v.2, mem_validBlks.mpr hv,
      fun h => hne (Prod.ext hi h)⟩
  rw [hcount]
  omega

/-- A block that stays keeps the factor of its superblock. -/
theorem done_factor (htrim : Trimmed c c₁ fun x => x ∈ evict) (hs : Settled c₁ s b v)
    {x : BlkId m n} (hx : c.valid x = true) (hne : x ≠ b) (hstay : x ∉ evict) (size : Nat) :
    ((s.setSize cfg v size).tags x.1).compressionFactor = (c.tags x.1).compressionFactor := by
  have hx₁ := (htrim.valid x).mpr ⟨hx, hstay⟩
  have hold : (s.tags x.1).compressionFactor = (c.tags x.1).compressionFactor :=
    (hs.super x hx₁ hne).2.2.trans (htrim.super x hx₁).2.2
  rw [setSize_tags]
  split
  · next hi =>
    have hsx := (done_valid htrim hs x).mpr (Or.inr ⟨hx, hstay, hne⟩)
    have hsv := (hs.valid v).mpr (Or.inl rfl)
    rw [(setSizeBits_spec ..).2.2.2.2,
      if_neg (two_counted hs.counter hsx hsv (done_other htrim hs hx hne hstay) hi), ← hi, hold]
  · exact hold

theorem done_size (cfg : Config α m) (htrim : Trimmed c c₁ fun x => x ∈ evict)
    (hs : Settled c₁ s b v) (x : BlkId m n) (size : Nat) :
    (((s.setSize cfg v size).tags x.1).blks x.2).size =
      if x = v then size else ((c.tags x.1).blks x.2).size := by
  rw [setSize_tags]
  by_cases hxv : x = v
  · subst hxv
    rw [if_pos rfl, if_pos rfl, (setSizeBits_spec ..).2.1, if_pos rfl]
  · have hold : ((s.tags x.1).blks x.2).size = ((c.tags x.1).blks x.2).size :=
      (hs.size x hxv).trans (htrim.size x)
    rw [if_neg hxv, ← hold]
    split
    · next hi =>
      rw [(setSizeBits_spec ..).2.1, if_neg fun hk => hxv (Prod.ext hi hk), hi]
    · rfl

open Classical in
/-- The factor of the superblock the block ends in. -/
theorem done_own_factor (cfg : Config α m) (env : Around m n) (pkt : Packet α n)
    (htrim : Trimmed c c₁ fun x => x ∈ (room cfg c b env pkt).2)
    (hs : Settled c₁ s b (room cfg c b env pkt).1) :
    ((s.setSize cfg (room cfg c b env pkt).1 (cfg.size pkt.data)).tags
        (room cfg c b env pkt).1.1).compressionFactor =
      if Beside cfg c b env pkt then (c.tags (room cfg c b env pkt).1.1).compressionFactor
      else calculateCompressionFactor cfg.blkSize n (cfg.size pkt.data) := by
  by_cases hbeside : Beside cfg c b env pkt
  · rw [if_pos hbeside]
    obtain ⟨x, hne, hstay, hi, hx⟩ := hbeside
    rw [← hi]
    exact done_factor htrim hs hx hne hstay _
  · rw [if_neg hbeside, setSize_tags, if_pos rfl, (setSizeBits_spec ..).2.2.2.2, if_pos]
    -- the block is the only one that is valid
    have hsub : validBlks (s.tags (room cfg c b env pkt).1.1) ⊆ {(room cfg c b env pkt).1.2} := by
      intro k hk
      rw [Finset.mem_singleton]
      have hsk : s.valid ((room cfg c b env pkt).1.1, k) = true := mem_validBlks.mp hk
      rcases (done_valid htrim hs _).mp hsk with h | ⟨hvalid, hstay, hne⟩
      · exact congrArg Prod.snd h
      · exact absurd ⟨_, hne, hstay, rfl, hvalid⟩ hbeside
    rw [hs.counter]
    exact (Finset.card_le_card hsub).trans (Finset.card_singleton _).le

/-- After an update that is done the sizes fit just when the new one has room. -/
theorem done_fits_iff (hfit : ∀ i, FitsFactor cfg.blkSize (c.tags i))
    (htrim : Trimmed c c₁ fun x => x ∈ (room cfg c b env pkt).2)
    (hs : Settled c₁ s b (room cfg c b env pkt).1) :
    (∀ i, FitsFactor cfg.blkSize
      ((s.setSize cfg (room cfg c b env pkt).1 (cfg.size pkt.data)).tags i)) ↔
      Roomy cfg c b env pkt := by
  have hown := done_own_factor cfg env pkt htrim hs
  unfold Roomy
  rw [← hown]
  clear hown
  generalize hv : (room cfg c b env pkt).1 = v at hs ⊢
  generalize (room cfg c b env pkt).2 = evict at htrim
  have hsize := done_size cfg htrim hs
  constructor
  · intro h
    have hsv : (s.setSize cfg v (cfg.size pkt.data)).valid v = true := by
      rw [setSize_valid]
      exact (hs.valid v).mpr (Or.inl rfl)
    have hle := h v.1 v.2 hsv
    rwa [hsize v, if_pos rfl] at hle
  · intro hroomy i k hk
    have hx : s.valid (i, k) = true := by
      rw [← setSize_valid cfg s v (i, k) (cfg.size pkt.data)]
      exact hk
    rw [hsize (i, k)]
    by_cases hxv : (i, k) = v
    · rw [if_pos hxv]
      rw [← hxv] at hroomy
      rw [← hxv]
      exact hroomy
    · obtain ⟨hvalid, hstay, hne⟩ := ((done_valid htrim hs _).mp hx).resolve_left hxv
      rw [if_neg hxv, done_factor htrim hs hvalid hne hstay]
      exact hfit i k hvalid

end ends

/-! ## Every overwrite -/

section main

variable {cfg : Config α m} {c : Cache α m n} {b : BlkId m n} {env : Around m n}
  {pkt : Packet α n} {cur : Line n → α} {r : Result α m n}

/-- Where an access of a resident block ends without a failed assertion, it keeps the data and the
    sizes fit just when the access is safe. -/
theorem overwrite_kept_iff (hwf : Wf cfg c) (hfit : ∀ i, FitsFactor cfg.blkSize (c.tags i))
    (hcur : Current cfg cur c pkt)
    (hvictim : env.getVictim ∈ cfg.ix.getPossibleEntries pkt.line.sector)
    (hfound : c.findBlock cfg pkt.line = some b) (haccess : c.access cfg b env pkt = some r) :
    (Keeps cfg cur c pkt r ∧ ∀ i, FitsFactor cfg.blkSize (r.cache.tags i)) ↔
      Safe cfg c b env pkt := by
  obtain ⟨hentry, hb, hline, htag⟩ := findBlock_spec hfound
  have hsector : (c.line cfg b).sector = pkt.line.sector := by rw [hline]
  obtain ⟨hmem, hoffset, hplace⟩ := room_spec cfg c b env pkt (by rwa [hsector]) (by rwa [hsector])
  rw [hsector] at hplace
  unfold Safe
  rcases access_cases haccess with ⟨hdiscard, rfl⟩ | ⟨hdiscard, hover⟩
  · exact iff_of_true ⟨discarded_keeps hcur hdiscard, hfit⟩ fun h => absurd hdiscard h
  · rw [imp_iff_right hdiscard]
    obtain ⟨⟨done, c', b', wbs⟩, hupdate, hr⟩ := Option.map_eq_some_iff.mp hover
    rcases update_spec hwf.counter hb hmem hupdate with
      ⟨rfl, hblocked, rfl, rfl, rfl⟩ | ⟨rfl, hfree, rfl, c₁, s, htrim, hpkts, hs, rfl⟩
    · -- the update gives up, and the block goes
      obtain rfl := hr
      rw [imp_iff_right hblocked, iff_true_intro fun h => absurd hblocked h, and_true]
      have hfits := (invalidate_trimmed hwf.counter hb).fits hfit
      exact (and_iff_left hfits).trans (givenUp_keeps_iff hwf hcur hb hline)
    · obtain rfl := hr
      rw [imp_iff_right hfree, iff_true_intro fun h => absurd h hfree, true_and]
      have hkeeps := done_keeps hwf hcur hb hline hmem htrim hpkts hs
        (done_line hb hmem htrim hs hline htag hoffset hplace) (cfg.size pkt.data)
      exact (and_iff_right hkeeps).trans (done_fits_iff hfit htrim hs)

end main

/-! ## A cache of two superblocks -/

section crowded

/-- Every address may live in both superblocks; the tag is the address. -/
def skewed : Indexing 2 where
  getPossibleEntries a := if a < 2 ^ 64 then [0, 1] else []
  extractTag a := BitVec.ofNat 64 a
  regenerateAddr tag _ := tag.toNat
  regenerate_extract := by
    intro a i hi
    by_cases ha : a < 2 ^ 64
    · exact BitVec.toNat_ofNat a 64 |>.trans (Nat.mod_eq_of_lt ha)
    · rw [if_neg ha] at hi
      exact absurd hi not_mem_nil

/-- The data of a block is its compressed size. -/
def skewedCache : Config Nat 2 := ⟨skewed, 64, id, true, true, false, true⟩

/-- A block of 200 bits has set the factor of the first superblock to two, and a dirty block of 100
    bits is beside it; the second holds a block of another sector. -/
def crowded : Cache Nat 2 4 where
  tags := ![{ tag := 0x40, blks := ![⟨true, 200, true⟩, ⟨true, 100, true⟩, {}, {}],
              validCounter := 2, compressionFactor := 2 },
            { tag := 0x80, blks := ![⟨true, 120, true⟩, {}, {}, {}],
              validCounter := 1, compressionFactor := 4 }]
  rest b := ⟨b = (0, 1), b = (0, 1), if b = (0, 0) then 200 else if b = (0, 1) then 100 else 120⟩

/-- The size of each line. -/
def current (l : Line 4) : Nat := if l = ⟨0x40, 0, false⟩ then 200 else if l.sector = 0x40 then 100
  else 120

/-- The second superblock is to go, and its block waits for an upgrade. -/
def upgradePending : Around 2 4 where
  mshr l := if l = ⟨0x80, 0, false⟩ then some ⟨true, false⟩ else none
  writeBuffer _ := none
  getVictim := 1

/-- The block of 100 bits comes back from above with the data it has here. -/
def cameBack (cmd : MemCmd) : Packet Nat 4 := ⟨cmd, ⟨0x40, 1, false⟩, 100, false⟩

theorem crowded_wf : Wf skewedCache crowded := ⟨by decide, by decide⟩

theorem crowded_fits : ∀ i, FitsFactor skewedCache.blkSize (crowded.tags i) := by decide

theorem crowded_current (cmd : MemCmd) : Current skewedCache current crowded (cameBack cmd) := by
  refine ⟨rfl, ?_⟩
  have hall : ∀ x, crowded.isDirty x = true →
      (crowded.rest x).data = current (crowded.line skewedCache x) := by decide
  exact fun x hx _ => hall x hx

/-- A clean writeback to the dirty block: its size asks for a larger factor, the block that is to go
    is waiting, and the cache gives up the dirty block with nothing written back. -/
theorem dirty_given_up :
    Wf skewedCache crowded ∧ (∀ i, FitsFactor skewedCache.blkSize (crowded.tags i)) ∧
      Current skewedCache current crowded (cameBack .WritebackClean) ∧
      upgradePending.getVictim ∈ skewedCache.ix.getPossibleEntries 0x40 ∧
      crowded.findBlock skewedCache ⟨0x40, 1, false⟩ = some (0, 1) ∧
      crowded.isDirty (0, 1) = true ∧
      crowded.access skewedCache (0, 1) upgradePending (cameBack .WritebackClean) =
        some ⟨false, crowded.invalidate (0, 1), []⟩ ∧
      ¬ Keeps skewedCache current crowded (cameBack .WritebackClean)
        ⟨false, crowded.invalidate (0, 1), []⟩ := by
  refine ⟨crowded_wf, crowded_fits, crowded_current _, by decide, by decide, by decide, rfl, ?_⟩
  rw [givenUp_keeps_iff crowded_wf (crowded_current _) (by decide) (by decide)]
  exact fun h => h ⟨rfl, by decide⟩

/-- With nothing waiting the block is moved, and its data stays. -/
theorem moved_kept :
    let env : Around 2 4 := { upgradePending with mshr := fun _ => none }
    ∃ r, crowded.access skewedCache (0, 1) env (cameBack .WritebackDirty) = some r ∧
      Keeps skewedCache current crowded (cameBack .WritebackDirty) r ∧
      ∀ i, FitsFactor skewedCache.blkSize (r.cache.tags i) := by
  intro env
  have hsome : (crowded.access skewedCache (0, 1) env (cameBack .WritebackDirty)).isSome = true := by
    decide
  obtain ⟨r, hr⟩ := Option.isSome_iff_exists.mp hsome
  refine ⟨r, hr, (overwrite_kept_iff crowded_wf crowded_fits (crowded_current _) (by decide)
    (by decide) hr).mpr fun _ => ⟨?_, fun _ => ?_⟩⟩
  · rintro - ⟨hclean, -⟩
    cases hclean
  · unfold Roomy
    split
    · decide
    · decide

end crowded

end Gem5Dvr.Compressed.Overwrite
