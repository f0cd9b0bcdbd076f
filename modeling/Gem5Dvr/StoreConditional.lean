/-
  Load-locked and store-conditional on a cache block (`mem/cache/cache_blk.hh` 116-216, 332-461,
  `mem/cache/base.cc` 898-974, 1215-1306).

    1. The functions of the source: `Lock`, the three helpers that edit `lockList`, the move of a
       block, `cmpAndSwap` and `satisfyRequest`.  A failed assertion leaves no result.
    2. `Run`: the requests on one block, with its insertions, moves and invalidations; the log keeps
       what each did and the bytes before and after, the newest first.
    3. Three invariants: the locks are disjoint (`Disjoint`); each lock is an undisturbed
       load-locked (`Founded`); each undisturbed load-locked that no later one displaced is a lock
       (`Kept`).

  The crux is what disturbs.  A store clears the locks of other contexts that its REQUEST meets, also
  where the byte enable masks every byte of the lock; an atomic operation and a compare-and-swap
  change the bytes and leave `lockList` as it is.  So a lock is founded on the strict reading
  (`Changes`: nobody else wrote to a range that meets it), and a load-locked is kept on the loose one
  (`Alters`: nobody else gave one of its bytes another value), where the steps meet `Heeds`.

  Addresses do not wrap inside a block.
-/
import Mathlib.Data.List.Basic
import Gem5Dvr.Lib.Trace

namespace Gem5Dvr.StoreConditional

open List

/-! ## The functions of the source -/

/-- A byte. -/
abbrev Byte := BitVec 8

/-- Who asks, and for which bytes. -/
structure Request where
  contextId : Nat
  paddr : Nat
  size : Nat
  size_pos : 0 < size

/-- The last byte of a request. -/
def Request.high (req : Request) : Nat := req.paddr + req.size - 1

/-- The range that a context has load-locked. -/
structure Lock where
  contextId : Nat
  lowAddr : Nat
  highAddr : Nat
  deriving DecidableEq

namespace Lock

/-- The constructor `Lock(req)`. -/
def ofRequest (req : Request) : Lock := ⟨req.contextId, req.paddr, req.high⟩

/-- `matches`. -/
def matchesReq (l : Lock) (req : Request) : Bool :=
  l.contextId == req.contextId && decide (req.paddr ≥ l.lowAddr) && decide (req.high ≤ l.highAddr)

/-- The lock and the request share a byte. -/
def intersects (l : Lock) (req : Request) : Bool :=
  decide (req.paddr ≤ l.highAddr) && decide (req.high ≥ l.lowAddr)

end Lock

/-- The commands of a request packet.  `AtomicOp` and `CondSwap` are the two kinds of `SwapReq`, the
    second with the value to write and, for a conditional swap, the extra data to compare with. -/
inductive Cmd where
  | LoadLockedReq
  | ReadReq
  | StoreCondReq (bytes : Nat → Byte)
  | WriteReq (bytes : Nat → Byte) (byteEnable : Nat → Bool)
  | AtomicOp (op : (Nat → Byte) → Nat → Byte)
  | CondSwap (bytes : Nat → Byte) (extraData : Option (BitVec 64))
  | UpgradeReq (hasSharers : Bool)
  | CleanReq
  | InvalidateReq

/-- A packet. -/
structure Packet where
  cmd : Cmd
  req : Request

/-- The block may be written. -/
def WritableBit : BitVec 4 := 0x2#4
/-- The block was written. -/
def DirtyBit : BitVec 4 := 0x8#4

/-- A block and its locks. -/
structure CacheBlk where
  valid : Bool
  addr : Nat
  coherence : BitVec 4
  lockList : List Lock
  data : Nat → Byte

namespace CacheBlk

variable (blk : CacheBlk)

/-- The block is free, without locks. -/
def invalidate : CacheBlk := { blk with valid := false, coherence := 0, lockList := [] }

/-- Set some bits. -/
def setCoherenceBits (bits : BitVec 4) : CacheBlk :=
  { blk with coherence := blk.coherence ||| bits }

/-- Clear some bits. -/
def clearCoherenceBits (bits : BitVec 4) : CacheBlk :=
  { blk with coherence := blk.coherence &&& ~~~ bits }

/-- One of the bits is set. -/
def isSet (bits : BitVec 4) : Bool := blk.valid && blk.coherence &&& bits != 0

/-- `insert`, with the coherence bits and the data of the fill. -/
def insert (addr : Nat) (coherence : BitVec 4) (data : Nat → Byte) : Option CacheBlk :=
  if blk.valid then none
  else some { blk with valid := true, addr, coherence := blk.coherence ||| coherence, data }

/-- The move assignment: both entries afterwards. -/
def assign (other : CacheBlk) : Option (CacheBlk × CacheBlk) :=
  if blk.valid = false ∧ other.valid = true then
    some ({ blk with
        valid := true
        addr := other.addr
        coherence := blk.coherence ||| other.coherence
        lockList := other.lockList },
      { other with lockList := blk.lockList }.invalidate)
  else none

/-- A lock in place of those that it meets. -/
def trackLoadLocked (req : Request) : CacheBlk :=
  { blk with
    lockList := Lock.ofRequest req :: blk.lockList.filter fun l => !l.intersects req }

/-- Another context's locks that the request meets go. -/
def clearLoadLocks (req : Request) : CacheBlk :=
  { blk with
    lockList := blk.lockList.filter fun l => !(l.intersects req && l.contextId != req.contextId) }

/-- `checkWrite`: the extra data it sets, and whether the write proceeds.  A store-conditional uses
    up the first lock that matches. -/
def checkWrite (isLLSC : Bool) (req : Request) : CacheBlk × Option Bool × Bool :=
  if !isLLSC && blk.lockList.isEmpty then (blk, none, true)
  else if isLLSC then
    let success := blk.lockList.any fun l => l.matchesReq req
    ({ blk with lockList := blk.lockList.eraseP fun l => l.matchesReq req }.clearLoadLocks req,
      some success, success)
  else (blk.clearLoadLocks req, none, true)

end CacheBlk

/-- What a request gets back, and whether it wrote its bytes. -/
structure Response where
  extraData : Option Bool := none
  data : List Byte := []
  wrote : Bool := false
  deriving DecidableEq

variable (blkSize : Nat)

/-- The place in the block. -/
def getOffset (req : Request) : Nat := req.paddr % blkSize

/-- The bytes of the block a request reads. -/
def readData (blk : CacheBlk) (req : Request) : List Byte :=
  (List.range req.size).map fun i => blk.data (getOffset blkSize req + i)

/-- The block with byte `i` of the request replaced by `bytes i` where `enabled i`. -/
def writeData (blk : CacheBlk) (req : Request) (bytes : Nat → Byte) (enabled : Nat → Bool) :
    CacheBlk :=
  { blk with
    data := fun o =>
      if getOffset blkSize req ≤ o ∧ o < getOffset blkSize req + req.size ∧
          enabled (o - getOffset blkSize req) then
        bytes (o - getOffset blkSize req)
      else blk.data o }

/-- `memcmp` of the extra data, the lowest byte first, and the block. -/
def sameBytes (blk : CacheBlk) (req : Request) (extraData : BitVec 64) : Bool :=
  (List.range req.size).all fun i =>
    extraData.extractLsb' (8 * i) 8 == blk.data (getOffset blkSize req + i)

/-- `overwrite_mem`, for the sizes there are. -/
def overwrites (blk : CacheBlk) (req : Request) : Option (BitVec 64) → Option Bool
  | none => some true
  | some extraData =>
    if req.size = 8 ∨ req.size = 4 then some (sameBytes blkSize blk req extraData) else none

/-- A swap, if its comparison holds. -/
def cmpAndSwap (blk : CacheBlk) (req : Request) (bytes : Nat → Byte)
    (extraData : Option (BitVec 64)) : Option (CacheBlk × Response) :=
  if req.size ≤ 8 then
    (overwrites blkSize blk req extraData).map fun overwrite_mem =>
      (if overwrite_mem then
        (writeData blkSize blk req bytes fun _ => true).setCoherenceBits DirtyBit
      else blk, { data := readData blkSize blk req, wrote := overwrite_mem })
  else none

/-- The branch of a write. -/
def performWrite (blk : CacheBlk) (req : Request) (isLLSC : Bool) (bytes : Nat → Byte)
    (enabled : Nat → Bool) : Option (CacheBlk × Response) :=
  if blk.isSet WritableBit then
    let (blk', extraData, proceed) := blk.checkWrite isLLSC req
    some ((if proceed then writeData blkSize blk' req bytes enabled else blk').setCoherenceBits
      DirtyBit, { extraData, wrote := proceed })
  else none

/-- The branches of `satisfyRequest`. -/
def perform (blk : CacheBlk) (req : Request) : Cmd → Option (CacheBlk × Response)
  | .AtomicOp op =>
    some ((writeData blkSize blk req (op fun i => blk.data (getOffset blkSize req + i))
        fun _ => true).setCoherenceBits DirtyBit,
      { data := readData blkSize blk req, wrote := true })
  | .CondSwap bytes extraData => cmpAndSwap blkSize blk req bytes extraData
  | .StoreCondReq bytes => performWrite blkSize blk req true bytes fun _ => true
  | .WriteReq bytes byteEnable => performWrite blkSize blk req false bytes byteEnable
  | .LoadLockedReq => some (blk.trackLoadLocked req, { data := readData blkSize blk req })
  | .ReadReq => some (blk, { data := readData blkSize blk req })
  | .UpgradeReq hasSharers =>
    if hasSharers then none
    else some (if blk.isSet DirtyBit then blk.clearCoherenceBits DirtyBit else blk, {})
  | .CleanReq => some (blk.clearCoherenceBits DirtyBit, {})
  | .InvalidateReq => some (blk.invalidate, {})

/-- `satisfyRequest` on the block that holds the address. -/
def satisfyRequest (blk : CacheBlk) (pkt : Packet) : Option (CacheBlk × Response) :=
  if blk.valid = true ∧ pkt.req.paddr - getOffset blkSize pkt.req = blk.addr ∧
      getOffset blkSize pkt.req + pkt.req.size ≤ blkSize then
    perform blkSize blk pkt.req pkt.cmd
  else none

/-! ## The requests on one block -/

/-- What happens to the block. -/
inductive Event where
  | satisfyRequest (pkt : Packet)
  | insert (addr : Nat) (coherence : BitVec 4) (data : Nat → Byte)
  | move (data : Nat → Byte)
  | setCoherenceBits (bits : BitVec 4)
  | clearCoherenceBits (bits : BitVec 4)
  | invalidate

/-- What an event did, and the bytes of the block before and after it. -/
structure Entry where
  event : Event
  response : Response := {}
  before : Nat → Byte
  after : Nat → Byte

/-- The block, and the log of its events. -/
structure Run where
  blk : CacheBlk
  log : List Entry

/-- A block as it is constructed, with some data. -/
def empty (data : Nat → Byte) : CacheBlk where
  valid := false
  addr := 0
  coherence := 0
  lockList := []
  data := data

/-- An event on the block. -/
def step (s : Run) (e : Event) : Option Run :=
  match e with
  | .satisfyRequest pkt => (satisfyRequest blkSize s.blk pkt).map fun (blk, response) =>
      ⟨blk, ⟨e, response, s.blk.data, blk.data⟩ :: s.log⟩
  | .insert addr coherence data =>
    (s.blk.insert addr coherence data).map fun blk => ⟨blk, ⟨e, {}, s.blk.data, blk.data⟩ :: s.log⟩
  | .move data => ((empty data).assign s.blk).map fun (blk, _) =>
      ⟨blk, ⟨e, {}, s.blk.data, blk.data⟩ :: s.log⟩
  | .setCoherenceBits bits =>
    if s.blk.valid then
      some ⟨s.blk.setCoherenceBits bits, ⟨e, {}, s.blk.data, s.blk.data⟩ :: s.log⟩
    else none
  | .clearCoherenceBits bits =>
    some ⟨s.blk.clearCoherenceBits bits, ⟨e, {}, s.blk.data, s.blk.data⟩ :: s.log⟩
  | .invalidate => some ⟨s.blk.invalidate, ⟨e, {}, s.blk.data, s.blk.data⟩ :: s.log⟩

/-! ## What a reservation is -/

/-- The block is lost. -/
def Entry.Invalidates (e : Entry) : Prop :=
  e.event = .invalidate ∨ ∃ req, e.event = .satisfyRequest ⟨.InvalidateReq, req⟩

/-- Another context wrote, with a request that meets the locked range. -/
def Entry.Changes (e : Entry) (l : Lock) : Prop :=
  ∃ pkt, e.event = .satisfyRequest pkt ∧ e.response.wrote = true ∧
    pkt.req.contextId ≠ l.contextId ∧ l.intersects pkt.req = true

/-- Another context's request gave a byte of the locked range another value. -/
def Entry.Alters (e : Entry) (l : Lock) : Prop :=
  ∃ pkt, e.event = .satisfyRequest pkt ∧ pkt.req.contextId ≠ l.contextId ∧
    ∃ a, l.lowAddr ≤ a ∧ a ≤ l.highAddr ∧ e.before (a % blkSize) ≠ e.after (a % blkSize)

/-- A load-locked meets the locked range, or a store-conditional is performed. -/
def Entry.Displaces (e : Entry) (l : Lock) : Prop :=
  (∃ req, e.event = .satisfyRequest ⟨.LoadLockedReq, req⟩ ∧ l.intersects req = true) ∨
  ∃ bytes req, e.event = .satisfyRequest ⟨.StoreCondReq bytes, req⟩

/-- The range `l` was load-locked, and `since` is what came after. -/
def LockedSince (log : List Entry) (l : Lock) (since : List Entry) : Prop :=
  ∃ e before req, log = since ++ e :: before ∧
    e.event = .satisfyRequest ⟨.LoadLockedReq, req⟩ ∧ l = Lock.ofRequest req

/-- The block stayed valid, and no other context wrote where it meets the range. -/
def Undisturbed (l : Lock) (since : List Entry) : Prop :=
  ∀ e ∈ since, ¬ e.Invalidates ∧ ¬ e.Changes l

/-- The block stayed valid, and no other context changed a byte of the range. -/
def Unaltered (l : Lock) (since : List Entry) : Prop :=
  ∀ e ∈ since, ¬ e.Invalidates ∧ ¬ e.Alters blkSize l

/-- No load-locked meets the range and no store-conditional was performed. -/
def Alone (l : Lock) (since : List Entry) : Prop := ∀ e ∈ since, ¬ e.Displaces l

variable {blk : CacheBlk} {req : Request} {l : Lock} {e : Entry} {pkt : Packet}
    {response : Response} {s s' : Run} {lockList : List Lock}

/-! ## What a step does to the locks -/

theorem mem_trackLoadLocked : l ∈ (blk.trackLoadLocked req).lockList ↔
      l = Lock.ofRequest req ∨ l ∈ blk.lockList ∧ l.intersects req = false := by
  simp [CacheBlk.trackLoadLocked]

theorem mem_clearLoadLocks : l ∈ (blk.clearLoadLocks req).lockList ↔
      l ∈ blk.lockList ∧ (l.intersects req = true → l.contextId = req.contextId) := by
  simp only [CacheBlk.clearLoadLocks, mem_filter, Bool.not_eq_true', Bool.and_eq_false_imp,
    bne_eq_false_iff_eq]

/-- Clearing is the same in the common case, where there is nothing to clear. -/
theorem checkWrite_store (blk : CacheBlk) (req : Request) :
    blk.checkWrite false req = (blk.clearLoadLocks req, none, true) := by
  unfold CacheBlk.checkWrite
  by_cases hempty : blk.lockList.isEmpty = true
  · have hnil : blk.lockList = [] := List.isEmpty_iff.mp hempty
    have hsame : blk.clearLoadLocks req = blk := by
      unfold CacheBlk.clearLoadLocks
      rw [hnil, filter_nil, ← hnil]
    rw [if_pos (by simp [hempty]), hsame]
  · rw [if_neg (by simp [hempty]), if_neg (by decide)]

/-- The request changes the data without `checkWrite`. -/
def Swaps (blk : CacheBlk) (pkt : Packet) : Prop :=
  match pkt.cmd with
  | .AtomicOp _ => True
  | .CondSwap _ extraData => overwrites blkSize blk pkt.req extraData = some true
  | _ => False

theorem not_invalidates (hevent : e.event = .satisfyRequest pkt)
    (hcmd : pkt.cmd ≠ .InvalidateReq) : ¬ e.Invalidates := by
  rintro (hinv | ⟨req', hinv⟩)
  · rw [hevent] at hinv
    cases hinv
  · rw [hevent] at hinv
    cases hinv
    exact hcmd rfl

/-- The kinds of steps, by what they do to `lockList`. -/
inductive Effect (s : Run) (e : Entry) (lockList : List Lock) : Prop where
  | loadLocked (req : Request) (hevent : e.event = .satisfyRequest ⟨.LoadLockedReq, req⟩)
      (hwrote : e.response.wrote = false) (hlocks : lockList = (s.blk.trackLoadLocked req).lockList)
  | storeCond (bytes : Nat → Byte) (req : Request)
      (hevent : e.event = .satisfyRequest ⟨.StoreCondReq bytes, req⟩)
      (hlocks : lockList = ({ s.blk with
        lockList := s.blk.lockList.eraseP fun l => l.matchesReq req }.clearLoadLocks req).lockList)
  | store (bytes : Nat → Byte) (byteEnable : Nat → Bool) (req : Request)
      (hevent : e.event = .satisfyRequest ⟨.WriteReq bytes byteEnable, req⟩)
      (hwrote : e.response.wrote = true) (hlocks : lockList = (s.blk.clearLoadLocks req).lockList)
  | swap (pkt : Packet) (hevent : e.event = .satisfyRequest pkt) (hswaps : Swaps blkSize s.blk pkt)
      (hother : ∀ req, pkt ≠ ⟨.LoadLockedReq, req⟩) (hlocks : lockList = s.blk.lockList)
  | invalidate (hinvalid : e.Invalidates) (hlocks : lockList = [])
      (hother : ∀ req, e.event ≠ .satisfyRequest ⟨.LoadLockedReq, req⟩)
  | other (hvalid : ¬ e.Invalidates) (hwrote : e.response.wrote = false)
      (hlocks : lockList = s.blk.lockList)
      (hother : ∀ req, e.event ≠ .satisfyRequest ⟨.LoadLockedReq, req⟩)

variable {blkSize}

theorem performWrite_eq {blk' : CacheBlk} {isLLSC : Bool} {bytes : Nat → Byte}
    {enabled : Nat → Bool}
    (h : performWrite blkSize blk req isLLSC bytes enabled = some (blk', response)) :
    blk'.lockList = (blk.checkWrite isLLSC req).1.lockList ∧
    response.extraData = (blk.checkWrite isLLSC req).2.1 ∧
    response.wrote = (blk.checkWrite isLLSC req).2.2 ∧
    (response.wrote = false → blk'.data = (blk.checkWrite isLLSC req).1.data) := by
  unfold performWrite at h
  by_cases hset : blk.isSet WritableBit = true
  · rw [if_pos hset] at h
    generalize blk.checkWrite isLLSC req = result at h ⊢
    obtain ⟨checked, extraData, proceed⟩ := result
    obtain ⟨rfl, rfl⟩ := Prod.mk.inj (Option.some.inj h)
    cases proceed with
    | true => exact ⟨rfl, rfl, rfl, fun hwrote => by cases hwrote⟩
    | false => exact ⟨rfl, rfl, rfl, fun _ => rfl⟩
  · rw [if_neg hset] at h
    cases h

theorem satisfyRequest_perform {blk' : CacheBlk}
    (h : satisfyRequest blkSize blk pkt = some (blk', response)) :
    perform blkSize blk pkt.req pkt.cmd = some (blk', response) := by
  unfold satisfyRequest at h
  by_cases hhit : blk.valid = true ∧ pkt.req.paddr - getOffset blkSize pkt.req = blk.addr ∧
      getOffset blkSize pkt.req + pkt.req.size ≤ blkSize
  · rwa [if_pos hhit] at h
  · rw [if_neg hhit] at h
    cases h

theorem perform_effect (cmd : Cmd) (h : perform blkSize s.blk req cmd = some (blk, response)) :
    Effect blkSize s ⟨.satisfyRequest ⟨cmd, req⟩, response, s.blk.data, blk.data⟩ blk.lockList := by
  cases cmd with
  | LoadLockedReq =>
    obtain ⟨rfl, rfl⟩ := Prod.mk.inj (Option.some.inj h)
    exact .loadLocked req rfl rfl rfl
  | ReadReq =>
    obtain ⟨rfl, rfl⟩ := Prod.mk.inj (Option.some.inj h)
    exact .other (not_invalidates rfl (by simp)) rfl rfl fun _ hne => by cases hne
  | StoreCondReq bytes =>
    have h : performWrite blkSize s.blk req true bytes (fun _ => true) = some (blk, response) := h
    obtain ⟨hlocks, -, -, -⟩ := performWrite_eq h
    exact .storeCond bytes req rfl hlocks
  | WriteReq bytes byteEnable =>
    have h : performWrite blkSize s.blk req false bytes byteEnable = some (blk, response) := h
    obtain ⟨hlocks, -, hwrote, -⟩ := performWrite_eq h
    rw [checkWrite_store] at hlocks hwrote
    exact .store bytes byteEnable req rfl hwrote hlocks
  | AtomicOp op =>
    obtain ⟨rfl, rfl⟩ := Prod.mk.inj (Option.some.inj h)
    exact .swap ⟨.AtomicOp op, req⟩ rfl trivial (fun _ hne => by cases hne) rfl
  | CondSwap bytes extraData =>
    have h : cmpAndSwap blkSize s.blk req bytes extraData = some (blk, response) := h
    unfold cmpAndSwap at h
    split at h
    · obtain ⟨overwrite_mem, hmem, heq⟩ := Option.map_eq_some_iff.mp h
      obtain ⟨rfl, rfl⟩ := Prod.mk.inj heq
      cases overwrite_mem with
      | true =>
        exact .swap ⟨.CondSwap bytes extraData, req⟩ rfl hmem (fun _ hne => by cases hne) rfl
      | false =>
        exact .other (not_invalidates rfl (by simp)) rfl rfl fun _ hne => by cases hne
    · cases h
  | UpgradeReq hasSharers =>
    have h : (if hasSharers then none else some (if s.blk.isSet DirtyBit then
      s.blk.clearCoherenceBits DirtyBit else s.blk, {})) = some (blk, response) := h
    cases hasSharers with
    | true => cases h
    | false =>
      obtain ⟨rfl, rfl⟩ := Prod.mk.inj (Option.some.inj h)
      refine .other (not_invalidates rfl (by simp)) rfl ?_ fun _ hne => by cases hne
      split
      · rfl
      · rfl
  | CleanReq =>
    obtain ⟨rfl, rfl⟩ := Prod.mk.inj (Option.some.inj h)
    exact .other (not_invalidates rfl (by simp)) rfl rfl fun _ hne => by cases hne
  | InvalidateReq =>
    obtain ⟨rfl, rfl⟩ := Prod.mk.inj (Option.some.inj h)
    exact .invalidate (.inr ⟨req, rfl⟩) rfl fun _ hne => by cases hne

theorem not_invalidates_of_ne {e : Event} (hne : e ≠ .invalidate)
    (hreq : ∀ pkt, e ≠ .satisfyRequest pkt) (before after : Nat → Byte) :
    ¬ Entry.Invalidates ⟨e, response, before, after⟩ := by
  rintro (hinv | ⟨_, hinv⟩)
  · exact hne hinv
  · exact hreq _ hinv

/-- Every step logs its event and has one of the effects. -/
theorem step_effect {e : Event} (h : step blkSize s e = some s') :
    ∃ response, s'.log = ⟨e, response, s.blk.data, s'.blk.data⟩ :: s.log ∧
      Effect blkSize s ⟨e, response, s.blk.data, s'.blk.data⟩ s'.blk.lockList := by
  cases e with
  | satisfyRequest pkt =>
    obtain ⟨⟨blk, response⟩, hreq, rfl⟩ := Option.map_eq_some_iff.mp h
    exact ⟨response, rfl, perform_effect pkt.cmd (satisfyRequest_perform hreq)⟩
  | insert addr coherence data =>
    obtain ⟨blk, hins, rfl⟩ := Option.map_eq_some_iff.mp h
    refine ⟨{}, rfl, .other (not_invalidates_of_ne (by simp) (by simp) _ _) rfl ?_
      fun _ hne => by cases hne⟩
    unfold CacheBlk.insert at hins
    split at hins
    · cases hins
    · cases hins
      rfl
  | move data =>
    obtain ⟨⟨blk, old⟩, hmove, rfl⟩ := Option.map_eq_some_iff.mp h
    refine ⟨{}, rfl, .other (not_invalidates_of_ne (by simp) (by simp) _ _) rfl ?_
      fun _ hne => by cases hne⟩
    unfold CacheBlk.assign at hmove
    split at hmove
    · cases hmove
      rfl
    · cases hmove
  | setCoherenceBits bits =>
    have h : (if s.blk.valid then some _ else none) = some s' := h
    split at h
    · cases h
      exact ⟨{}, rfl, .other (not_invalidates_of_ne (by simp) (by simp) _ _) rfl rfl
      fun _ hne => by cases hne⟩
    · cases h
  | clearCoherenceBits bits =>
    obtain rfl := Option.some.inj h
    exact ⟨{}, rfl, .other (not_invalidates_of_ne (by simp) (by simp) _ _) rfl rfl
      fun _ hne => by cases hne⟩
  | invalidate =>
    obtain rfl := Option.some.inj h
    exact ⟨{}, rfl, .invalidate (.inl rfl) rfl fun _ hne => by cases hne⟩

/-! ## The invariants -/

/-- No two lock ranges share a byte. -/
def Disjoint (blk : CacheBlk) : Prop :=
  blk.lockList.Pairwise fun k l => k.highAddr < l.lowAddr ∨ l.highAddr < k.lowAddr

/-- Every lock is a load-locked that nothing has disturbed since. -/
def Founded (s : Run) : Prop :=
  ∀ l ∈ s.blk.lockList, ∃ since, LockedSince s.log l since ∧ Undisturbed l since

/-- Every load-locked that was neither disturbed nor displaced is a lock, for what counts as a
    disturbance. -/
def Kept (disturbs : Entry → Lock → Prop) (s : Run) : Prop :=
  ∀ l since, LockedSince s.log l since → (∀ e ∈ since, ¬ e.Invalidates ∧ ¬ disturbs e l) →
    Alone l since → l ∈ s.blk.lockList

/-- A swap writes to no byte that another context has locked. -/
def SwapClear (blkSize : Nat) (s : Run) : Event → Prop
  | .satisfyRequest pkt => Swaps blkSize s.blk pkt → ∀ l ∈ s.blk.lockList,
      l.contextId = pkt.req.contextId ∨ l.intersects pkt.req = false
  | _ => True

/-- An ordinary store changes a byte of every lock of another context that its request meets. -/
def StoreAlters (blkSize : Nat) (s : Run) : Event → Prop
  | .satisfyRequest ⟨.WriteReq bytes byteEnable, req⟩ => ∀ l ∈ s.blk.lockList,
      l.contextId = req.contextId ∨ l.intersects req = false ∨
        ∃ i < req.size, l.lowAddr ≤ req.paddr + i ∧ req.paddr + i ≤ l.highAddr ∧
          byteEnable i = true ∧ s.blk.data (getOffset blkSize req + i) ≠ bytes i
  | _ => True

/-- What a step has to meet. -/
def Heeds (blkSize : Nat) (s : Run) (e : Event) : Prop :=
  SwapClear blkSize s e ∧ StoreAlters blkSize s e

theorem intersects_eq_false :
    l.intersects req = false ↔ l.highAddr < req.paddr ∨ req.high < l.lowAddr := by
  simp only [Lock.intersects, Bool.and_eq_false_iff, decide_eq_false_iff_not]
  omega

theorem Effect.disjoint
    (heff : Effect blkSize s e blk.lockList) (h : Disjoint s.blk) : Disjoint blk := by
  unfold Disjoint at h ⊢
  cases heff with
  | loadLocked req _ _ hlocks =>
    rw [hlocks]
    refine pairwise_cons.mpr ⟨fun l hl => ?_, h.sublist filter_sublist⟩
    have hmiss : l.intersects req = false := by simpa using (mem_filter.mp hl).2
    -- the range of the new lock is the request
    have := intersects_eq_false.mp hmiss
    show req.high < l.lowAddr ∨ l.highAddr < req.paddr
    omega
  | storeCond bytes req _ hlocks =>
    rw [hlocks]
    exact h.sublist (filter_sublist.trans eraseP_sublist)
  | store _ _ req _ _ hlocks =>
    rw [hlocks]
    exact h.sublist filter_sublist
  | swap _ _ _ _ hlocks =>
    rw [hlocks]
    exact h
  | invalidate _ hlocks _ =>
    rw [hlocks]
    exact List.Pairwise.nil
  | other _ _ hlocks _ =>
    rw [hlocks]
    exact h

/-- A load-locked that was just performed. -/
theorem LockedSince.nil {log : List Entry}
    (hevent : e.event = .satisfyRequest ⟨.LoadLockedReq, req⟩) :
    LockedSince (e :: log) (Lock.ofRequest req) [] :=
  ⟨e, log, req, rfl, hevent, rfl⟩

/-- A lock that was there stays founded past an entry that does not disturb it. -/
theorem LockedSince.cons {log : List Entry} {l : Lock} {since : List Entry} {e : Entry}
    (h : LockedSince log l since) : LockedSince (e :: log) l (e :: since) := by
  obtain ⟨first, before, req, rfl, hevent, hl⟩ := h
  exact ⟨first, before, req, rfl, hevent, hl⟩

theorem not_changes_of_wrote (h : e.response.wrote = false) : ¬ e.Changes l := by
  rintro ⟨_, _, hwrote, _⟩
  rw [h] at hwrote
  cases hwrote

/-- A context that cleared the locks it meets left only locks that it did not change. -/
theorem not_changes_of_cleared (hevent : e.event = .satisfyRequest pkt)
    (hclear : l.intersects pkt.req = true → l.contextId = pkt.req.contextId) : ¬ e.Changes l := by
  rintro ⟨_, hsame, _, hother, hmeets⟩
  rw [hevent] at hsame
  cases hsame
  exact hother (hclear hmeets).symm

/-- A lock after the step is new, or an old one that the step did not disturb. -/
theorem Effect.old_or_new
    (heff : Effect blkSize s e lockList) (hclear : SwapClear blkSize s e.event)
    (hl : l ∈ lockList) : (∃ req, e.event = .satisfyRequest ⟨.LoadLockedReq, req⟩ ∧
      l = Lock.ofRequest req) ∨ l ∈ s.blk.lockList ∧ ¬ e.Invalidates ∧ ¬ e.Changes l := by
  cases heff with
  | loadLocked req hevent hwrote hlocks =>
    rw [hlocks] at hl
    rcases mem_trackLoadLocked.mp hl with rfl | ⟨hold, _⟩
    · exact .inl ⟨req, hevent, rfl⟩
    · exact .inr ⟨hold, not_invalidates hevent (by simp), not_changes_of_wrote hwrote⟩
  | storeCond bytes req hevent hlocks =>
    rw [hlocks] at hl
    obtain ⟨hold, hmeets⟩ := mem_clearLoadLocks.mp hl
    exact .inr ⟨mem_of_mem_eraseP hold, not_invalidates hevent (by simp),
      not_changes_of_cleared hevent hmeets⟩
  | store bytes byteEnable req hevent _ hlocks =>
    rw [hlocks] at hl
    obtain ⟨hold, hmeets⟩ := mem_clearLoadLocks.mp hl
    exact .inr ⟨hold, not_invalidates hevent (by simp), not_changes_of_cleared hevent hmeets⟩
  | swap pkt hevent hswaps _ hlocks =>
    rw [hlocks] at hl
    -- nothing was cleared: the guard says there was nothing to clear
    rw [hevent] at hclear
    refine .inr ⟨hl, not_invalidates hevent fun hcmd => ?_,
      not_changes_of_cleared hevent fun hmeets => ?_⟩
    · unfold Swaps at hswaps
      rw [hcmd] at hswaps
      exact hswaps
    · rcases hclear hswaps l hl with hsame | hmiss
      · exact hsame
      · rw [hmeets] at hmiss
        cases hmiss
  | invalidate _ hlocks _ =>
    rw [hlocks] at hl
    cases hl
  | other hvalid hwrote hlocks _ =>
    rw [hlocks] at hl
    exact .inr ⟨hl, hvalid, not_changes_of_wrote hwrote⟩

theorem Effect.founded (heff : Effect blkSize s e s'.blk.lockList)
    (hlog : s'.log = e :: s.log) (hclear : SwapClear blkSize s e.event) (h : Founded s) :
    Founded s' := by
  intro l hl
  rw [hlog]
  rcases heff.old_or_new hclear hl with ⟨req, hevent, rfl⟩ | ⟨hold, hvalid, hchanges⟩
  · exact ⟨[], .nil hevent, fun _ hmem => absurd hmem not_mem_nil⟩
  · obtain ⟨since, hsince, hundisturbed⟩ := h l hold
    refine ⟨e :: since, hsince.cons, fun e' hmem => ?_⟩
    rcases mem_cons.mp hmem with rfl | hmem
    · exact ⟨hvalid, hchanges⟩
    · exact hundisturbed e' hmem

/-- What neither clears a lock nor displaces it leaves it. -/
theorem Effect.keeps (heff : Effect blkSize s e lockList) (hl : l ∈ s.blk.lockList)
    (hvalid : ¬ e.Invalidates)
    (hstore : ∀ bytes byteEnable req, e.event = .satisfyRequest ⟨.WriteReq bytes byteEnable, req⟩ →
      e.response.wrote = true → l.intersects req = true → l.contextId = req.contextId)
    (hdisplaces : ¬ e.Displaces l) : l ∈ lockList := by
  cases heff with
  | loadLocked req hevent _ hlocks =>
    rw [hlocks]
    refine mem_trackLoadLocked.mpr (.inr ⟨hl, ?_⟩)
    by_contra hmeets
    exact hdisplaces (.inl ⟨req, hevent, by simpa using hmeets⟩)
  | storeCond bytes req hevent _ => exact absurd (.inr ⟨bytes, req, hevent⟩) hdisplaces
  | store bytes byteEnable req hevent hwrote hlocks =>
    rw [hlocks]
    exact mem_clearLoadLocks.mpr ⟨hl, hstore bytes byteEnable req hevent hwrote⟩
  | swap _ _ _ _ hlocks =>
    rw [hlocks]
    exact hl
  | invalidate hinvalid _ _ => exact absurd hinvalid hvalid
  | other _ _ hlocks _ =>
    rw [hlocks]
    exact hl

/-- A load-locked has its lock at once. -/
theorem Effect.mem_of_loadLocked (heff : Effect blkSize s e lockList)
    (hevent : e.event = .satisfyRequest ⟨.LoadLockedReq, req⟩) : Lock.ofRequest req ∈ lockList := by
  cases heff with
  | loadLocked req' hevent' _ hlocks =>
    rw [hevent] at hevent'
    cases hevent'
    rw [hlocks]
    exact mem_trackLoadLocked.mpr (.inl rfl)
  | storeCond _ _ hevent' _ =>
    rw [hevent] at hevent'
    cases hevent'
  | store _ _ _ hevent' _ _ =>
    rw [hevent] at hevent'
    cases hevent'
  | swap pkt hevent' _ hother _ =>
    rw [hevent] at hevent'
    exact absurd (Event.satisfyRequest.inj hevent').symm (hother req)
  | invalidate _ _ hother => exact absurd hevent (hother req)
  | other _ _ _ hother => exact absurd hevent (hother req)

/-- Where a store disturbs whatever it clears, no load-locked is lost. -/
theorem Effect.kept {disturbs : Entry → Lock → Prop} (heff : Effect blkSize s e s'.blk.lockList)
    (hlog : s'.log = e :: s.log)
    (hstore : ∀ l ∈ s.blk.lockList, ¬ disturbs e l → ∀ bytes byteEnable req,
      e.event = .satisfyRequest ⟨.WriteReq bytes byteEnable, req⟩ → e.response.wrote = true →
        l.intersects req = true → l.contextId = req.contextId)
    (h : Kept disturbs s) : Kept disturbs s' := by
  rintro l since ⟨first, before, req, hsplit, hevent, rfl⟩ hundisturbed halone
  rw [hlog] at hsplit
  cases since with
  | nil =>
    obtain ⟨rfl, -⟩ := List.cons.inj hsplit
    exact heff.mem_of_loadLocked hevent
  | cons e' since =>
    obtain ⟨rfl, hrest⟩ := List.cons.inj hsplit
    have hold : Lock.ofRequest req ∈ s.blk.lockList :=
      h _ since ⟨first, before, req, hrest, hevent, rfl⟩
        (fun x hx => hundisturbed x (mem_cons_of_mem e hx))
        (fun x hx => halone x (mem_cons_of_mem e hx))
    obtain ⟨hvalid, hdisturbs⟩ := hundisturbed e mem_cons_self
    exact heff.keeps hold hvalid (hstore _ hold hdisturbs) (halone e mem_cons_self)

theorem kept_init (disturbs : Entry → Lock → Prop) (data : Nat → Byte) :
    Kept disturbs ⟨empty data, []⟩ := by
  rintro l since ⟨_, _, _, hsplit, _⟩
  simp at hsplit

/-- A store that writes another value to a byte of a lock alters it. -/
theorem alters_of_store {bytes : Nat → Byte} {byteEnable : Nat → Bool} {i : Nat}
    (h : satisfyRequest blkSize s.blk ⟨.WriteReq bytes byteEnable, req⟩ = some (blk, response))
    (hother : req.contextId ≠ l.contextId) (hi : i < req.size) (hlow : l.lowAddr ≤ req.paddr + i)
    (hhigh : req.paddr + i ≤ l.highAddr) (henabled : byteEnable i = true)
    (hvalue : s.blk.data (getOffset blkSize req + i) ≠ bytes i) :
    Entry.Alters blkSize ⟨.satisfyRequest ⟨.WriteReq bytes byteEnable, req⟩, response, s.blk.data,
      blk.data⟩ l := by
  have hfits : getOffset blkSize req + req.size ≤ blkSize := by
    by_contra hout
    unfold satisfyRequest at h
    rw [if_neg fun hhit => hout hhit.2.2] at h
    cases h
  have hoffset : (req.paddr + i) % blkSize = getOffset blkSize req + i := by
    rw [Nat.add_mod, Nat.mod_eq_of_lt (show i < blkSize by omega), Nat.mod_eq_of_lt]
    · rfl
    · exact Nat.lt_of_lt_of_le (Nat.add_lt_add_left hi _) hfits
  have hdata : blk.data (getOffset blkSize req + i) = bytes i := by
    have hwrite : performWrite blkSize s.blk req false bytes byteEnable = some (blk, response) :=
      satisfyRequest_perform h
    unfold performWrite at hwrite
    rw [checkWrite_store] at hwrite
    split at hwrite
    · obtain ⟨rfl, -⟩ := Prod.mk.inj (Option.some.inj hwrite)
      simp [CacheBlk.setCoherenceBits, writeData, hi, henabled]
    · cases hwrite
  refine ⟨_, rfl, hother, req.paddr + i, hlow, hhigh, ?_⟩
  show s.blk.data _ ≠ blk.data _
  rw [hoffset, hdata]
  exact hvalue

/-! ## The store-conditional -/

/-- A lock of the context covers the request, held by a load-locked that nothing disturbed. -/
def Reserved (s : Run) (req : Request) : Prop :=
  ∃ l since, LockedSince s.log l since ∧ l.matchesReq req = true ∧ Undisturbed l since

/-- ... and that no load-locked or store-conditional displaced. -/
def ReservedAlone (s : Run) (req : Request) : Prop :=
  ∃ l since, LockedSince s.log l since ∧ l.matchesReq req = true ∧ Undisturbed l since ∧
    Alone l since

/-- A lock of the context covers the request, held by a load-locked of which no other context changed
    a byte and that no load-locked or store-conditional displaced. -/
def ReservedUnaltered (blkSize : Nat) (s : Run) (req : Request) : Prop :=
  ∃ l since, LockedSince s.log l since ∧ l.matchesReq req = true ∧ Unaltered blkSize l since ∧
    Alone l since

/-- What a store-conditional may report, and what it does when it fails. -/
structure Honest (blkSize : Nat) (s : Run) (bytes : Nat → Byte) (req : Request)
    (blk : CacheBlk) (response : Response) : Prop where
  reports : ∃ success, response.extraData = some success
  sound : response.extraData = some true → Reserved s req
  granted : ReservedUnaltered blkSize s req → response.extraData = some true
  unchanged : response.extraData = some false → blk.data = s.blk.data

/-- The answer is whether a lock matches. -/
theorem storeCond_answer {bytes : Nat → Byte}
    (h : satisfyRequest blkSize s.blk ⟨.StoreCondReq bytes, req⟩ = some (blk, response)) :
    response.extraData = some (s.blk.lockList.any fun l => l.matchesReq req) ∧
    (response.extraData = some false → blk.data = s.blk.data) := by
  have hwrite : performWrite blkSize s.blk req true bytes (fun _ => true) = some (blk, response) :=
    satisfyRequest_perform h
  obtain ⟨-, hextra, hwrote, hdata⟩ := performWrite_eq hwrite
  refine ⟨hextra, fun hfalse => hdata ?_⟩
  rw [hextra] at hfalse
  rw [hwrote]
  exact Option.some.inj hfalse

/-- The state of a run: the block and what the locks stand for. -/
structure Inv (blkSize : Nat) (s : Run) : Prop where
  disjoint : Disjoint s.blk
  founded : Founded s
  kept : Kept (Entry.Alters blkSize) s

theorem Inv.step {e : Event} (h : Inv blkSize s) (hheeds : Heeds blkSize s e)
    (hstep : step blkSize s e = some s') : Inv blkSize s' := by
  obtain ⟨response, hlog, heff⟩ := step_effect hstep
  refine ⟨heff.disjoint h.disjoint, heff.founded hlog hheeds.1 h.founded, heff.kept hlog ?_ h.kept⟩
  -- a store of another context that meets a lock changes one of its bytes
  intro l hl halters bytes byteEnable req hevent _ hmeets
  have hstore : e = .satisfyRequest ⟨.WriteReq bytes byteEnable, req⟩ := hevent
  subst hstore
  by_contra hother
  obtain ⟨⟨blk, response'⟩, hreq, rfl⟩ := Option.map_eq_some_iff.mp hstep
  obtain ⟨hentry, -⟩ := List.cons.inj hlog
  obtain rfl : response' = response := congrArg Entry.response hentry
  rcases hheeds.2 l hl with hsame | hmiss | ⟨i, hi, hlow, hhigh, henabled, hvalue⟩
  · exact hother hsame
  · rw [hmeets] at hmiss
    cases hmiss
  · exact halters (alters_of_store hreq (fun heq => hother heq.symm) hi hlow hhigh henabled hvalue)

theorem inv_init (blkSize : Nat) (data : Nat → Byte) : Inv blkSize ⟨empty data, []⟩ :=
  ⟨List.Pairwise.nil, fun _ hl => absurd hl not_mem_nil, kept_init _ data⟩

/-- Where no swap writes to a range another context has locked, and every store changes a byte of each
    lock of another context that it meets, a store-conditional is honest, and the lock ranges are
    disjoint. -/
theorem store_conditional_honest (data : Nat → Byte) {es : List Event} {s : Run}
    (hheeds : Trace.Obeys (Heeds blkSize) (step blkSize) ⟨empty data, []⟩ es)
    (hrun : Trace.runs (step blkSize) ⟨empty data, []⟩ es = some s) :
    Disjoint s.blk ∧ ∀ bytes req blk response,
      satisfyRequest blkSize s.blk ⟨.StoreCondReq bytes, req⟩ = some (blk, response) →
      Honest blkSize s bytes req blk response := by
  have h := hheeds.invariant (Inv blkSize) (fun _ _ _ hs hok hstep => hs.step hok hstep)
    (inv_init blkSize data) hrun
  refine ⟨h.disjoint, fun bytes req blk response hreq => ?_⟩
  obtain ⟨hanswer, hdata⟩ := storeCond_answer hreq
  refine ⟨⟨_, hanswer⟩, fun hsuccess => ?_, fun hreserved => ?_, hdata⟩
  · rw [hanswer] at hsuccess
    obtain ⟨l, hl, hmatch⟩ := any_eq_true.mp (Option.some.inj hsuccess)
    obtain ⟨since, hsince, hundisturbed⟩ := h.founded l hl
    exact ⟨l, since, hsince, hmatch, hundisturbed⟩
  · obtain ⟨l, since, hsince, hmatch, hunaltered, halone⟩ := hreserved
    rw [hanswer]
    exact congrArg some (any_eq_true.mpr ⟨l, h.kept l since hsince hunaltered halone, hmatch⟩)

/-- Eight bytes at an address. -/
def doubleword (contextId paddr : Nat) : Request := ⟨contextId, paddr, 8, Nat.succ_pos _⟩

/-- Bytes of zero. -/
def zeros : Nat → Byte := fun _ => 0#8

/-- Context 0 locks the first doubleword of the block at 64, context 1 clears one of them, and the
    block moves. -/
def lockAndClear (cleared : Nat) : List Event :=
  [.insert 64 WritableBit zeros, .satisfyRequest ⟨.LoadLockedReq, doubleword 0 64⟩,
    .satisfyRequest ⟨.AtomicOp fun _ => zeros, doubleword 1 cleared⟩, .move zeros]

/-- Context 0 locks the first doubleword, and context 1 stores to it with every byte masked. -/
def lockAndMask : List Event :=
  [.insert 64 WritableBit zeros, .satisfyRequest ⟨.LoadLockedReq, doubleword 0 64⟩,
    .satisfyRequest ⟨.WriteReq zeros fun _ => false, doubleword 1 64⟩]

/-- The second doubleword cleared: the store-conditional of context 0 succeeds, as it has to. -/
theorem lockAndClear_honest : ∃ s blk response,
    Trace.runs (step 64) ⟨empty zeros, []⟩ (lockAndClear 72) = some s ∧
    satisfyRequest 64 s.blk ⟨.StoreCondReq zeros, doubleword 0 64⟩ = some (blk, response) ∧
    Disjoint s.blk ∧ Honest 64 s zeros (doubleword 0 64) blk response := by
  have hheeds : Trace.Obeys (Heeds 64) (step 64) ⟨empty zeros, []⟩ (lockAndClear 72) := by
    refine ⟨⟨trivial, trivial⟩, fun s₁ h₁ => ⟨⟨fun hswaps => hswaps.elim, trivial⟩,
      fun s₂ h₂ => ⟨⟨fun _ l hl => ?_, trivial⟩,
        fun s₃ h₃ => ⟨⟨trivial, trivial⟩, fun _ _ => trivial⟩⟩⟩⟩
    cases h₁
    cases h₂
    obtain rfl := mem_singleton.mp hl
    exact .inr (by decide)
  refine ⟨_, _, _, rfl, rfl, ?_⟩
  obtain ⟨hdisjoint, hhonest⟩ := store_conditional_honest zeros hheeds rfl
  exact ⟨hdisjoint, hhonest _ _ _ _ rfl⟩

/-- The locked doubleword itself cleared: the store-conditional of context 0 succeeds all the
    same. -/
theorem lockAndClear_unsound : ∃ s blk response,
    Trace.runs (step 64) ⟨empty zeros, []⟩ (lockAndClear 64) = some s ∧
    satisfyRequest 64 s.blk ⟨.StoreCondReq zeros, doubleword 0 64⟩ = some (blk, response) ∧
    response.extraData = some true ∧ ¬ Honest 64 s zeros (doubleword 0 64) blk response := by
  refine ⟨_, _, _, rfl, rfl, rfl, fun hhonest => ?_⟩
  obtain ⟨l, since, ⟨first, before, req, hsplit, hevent, rfl⟩, hmatch, hundisturbed⟩ :=
    hhonest.sound rfl
  -- the one load-locked is the third entry from the top, with the swap after it
  match since, hsplit with
  | [], hsplit =>
    obtain ⟨rfl, -⟩ := List.cons.inj hsplit
    cases hevent
  | [_], hsplit =>
    obtain ⟨-, hsplit⟩ := List.cons.inj hsplit
    obtain ⟨rfl, -⟩ := List.cons.inj hsplit
    cases hevent
  | [_, swap], hsplit =>
    obtain ⟨-, hsplit⟩ := List.cons.inj hsplit
    obtain ⟨hswap, hsplit⟩ := List.cons.inj hsplit
    obtain ⟨rfl, -⟩ := List.cons.inj hsplit
    cases hevent
    exact (hundisturbed swap (by simp)).2
      ⟨_, congrArg Entry.event hswap.symm, congrArg (Response.wrote ∘ Entry.response) hswap.symm,
        by decide, by decide⟩
  | [_, _, _], hsplit =>
    obtain ⟨-, hsplit⟩ := List.cons.inj hsplit
    obtain ⟨-, hsplit⟩ := List.cons.inj hsplit
    obtain ⟨-, hsplit⟩ := List.cons.inj hsplit
    obtain ⟨rfl, -⟩ := List.cons.inj hsplit
    cases hevent
  | _ :: _ :: _ :: _ :: rest, hsplit =>
    have hlength := congrArg List.length hsplit
    simp only [length_append, length_cons] at hlength
    have hfour : (4 : Nat) = rest.length + 1 + 1 + 1 + 1 + (before.length + 1) := hlength
    omega

/-- A store with every byte masked writes none. -/
theorem masked_data (blkSize : Nat) (blk : CacheBlk) (req : Request) (bytes : Nat → Byte) :
    (writeData blkSize blk req bytes fun _ => false).data = blk.data := by
  unfold writeData
  simp

/-- Nobody changed a byte of the locked doubleword: the store-conditional of context 0 is refused. -/
theorem lockAndMask_refused : ∃ s blk response,
    Trace.runs (step 64) ⟨empty zeros, []⟩ lockAndMask = some s ∧
    satisfyRequest 64 s.blk ⟨.StoreCondReq zeros, doubleword 0 64⟩ = some (blk, response) ∧
    response.extraData = some false ∧ ¬ Honest 64 s zeros (doubleword 0 64) blk response := by
  refine ⟨_, _, _, rfl, rfl, rfl, fun hhonest => ?_⟩
  refine absurd (hhonest.granted
    ⟨Lock.ofRequest (doubleword 0 64), _, (LockedSince.nil rfl).cons, by decide, ?_, ?_⟩)
    fun hgranted => Bool.false_ne_true (Option.some.inj hgranted)
  · intro e he
    obtain rfl := mem_singleton.mp he
    refine ⟨not_invalidates rfl (by simp), ?_⟩
    rintro ⟨_, _, _, a, _, _, hvalue⟩
    exact hvalue (congrFun (masked_data 64 (empty zeros) (doubleword 1 64) zeros).symm (a % 64))
  · intro e he
    obtain rfl := mem_singleton.mp he
    rintro (⟨_, hevent, _⟩ | ⟨_, _, hevent⟩)
    · cases hevent
    · cases hevent

/-- An atomic operation leaves the lock it breaks, and a masked store clears one it does not touch. -/
theorem store_conditional_not_honest : (∃ s blk response,
      Trace.runs (step 64) ⟨empty zeros, []⟩ (lockAndClear 64) = some s ∧
      satisfyRequest 64 s.blk ⟨.StoreCondReq zeros, doubleword 0 64⟩ = some (blk, response) ∧
      response.extraData = some true ∧ ¬ Honest 64 s zeros (doubleword 0 64) blk response) ∧
    ∃ s blk response,
      Trace.runs (step 64) ⟨empty zeros, []⟩ lockAndMask = some s ∧
      satisfyRequest 64 s.blk ⟨.StoreCondReq zeros, doubleword 0 64⟩ = some (blk, response) ∧
      response.extraData = some false ∧ ¬ Honest 64 s zeros (doubleword 0 64) blk response :=
  ⟨lockAndClear_unsound, lockAndMask_refused⟩

/-! ## Whatever the swaps write -/

/-- No run has two locks on a byte or loses a reservation: a store-conditional succeeds on one that
    nothing disturbed or displaced, and writes nothing where it fails. -/
theorem reservations_kept (data : Nat → Byte) {es : List Event} {s : Run}
    (hrun : Trace.runs (step blkSize) ⟨empty data, []⟩ es = some s) :
    Disjoint s.blk ∧ ∀ bytes req blk response,
      satisfyRequest blkSize s.blk ⟨.StoreCondReq bytes, req⟩ = some (blk, response) →
      (ReservedAlone s req → response.extraData = some true) ∧
        (response.extraData = some false → blk.data = s.blk.data) := by
  have hstep : ∀ (s : Run) (e : Event) (s' : Run), Disjoint s.blk ∧ Kept Entry.Changes s →
      step blkSize s e = some s' → Disjoint s'.blk ∧ Kept Entry.Changes s' := by
    intro s e s' hs hstep
    obtain ⟨response, hlog, heff⟩ := step_effect hstep
    refine ⟨heff.disjoint hs.1, heff.kept hlog ?_ hs.2⟩
    intro l _ hchanges bytes byteEnable req hevent hwrote hmeets
    by_contra hother
    exact hchanges ⟨_, hevent, hwrote, fun heq => hother heq.symm, hmeets⟩
  obtain ⟨hdisjoint, hkept⟩ := Trace.runs_invariant _ hstep
    ⟨(inv_init blkSize data).disjoint, kept_init _ data⟩ hrun
  refine ⟨hdisjoint, fun bytes req blk response hreq => ?_⟩
  obtain ⟨hanswer, hdata⟩ := storeCond_answer hreq
  refine ⟨?_, hdata⟩
  rintro ⟨l, since, hsince, hmatch, hundisturbed, halone⟩
  rw [hanswer]
  exact congrArg some (any_eq_true.mpr ⟨l, hkept l since hsince hundisturbed halone, hmatch⟩)

/-- Beside the swap of context 1, context 0 stores to the doubleword it locked, and context 1, which
    locked nothing, does not. -/
theorem reservations_kept_swap : ∃ s stored granted refused failed,
    Trace.runs (step 64) ⟨empty zeros, []⟩ (lockAndClear 72) = some s ∧
    satisfyRequest 64 s.blk ⟨.StoreCondReq fun _ => 1#8, doubleword 0 64⟩ = some (stored, granted) ∧
    satisfyRequest 64 s.blk ⟨.StoreCondReq fun _ => 1#8, doubleword 1 64⟩ = some (refused, failed) ∧
    Disjoint s.blk ∧ granted.extraData = some true ∧ refused.data = s.blk.data := by
  have hrun : Trace.runs (step 64) ⟨empty zeros, []⟩ (lockAndClear 72) = some _ := rfl
  obtain ⟨hdisjoint, hkept⟩ := reservations_kept zeros hrun
  have hgranted := hkept (fun _ => 1#8) (doubleword 0 64) _ _ rfl
  have hfailed := hkept (fun _ => 1#8) (doubleword 1 64) _ _ rfl
  refine ⟨_, _, _, _, _, hrun, rfl, rfl, hdisjoint, hgranted.1 ?_, hfailed.2 rfl⟩
  refine ⟨Lock.ofRequest (doubleword 0 64), _, (LockedSince.nil rfl).cons.cons, by decide, ?_, ?_⟩
  · intro e he
    rcases mem_cons.mp he with rfl | he
    · refine ⟨not_invalidates_of_ne (by simp) (by simp) _ _, ?_⟩
      rintro ⟨_, hevent, _⟩
      cases hevent
    · obtain rfl := mem_singleton.mp he
      refine ⟨not_invalidates rfl (by simp), ?_⟩
      rintro ⟨_, hevent, _, _, hmeets⟩
      cases hevent
      exact absurd hmeets (by decide)
  · intro e he
    rintro (⟨_, hevent, _⟩ | ⟨_, _, hevent⟩)
    all_goals
      rcases mem_cons.mp he with rfl | he
      · cases hevent
      · obtain rfl := mem_singleton.mp he
        cases hevent

end Gem5Dvr.StoreConditional
