/-
  The queue of a prefetcher (`mem/cache/prefetch/queued.cc` 338-531, `queued.hh`).

    1. The functions of the source over the two lists of deferred packets, with an iterator as the
       position it stands at.
    2. What the queue is for: it is bounded, holds an address once, and is ordered by priority and,
       where priorities are equal, by age (`Good`); and what an `insert` does to it (`Inserts`).
    3. The crux: two positions are one off.  `alreadyInQueue` steps past the entry it found before it
       reads it, and `addToQueue` puts a packet in front of the last entry that is not behind it,
       unless that is the head.  A call does what it should just when neither matters (`Fits`).

  Every call of `insert` takes a number, and the packet it makes keeps it: it tells the age.
-/
import Mathlib.Data.Nat.Notation
import Mathlib.Data.List.Nodup
import Mathlib.Data.List.TakeWhile
import Gem5Dvr.Lib.Ordered
import Gem5Dvr.Lib.Trace

namespace Gem5Dvr.QueuedPrefetcher

open List

/-- `gem5::Addr`. -/
abbrev Addr := BitVec 64

/-! ## The functions of the source -/

/-- Of a `PrefetchInfo`, what the queue reads. -/
structure PrefetchInfo where
  addr : Addr
  secure : Bool := false
  pc : Option Addr := none
  deriving DecidableEq, Repr

/-- The same line, with its security. -/
def PrefetchInfo.sameAddr (a pfi : PrefetchInfo) : Bool :=
  a.addr == pfi.addr && a.secure == pfi.secure

/-- The request of the access that is trained on. -/
structure Request where
  paddr : Addr
  vaddr : Option Addr := none
  contextId : Option Nat := none
  deriving DecidableEq, Repr

/-- The request that translates the address of a prefetch. -/
structure TranslationRequest where
  vaddr : Addr
  size : Nat
  requestorId : Nat
  pc : Option Addr
  contextId : Option Nat
  deriving DecidableEq, Repr

/-- A prefetch: `HardPFReq` of a block. -/
structure Packet where
  addr : Addr
  size : Nat
  requestorId : Nat
  secure : Bool
  pc : Option Addr
  deriving DecidableEq, Repr

/-- `stamp` is the number of the call of `insert` that made it. -/
structure DeferredPacket where
  pfInfo : PrefetchInfo
  tick : Nat := 0
  pkt : Option Packet := none
  priority : Int
  translationRequest : Option TranslationRequest := none
  ongoingTranslation : Bool := false
  stamp : Nat
  deriving DecidableEq, Repr

/-- `addToQueue` panics where a queue of one entry is full. -/
structure Config where
  queueSize : Nat
  two_le : 2 ≤ queueSize
  cacheSnoop : Bool := false
  tagPrefetch : Bool := false
  useVirtualAddresses : Bool := false
  pageBytes : Addr := 4096
  blkSize : Nat := 64
  requestorId : Nat := 0
  /-- `clockPeriod() * latency` -/
  latency : Nat := 1

/-- What a call asks of the cache. -/
structure Cache where
  curTick : Nat := 0
  inCache : Addr → Bool → Bool := fun _ _ => false
  inMissQueue : Addr → Bool → Bool := fun _ _ => false

/-- The two queues. -/
structure Queued where
  pfq : List DeferredPacket := []
  pfqMissingTranslation : List DeferredPacket := []
  inserted : Nat := 0
  deriving DecidableEq, Repr

variable (c : Config)

/-- In one page. -/
def Config.samePage (a b : Addr) : Bool :=
  (a &&& ~~~(c.pageBytes - 1)) == (b &&& ~~~(c.pageBytes - 1))

/-- The packet of a prefetch. -/
def DeferredPacket.createPkt (dpp : DeferredPacket) (paddr : Addr) (t : Nat) : DeferredPacket :=
  { dpp with
    pkt := some
      { addr := paddr
        size := c.blkSize
        requestorId := c.requestorId
        secure := dpp.pfInfo.secure
        pc := if c.tagPrefetch then dpp.pfInfo.pc else none }
    tick := t }

/-- The `for` loop of `alreadyInQueue`: `found`, and where `it` stands.  The step is taken before the
    test, so it stands one past the entry that was found. -/
def findSame (pfi : PrefetchInfo) : List DeferredPacket → Nat → Bool × Nat
  | [], it => (false, it)
  | e :: es, it => if e.pfInfo.sameAddr pfi then (true, it + 1) else findSame pfi es (it + 1)

/-- The `while` loop that moves the entry at `it` towards the head; the argument that decreases is
    `prev` before its step. -/
def moveUp : List DeferredPacket → ℕ → ℕ → List DeferredPacket
  | queue, _, 0 => queue
  | queue, it, prev + 1 =>
    match queue[it]?, queue[prev]? with
    | some a, some b =>
      if b.priority < a.priority then moveUp ((queue.set it b).set prev a) prev prev
      else moveUp queue it prev
    | _, _ => queue

/-- `alreadyInQueue`: its result, and the queue. -/
def alreadyInQueue (queue : List DeferredPacket) (pfi : PrefetchInfo) (priority : Int) :
    Bool × List DeferredPacket :=
  let found := findSame pfi queue 0
  match queue[found.2]? with
  | some e =>
    (found.1, if e.priority < priority then
        moveUp (queue.set found.2 { e with priority := priority }) found.2 found.2
      else queue)
  | none => (found.1, queue)

/-- The search of `addToQueue` for the oldest entry of the lowest priority. -/
def oldest (queue : List DeferredPacket) : Nat → Nat
  | 0 => 0
  | it + 1 =>
    if queue[it]?.map DeferredPacket.priority = queue[it + 1]?.map DeferredPacket.priority then
      oldest queue it
    else it + 1

/-- A full queue gives up an entry. -/
def makeRoom (queue : List DeferredPacket) : List DeferredPacket :=
  if queue.length = c.queueSize then queue.eraseIdx (oldest queue (queue.length - 1)) else queue

/-- The `do` loop: where `it` stands after it. -/
def spot (queue : List DeferredPacket) (dpp : DeferredPacket) : Nat → Nat
  | 0 => 0
  | it + 1 =>
    if it ≠ 0 ∧ (queue[it]?.any fun e => e.priority < dpp.priority) = true then spot queue dpp it
    else it

/-- The position that a packet gets. -/
def place (queue : List DeferredPacket) (dpp : DeferredPacket) : Nat :=
  match queue.getLast? with
  | none => 0
  | some back =>
    if dpp.priority ≤ back.priority then queue.length
    else
      let it := spot queue dpp queue.length
      -- at the head, the new packet may be the new head or not
      if it = 0 ∧ (queue[it]?.any fun e => dpp.priority ≤ e.priority) = true then it + 1 else it

/-- Into the queue, at its priority. -/
def addToQueue (queue : List DeferredPacket) (dpp : DeferredPacket) : List DeferredPacket :=
  let queue := makeRoom c queue
  queue.insertIdx (place queue dpp) dpp

/-- The request of a virtual address. -/
def createPrefetchRequest (addr : Addr) (pfi : PrefetchInfo) (pkt : Request) :
    TranslationRequest where
  vaddr := addr
  size := c.blkSize
  requestorId := c.requestorId
  pc := pfi.pc
  contextId := pkt.contextId

/-- Where the prefetch goes: a physical address, a translation, or nowhere. -/
inductive Target
  | physical (target_paddr : Addr)
  | missing (translation_req : TranslationRequest)
  | none
  deriving DecidableEq, Repr

/-- The address computation of `insert`. -/
def targetOf (pkt : Request) (new_pfi : PrefetchInfo) : Target :=
  let orig_addr := if c.useVirtualAddresses then pkt.vaddr.getD 0 else pkt.paddr
  let positive_stride := orig_addr ≤ new_pfi.addr
  let stride := if positive_stride then new_pfi.addr - orig_addr else orig_addr - new_pfi.addr
  if c.samePage orig_addr new_pfi.addr then
    .physical (if c.useVirtualAddresses then
        if positive_stride then pkt.paddr + stride else pkt.paddr - stride
      else new_pfi.addr)
  else if pkt.contextId.isNone then .none
  else if c.useVirtualAddresses then .missing (createPrefetchRequest c new_pfi.addr new_pfi pkt)
  else
    match pkt.vaddr with
    | some vaddr =>
      let target_vaddr := if positive_stride then vaddr + stride else vaddr - stride
      .missing (createPrefetchRequest c target_vaddr new_pfi pkt)
    | none => .none

/-- The cache has it, or has asked for it. -/
def redundant (cache : Cache) (target_paddr : Addr) (new_pfi : PrefetchInfo) : Bool :=
  c.cacheSnoop && (cache.inCache target_paddr new_pfi.secure ||
    cache.inMissQueue target_paddr new_pfi.secure)

/-- `insert` from the address computation on. -/
def insertNew (s : Queued) (pkt : Request) (new_pfi : PrefetchInfo) (priority : Int)
    (cache : Cache) : Queued :=
  let dpp : DeferredPacket := { pfInfo := new_pfi, priority := priority, stamp := s.inserted }
  match targetOf c pkt new_pfi with
  | .physical target_paddr =>
    if redundant c cache target_paddr new_pfi then s
    else
      { s with
        pfq := addToQueue c s.pfq (dpp.createPkt c target_paddr (cache.curTick + c.latency)) }
  | .missing translation_req =>
    { s with
      pfqMissingTranslation := addToQueue c s.pfqMissingTranslation
        { dpp with translationRequest := some translation_req } }
  | .none => s

/-- `insert`, with `queueFilter`. -/
def insert (s : Queued) (pkt : Request) (new_pfi : PrefetchInfo) (priority : Int) (cache : Cache) :
    Queued :=
  let (found, pfq) := alreadyInQueue s.pfq new_pfi priority
  let s' :=
    if found then { s with pfq := pfq }
    else
      let (missing, pfqMissingTranslation) :=
        alreadyInQueue s.pfqMissingTranslation new_pfi priority
      let s := { s with pfq := pfq, pfqMissingTranslation := pfqMissingTranslation }
      if missing then s else insertNew c s pkt new_pfi priority cache
  { s' with inserted := s.inserted + 1 }

/-- `startTranslation`: it is not answered before the call returns. -/
def DeferredPacket.startTranslation (dp : DeferredPacket) : DeferredPacket :=
  { dp with ongoingTranslation := true }

/-- The head of the second queue asks for its translation. -/
def processMissingTranslations (s : Queued) (max : Nat) : Queued :=
  { s with
    pfqMissingTranslation :=
      (s.pfqMissingTranslation.take max).map DeferredPacket.startTranslation ++
        s.pfqMissingTranslation.drop max }

/-- `getPacket`: the packet, and the queue. -/
def getPacket (s : Queued) : Option Packet × Queued :=
  let s := if s.pfq.isEmpty then processMissingTranslations s c.queueSize else s
  match s.pfq with
  | [] => (none, s)
  | front :: pfq =>
    (front.pkt, processMissingTranslations { s with pfq := pfq } (c.queueSize - pfq.length))

/-! ## The calls -/

/-- The calls. -/
inductive Event
  | insert (pkt : Request) (new_pfi : PrefetchInfo) (priority : Int) (cache : Cache)
  | getPacket

/-- A call. -/
def next (s : Queued) : Event → Queued
  | .insert pkt new_pfi priority cache => insert c s pkt new_pfi priority cache
  | .getPacket => (getPacket c s).2

/-! ## What it is for -/

/-- `a` is taken before `b`. -/
def Ahead (a b : DeferredPacket) : Prop :=
  b.priority < a.priority ∨ a.priority = b.priority ∧ a.stamp < b.stamp

instance (a b : DeferredPacket) : Decidable (Ahead a b) := by unfold Ahead; infer_instance

/-- What tells an entry from the others. -/
def DeferredPacket.key (e : DeferredPacket) : Addr × Bool := (e.pfInfo.addr, e.pfInfo.secure)

structure Good (queue : List DeferredPacket) : Prop where
  bounded : queue.length ≤ c.queueSize
  single : (queue.map DeferredPacket.key).Nodup
  ordered : queue.Pairwise Ahead

/-- The oldest entry of those with the lowest priority. -/
def OldestLowest (queue : List DeferredPacket) (v : DeferredPacket) : Prop :=
  v ∈ queue ∧ ∀ e ∈ queue, v.priority ≤ e.priority ∧ (e.priority = v.priority → v.stamp ≤ e.stamp)

/-- The entry of this address gets the larger of the two priorities. -/
def raise (pfi : PrefetchInfo) (priority : Int) (e : DeferredPacket) : DeferredPacket :=
  if e.pfInfo.sameAddr pfi then { e with priority := max e.priority priority } else e

/-- What an `insert` does to the queue: an address that is in it is raised, and a packet that comes
    to it takes, when it is full, the place of the oldest of the lowest priority. -/
structure Inserts (s : Queued) (after : List DeferredPacket) (pfi : PrefetchInfo)
    (priority : Int) : Prop where
  raised : (∃ e ∈ s.pfq, e.pfInfo.sameAddr pfi = true) → after.Perm (s.pfq.map (raise pfi priority))
  added : ∀ new ∈ after, new.stamp = s.inserted → (s.pfq.length = c.queueSize →
      ∃ v, OldestLowest s.pfq v ∧ after.Perm (new :: s.pfq.erase v)) ∧
    (s.pfq.length ≠ c.queueSize → after.Perm (new :: s.pfq))

/-- A call does what it should. -/
def Right (s : Queued) : Event → Prop
  | .insert pkt pfi priority cache =>
    Good c (insert c s pkt pfi priority cache).pfq ∧
      Inserts c s (insert c s pkt pfi priority cache).pfq pfi priority
  | .getPacket => Good c (getPacket c s).2.pfq

/-! ## When a call does what it should -/

/-- A packet of this priority is the last one, or comes before all but the head. -/
def FitsIn (queue : List DeferredPacket) (priority : Int) : Prop :=
  (∀ back ∈ queue.getLast?, priority ≤ back.priority) ∨ ∀ e ∈ queue.tail, e.priority < priority

instance (queue : List DeferredPacket) (priority : Int) : Decidable (FitsIn queue priority) := by
  unfold FitsIn; infer_instance

/-- An address that is queued is not raised, nor is the entry behind it lower than the new priority;
    and a packet that comes to the queue fits in. -/
def Fits (s : Queued) : Event → Prop
  | .insert pkt pfi priority cache =>
    match s.pfq.dropWhile fun e => !e.pfInfo.sameAddr pfi with
    | e :: behind => priority ≤ e.priority ∧ ∀ n ∈ behind.head?, priority ≤ n.priority
    | [] =>
      match targetOf c pkt pfi with
      | .physical target_paddr =>
        redundant c cache target_paddr pfi = true ∨ FitsIn (makeRoom c s.pfq) priority
      | _ => True
  | .getPacket => True

instance (s : Queued) (e : Event) : Decidable (Fits c s e) := by
  unfold Fits
  split
  · split
    · infer_instance
    · split <;> infer_instance
  · infer_instance

variable {c}

variable {pfi : PrefetchInfo} {queue pre behind : List DeferredPacket} {e dpp : DeferredPacket}
    {priority : Int} {s : Queued} {pkt : Request} {cache : Cache}

/-! ## Keys -/

theorem sameAddr_iff {a : PrefetchInfo} :
    a.sameAddr pfi = true ↔ (a.addr, a.secure) = (pfi.addr, pfi.secure) := by
  simp [PrefetchInfo.sameAddr]

/-- Two entries of one queue with one address are the same. -/
theorem Good.eq_of_same (h : (queue.map DeferredPacket.key).Nodup)
    {a b : DeferredPacket} (ha : a ∈ queue) (hb : b ∈ queue) (hkey : a.key = b.key) : a = b :=
  inj_on_of_nodup_map h ha hb hkey

theorem key_of_same {a b : DeferredPacket}
    (ha : a.pfInfo.sameAddr pfi = true) (hb : b.pfInfo.sameAddr pfi = true) : a.key = b.key :=
  (sameAddr_iff.mp ha).trans (sameAddr_iff.mp hb).symm

@[simp] theorem raise_key (pfi : PrefetchInfo) (priority : Int) (e : DeferredPacket) :
    (raise pfi priority e).key = e.key := by
  unfold raise
  split <;> rfl

/-! ## An address that is queued -/

theorem findSame_none (k : Nat) (h : ∀ e ∈ queue, e.pfInfo.sameAddr pfi = false) :
    findSame pfi queue k = (false, k + queue.length) := by
  induction queue generalizing k with
  | nil => rfl
  | cons e es ih =>
    have he : e.pfInfo.sameAddr pfi = false := h e mem_cons_self
    rw [findSame, he, if_neg Bool.false_ne_true,
      ih (k + 1) fun e' he' => h e' (mem_cons_of_mem e he'), length_cons]
    congr 1
    omega

theorem findSame_some (k : Nat) (hpre : ∀ e ∈ pre, e.pfInfo.sameAddr pfi = false)
    (he : e.pfInfo.sameAddr pfi = true) :
    findSame pfi (pre ++ e :: behind) k = (true, k + pre.length + 1) := by
  induction pre generalizing k with
  | nil =>
    rw [nil_append, findSame, if_pos he]
    rfl
  | cons a pre ih =>
    have ha : a.pfInfo.sameAddr pfi = false := hpre a mem_cons_self
    rw [cons_append, findSame, ha, if_neg Bool.false_ne_true,
      ih (k + 1) fun e' he' => hpre e' (mem_cons_of_mem a he'), length_cons]
    congr 1
    omega

theorem alreadyInQueue_none (priority : Int) (h : ∀ e ∈ queue, e.pfInfo.sameAddr pfi = false) :
    alreadyInQueue queue pfi priority = (false, queue) := by
  have hnone : queue[queue.length]? = none := getElem?_eq_none (Nat.le_refl _)
  unfold alreadyInQueue
  rw [findSame_none 0 h]
  simp only [Nat.zero_add, hnone]

/-- The entry that is read is the one behind the entry that was found. -/
theorem alreadyInQueue_some (priority : Int) (hpre : ∀ e ∈ pre, e.pfInfo.sameAddr pfi = false)
    (he : e.pfInfo.sameAddr pfi = true) :
    alreadyInQueue (pre ++ e :: behind) pfi priority = (true,
      match behind with
      | [] => pre ++ [e]
      | n :: rest =>
        if n.priority < priority then
          moveUp (pre ++ e :: { n with priority := priority } :: rest) (pre.length + 1)
            (pre.length + 1)
        else pre ++ e :: n :: rest) := by
  have hsplit : ∀ l : List DeferredPacket, pre ++ e :: l = (pre ++ [e]) ++ l := by simp
  have hlen : (pre ++ [e]).length = pre.length + 1 := by simp
  unfold alreadyInQueue
  rw [findSame_some 0 hpre he, Nat.zero_add]
  cases behind with
  | nil =>
    have hnone : (pre ++ [e])[pre.length + 1]? = none := getElem?_eq_none (Nat.le_of_eq hlen)
    simp only [hnone]
  | cons n rest =>
    have hn : (pre ++ e :: n :: rest)[pre.length + 1]? = some n := by
      rw [hsplit, ← hlen, getElem?_append_right (Nat.le_refl _), Nat.sub_self]
      rfl
    have hset : (pre ++ e :: n :: rest).set (pre.length + 1) { n with priority := priority } =
        pre ++ e :: { n with priority := priority } :: rest := by
      rw [hsplit (n :: rest), hsplit (_ :: rest), ← hlen,
        set_append_right _ _ (Nat.le_refl _), Nat.sub_self]
      rfl
    simp only [hn, hset]

theorem moveUp_perm (queue : List DeferredPacket) (it prev : Nat) :
    (moveUp queue it prev).Perm queue := by
  fun_induction moveUp queue it prev with
  | case1 queue it => exact Perm.refl _
  | case2 queue it prev a b hb ha hlt ih => exact ih.trans (Ordered.swap_perm ha hb)
  | case3 queue it prev a b hb ha hle ih => exact ih
  | case4 queue it prev hnone => exact Perm.refl _

/-! ## A packet that comes to the queue -/

theorem oldest_spec {it : Nat} {last : DeferredPacket} (hlast : queue[it]? = some last) :
    ∃ v, queue[oldest queue it]? = some v ∧ v.priority = last.priority ∧ oldest queue it ≤ it ∧
      (∀ k e, oldest queue it ≤ k → k ≤ it → queue[k]? = some e → e.priority = last.priority) ∧
      ∀ k e, k + 1 = oldest queue it → queue[k]? = some e → e.priority ≠ last.priority := by
  induction it generalizing last with
  | zero =>
    refine ⟨last, hlast, rfl, Nat.le_refl 0, fun k e _ hk he => ?_, fun k e hk => ?_⟩
    · obtain rfl : k = 0 := Nat.le_zero.mp hk
      rw [hlast] at he
      rw [Option.some.inj he]
    · cases hk
  | succ it ih =>
    rw [oldest]
    split
    · rename_i hsame
      rw [hlast] at hsame
      obtain ⟨before, hbefore, hprio⟩ := Option.map_eq_some_iff.mp hsame
      obtain ⟨v, hv, hvp, hle, hrun, hfront⟩ := ih hbefore
      refine ⟨v, hv, hvp.trans hprio, Nat.le_succ_of_le hle, fun k e hk hk' he => ?_,
        fun k e hk he => ?_⟩
      · rcases Nat.lt_or_eq_of_le hk' with hlt | rfl
        · exact (hrun k e hk (Nat.lt_succ_iff.mp hlt) he).trans hprio
        · rw [hlast] at he
          rw [Option.some.inj he]
      · exact hprio ▸ hfront k e hk he
    · rename_i hdiff
      refine ⟨last, hlast, rfl, Nat.le_refl _, fun k e hk hk' he => ?_, fun k e hk he => ?_⟩
      · obtain rfl : k = it + 1 := Nat.le_antisymm hk' hk
        rw [hlast] at he
        rw [Option.some.inj he]
      · obtain rfl : k = it := Nat.succ.inj hk
        rw [hlast, he] at hdiff
        exact fun h => hdiff (congrArg some h)

/-- In a queue in order, the search ends at the oldest entry of the lowest priority. -/
theorem oldest_oldestLowest (h : queue.Pairwise Ahead) (hne : queue ≠ []) :
    ∃ v, queue[oldest queue (queue.length - 1)]? = some v ∧ OldestLowest queue v := by
  have hlen : queue.length - 1 < queue.length := Nat.sub_lt (length_pos_of_ne_nil hne) Nat.one_pos
  obtain ⟨v, hv, hvp, -, hrun, hfront⟩ := oldest_spec (getElem?_eq_getElem hlen)
  refine ⟨v, hv, mem_of_getElem? hv, fun e he => ?_⟩
  obtain ⟨k, hk⟩ := mem_iff_getElem?.mp he
  have hklen : k ≤ queue.length - 1 := by
    have := (List.getElem?_eq_some_iff.mp hk).1
    omega
  rcases Nat.lt_trichotomy k (oldest queue (queue.length - 1)) with hlt | rfl | hgt
  · -- before the run of the lowest priority: the entry in front of the run is of another priority
    obtain ⟨j, hj⟩ : ∃ j, j + 1 = oldest queue (queue.length - 1) :=
      ⟨_, Nat.succ_pred_eq_of_pos (by omega)⟩
    have hjlen : j < queue.length := by
      have := (List.getElem?_eq_some_iff.mp hv).1
      omega
    have hstrict : v.priority < queue[j].priority := by
      have hne' := hfront j queue[j] hj (getElem?_eq_getElem hjlen)
      rcases Ordered.rel_getElem? h (by omega) (getElem?_eq_getElem hjlen) hv with hlt | heq
      · exact hlt
      · exact absurd (heq.1.trans hvp) hne'
    have hle : queue[j].priority ≤ e.priority := by
      rcases Nat.lt_or_ge k j with hkj | hkj
      · rcases Ordered.rel_getElem? h hkj hk (getElem?_eq_getElem hjlen) with hlt | heq
        · exact Int.le_of_lt hlt
        · exact Int.le_of_eq heq.1.symm
      · obtain rfl : k = j := by omega
        rw [getElem?_eq_getElem hjlen] at hk
        exact Int.le_of_eq (congrArg _ (Option.some.inj hk))
    exact ⟨by omega, fun heq => by omega⟩
  · rw [hv] at hk
    obtain rfl := Option.some.inj hk
    exact ⟨Int.le_refl _, fun _ => Nat.le_refl _⟩
  · have heq : e.priority = v.priority := (hrun k e (Nat.le_of_lt hgt) hklen hk).trans hvp.symm
    refine ⟨Int.le_of_eq heq.symm, fun _ => ?_⟩
    rcases Ordered.rel_getElem? h hgt hv hk with hlt | hage
    · omega
    · exact Nat.le_of_lt hage.2

theorem spot_spec (queue : List DeferredPacket) (dpp : DeferredPacket) {it : Nat} (hpos : 0 < it) :
    spot queue dpp it < it ∧
      (∀ k e, spot queue dpp it < k → k < it → queue[k]? = some e → e.priority < dpp.priority) ∧
      (spot queue dpp it ≠ 0 → ∀ e, queue[spot queue dpp it]? = some e →
        dpp.priority ≤ e.priority) := by
  induction it with
  | zero => cases hpos
  | succ it ih =>
    rw [spot]
    split
    · rename_i hgo
      obtain ⟨hlt, hrun, hstop⟩ := ih (Nat.pos_of_ne_zero hgo.1)
      refine ⟨Nat.lt_succ_of_lt hlt, fun k e hk hk' he => ?_, hstop⟩
      rcases Nat.lt_or_eq_of_le (Nat.lt_succ_iff.mp hk') with hlt | rfl
      · exact hrun k e hk hlt he
      · simpa [he] using hgo.2
    · rename_i hstay
      refine ⟨Nat.lt_succ_self it, fun k e hk hk' => absurd hk' (by omega), fun hne e he => ?_⟩
      by_contra hlt
      exact hstay ⟨hne, by simpa [he] using hlt⟩

theorem place_le (queue : List DeferredPacket) (dpp : DeferredPacket) :
    place queue dpp ≤ queue.length := by
  unfold place
  split
  · exact Nat.zero_le _
  · rename_i back hback
    have hne : queue ≠ [] := by
      rintro rfl
      cases hback
    have hlt := (spot_spec queue dpp (length_pos_of_ne_nil hne)).1
    dsimp only
    split_ifs <;> omega

theorem mem_take_iff {k : Nat} : e ∈ queue.take k ↔ ∃ i, i < k ∧ queue[i]? = some e := by
  rw [mem_iff_getElem?]
  refine exists_congr fun i => ?_
  rw [getElem?_take]
  split_ifs with h
  · simp [h]
  · simp [h]

theorem mem_drop_iff {k : Nat} : e ∈ queue.drop k ↔ ∃ i, k ≤ i ∧ queue[i]? = some e := by
  rw [mem_iff_getElem?]
  constructor
  · rintro ⟨i, hi⟩
    exact ⟨k + i, Nat.le_add_right k i, by rwa [getElem?_drop] at hi⟩
  · rintro ⟨i, hki, hi⟩
    refine ⟨i - k, ?_⟩
    rw [getElem?_drop, Nat.add_sub_cancel' hki]
    exact hi

theorem mem_tail_iff : e ∈ queue.tail ↔ ∃ i, 1 ≤ i ∧ queue[i]? = some e := by
  rw [← drop_one, mem_drop_iff]

/-- The last entry of a queue in order has the lowest priority. -/
theorem last_priority_le {back : DeferredPacket}
    (h : queue.Pairwise Ahead) (hback : queue.getLast? = some back) (he : e ∈ queue) :
    back.priority ≤ e.priority := by
  obtain ⟨front, rfl⟩ := getLast?_eq_some_iff.mp hback
  rcases mem_append.mp he with he | he
  · rcases (pairwise_append.mp h).2.2 e he back mem_cons_self with hlt | heq
    · exact Int.le_of_lt hlt
    · exact Int.le_of_eq heq.1.symm
  · exact Int.le_of_eq (congrArg _ (mem_singleton.mp he).symm)

/-- The youngest packet keeps the order where it is put just when it fits in. -/
theorem insertIdx_place_ordered_iff
    (h : queue.Pairwise Ahead) (hyoung : ∀ e ∈ queue, e.stamp < dpp.stamp) :
    (queue.insertIdx (place queue dpp) dpp).Pairwise Ahead ↔ FitsIn queue dpp.priority := by
  have hahead : ∀ e ∈ queue, dpp.priority ≤ e.priority → Ahead e dpp := by
    intro e he hle
    have hlt := hyoung e he
    unfold Ahead
    omega
  have hbehind : ∀ e ∈ queue, Ahead dpp e ↔ e.priority < dpp.priority := by
    intro e he
    have hlt := hyoung e he
    unfold Ahead
    omega
  rw [Ordered.pairwise_insertIdx_iff (place_le queue dpp)]
  cases hback : queue.getLast? with
  | none =>
    obtain rfl : queue = [] := getLast?_eq_none_iff.mp hback
    simp [FitsIn]
  | some back =>
    have hpos : 0 < queue.length := by
      refine length_pos_of_ne_nil ?_
      rintro rfl
      cases hback
    by_cases hle : dpp.priority ≤ back.priority
    · have hplace : place queue dpp = queue.length := by
        simp only [place, hback, if_pos hle]
      rw [hplace, take_length, drop_length]
      refine iff_of_true ⟨h, fun e he => hahead e he ?_, fun e he => by cases he⟩ (.inl ?_)
      · exact Int.le_trans hle (last_priority_le h hback he)
      · rw [hback]
        rintro back' ⟨⟩
        exact hle
    · obtain ⟨hlt, hrun, hstop⟩ := spot_spec queue dpp hpos
      have hfits : FitsIn queue dpp.priority ↔ ∀ e ∈ queue.tail, e.priority < dpp.priority := by
        refine or_iff_right fun hlast => hle (hlast back ?_)
        rw [hback]
        rfl
      by_cases hzero : spot queue dpp queue.length = 0
      · -- everything behind the head is lower
        have htail : ∀ k e, 1 ≤ k → queue[k]? = some e → e.priority < dpp.priority := by
          intro k e hk he
          have hklen := (List.getElem?_eq_some_iff.mp he).1
          exact hrun k e (by omega) hklen he
        refine iff_of_true ⟨h, ?_⟩ (hfits.mpr fun e he => ?_)
        · have hhead : queue[0]? = some queue[0] := getElem?_eq_getElem hpos
          by_cases hup : dpp.priority ≤ queue[0].priority
          · have hplace : place queue dpp = 1 := by
              simp [place, hback, hle, hzero, hhead, hup]
            rw [hplace]
            constructor
            · intro e he
              obtain ⟨i, hi, hie⟩ := mem_take_iff.mp he
              obtain rfl : i = 0 := Nat.lt_one_iff.mp hi
              rw [hhead] at hie
              obtain rfl := Option.some.inj hie
              exact hahead _ (getElem_mem hpos) hup
            · intro e he
              obtain ⟨i, hi, hie⟩ := mem_drop_iff.mp he
              exact (hbehind e (mem_of_getElem? hie)).mpr (htail i e hi hie)
          · have hplace : place queue dpp = 0 := by
              simp [place, hback, hle, hzero, hhead, hup]
            rw [hplace]
            refine ⟨fun e he => (by cases he), fun e he => ?_⟩
            rw [drop_zero] at he
            obtain ⟨i, hie⟩ := mem_iff_getElem?.mp he
            refine (hbehind e he).mpr ?_
            rcases Nat.eq_zero_or_pos i with rfl | hi
            · rw [hhead] at hie
              obtain rfl := Option.some.inj hie
              exact Int.not_le.mp hup
            · exact htail i e hi hie
        · obtain ⟨i, hi, hie⟩ := mem_tail_iff.mp he
          exact htail i e hi hie
      · -- the packet comes in front of an entry that is not behind it
        have hplace : place queue dpp = spot queue dpp queue.length := by
          simp [place, hback, hle, hzero]
        have hget : queue[spot queue dpp queue.length]? = some queue[spot queue dpp queue.length] :=
          getElem?_eq_getElem hlt
        have hup := hstop hzero _ hget
        rw [hplace, hfits]
        refine iff_of_false (fun hin => ?_) fun hall => ?_
        · have hin' := hin.2.2 _ (mem_drop_iff.mpr ⟨_, Nat.le_refl _, hget⟩)
          have hmem := mem_of_getElem? hget
          exact Int.not_lt.mpr hup ((hbehind _ hmem).mp hin')
        · have hlow := hall _ (mem_tail_iff.mpr ⟨_, Nat.one_le_iff_ne_zero.mpr hzero, hget⟩)
          exact Int.not_lt.mpr hup hlow

/-! ## One call -/

/-- What the calls keep: the queue is as it should be, its packets have numbers that were given, and
    no translation is pending. -/
structure Inv (c : Config) (s : Queued) : Prop where
  good : Good c s.pfq
  stamped : ∀ e ∈ s.pfq, e.stamp < s.inserted
  translated : s.pfqMissingTranslation = []

theorem makeRoom_sublist (queue : List DeferredPacket) : (makeRoom c queue).Sublist queue := by
  unfold makeRoom
  split
  · exact eraseIdx_sublist _ _
  · exact Sublist.refl _

/-- There is room for one more. -/
theorem makeRoom_length (h : queue.length ≤ c.queueSize) :
    (makeRoom c queue).length < c.queueSize := by
  have htwo := c.two_le
  unfold makeRoom
  split
  · rename_i hfull
    have hone : queue.length - 1 < queue.length := by omega
    have hlast := getElem?_eq_getElem hone
    obtain ⟨v, hv, -⟩ := oldest_spec hlast
    have hlt := (List.getElem?_eq_some_iff.mp hv).1
    rw [length_eraseIdx_of_lt hlt]
    omega
  · omega

/-- A full queue gives up the oldest entry of the lowest priority. -/
theorem makeRoom_full (h : queue.Pairwise Ahead) (hfull : queue.length = c.queueSize) :
    ∃ v, OldestLowest queue v ∧ (makeRoom c queue).Perm (queue.erase v) := by
  have hne : queue ≠ [] := by
    rintro rfl
    have htwo := c.two_le
    simp at hfull
    omega
  obtain ⟨v, hv, hlowest⟩ := oldest_oldestLowest h hne
  refine ⟨v, hlowest, ?_⟩
  obtain ⟨hlt, hget⟩ := List.getElem?_eq_some_iff.mp hv
  have hcons : (v :: makeRoom c queue).Perm (v :: queue.erase v) := by
    rw [makeRoom, if_pos hfull]
    have hperm := getElem_cons_eraseIdx_perm hlt
    rw [hget] at hperm
    exact hperm.trans (List.perm_cons_erase hlowest.1)
  exact hcons.cons_inv

theorem addToQueue_perm (queue : List DeferredPacket) (dpp : DeferredPacket) :
    (addToQueue c queue dpp).Perm (dpp :: makeRoom c queue) :=
  perm_insertIdx dpp _ (place_le _ dpp)

/-- A packet of a new address keeps the queue as it should be just when it fits in. -/
theorem addToQueue_good_iff (h : Good c queue)
    (hyoung : ∀ e ∈ queue, e.stamp < dpp.stamp) (hnew : ∀ e ∈ queue, e.key ≠ dpp.key) :
    Good c (addToQueue c queue dpp) ↔ FitsIn (makeRoom c queue) dpp.priority := by
  have hsub := makeRoom_sublist (c := c) queue
  rw [← insertIdx_place_ordered_iff (h.ordered.sublist hsub) fun e he => hyoung e (hsub.subset he)]
  have hperm := addToQueue_perm (c := c) queue dpp
  refine ⟨fun hgood => hgood.ordered, fun hordered => ⟨?_, ?_, hordered⟩⟩
  · rw [hperm.length_eq, length_cons]
    exact makeRoom_length h.bounded
  · rw [(hperm.map _).nodup_iff, map_cons, nodup_cons]
    refine ⟨fun hmem => ?_, h.single.sublist (hsub.map _)⟩
    obtain ⟨e, he, hkey⟩ := mem_map.mp hmem
    exact hnew e (hsub.subset he) hkey

/-- What was added is the packet, in the place of the oldest of the lowest priority. -/
theorem addToQueue_added {new : DeferredPacket} (h : Good c queue)
    (hyoung : ∀ e ∈ queue, e.stamp < dpp.stamp) (hmem : new ∈ addToQueue c queue dpp)
    (hstamp : new.stamp = dpp.stamp) :
    (queue.length = c.queueSize →
      ∃ v, OldestLowest queue v ∧ (addToQueue c queue dpp).Perm (new :: queue.erase v)) ∧
    (queue.length ≠ c.queueSize → (addToQueue c queue dpp).Perm (new :: queue)) := by
  have hperm := addToQueue_perm (c := c) queue dpp
  have hnew : new = dpp := by
    rcases mem_cons.mp (hperm.mem_iff.mp hmem) with rfl | hroom
    · rfl
    · have hlt := hyoung new ((makeRoom_sublist queue).subset hroom)
      omega
  subst hnew
  constructor
  · intro hfull
    obtain ⟨v, hlowest, hroom⟩ := makeRoom_full h.ordered hfull
    exact ⟨v, hlowest, hperm.trans (hroom.cons new)⟩
  · intro hnot
    rwa [makeRoom, if_neg hnot] at hperm

/-- The entries up to the one of this address, and the ones behind it. -/
theorem split_same (h : (queue.dropWhile fun e => !e.pfInfo.sameAddr pfi) = e :: behind) :
    ∃ pre, queue = pre ++ e :: behind ∧ (∀ e ∈ pre, e.pfInfo.sameAddr pfi = false) ∧
      e.pfInfo.sameAddr pfi = true := by
  refine ⟨queue.takeWhile fun e => !e.pfInfo.sameAddr pfi, ?_, fun a ha => ?_, ?_⟩
  · rw [← h, takeWhile_append_dropWhile]
  · simpa using (all_eq_true.mp all_takeWhile) a ha
  · have hhead := head?_dropWhile_not (fun e => !e.pfInfo.sameAddr pfi) queue
    rw [h] at hhead
    simpa using hhead

theorem Good.raise_eq (h : Good c queue) (he : e ∈ queue) (hsame : e.pfInfo.sameAddr pfi = true)
    (hle : priority ≤ e.priority) : queue.map (raise pfi priority) = queue := by
  rw [map_congr_left (g := id), map_id]
  intro a ha
  by_cases hsa : a.pfInfo.sameAddr pfi = true
  · obtain rfl := Good.eq_of_same h.single ha he (key_of_same hsa hsame)
    simp [raise, hsa, Int.max_eq_left hle]
  · simp [raise, hsa]

/-- Where the entry that is found or the one behind it is lower, the call does not leave the queue with
    that entry raised. -/
theorem not_raised (h : Good c queue) (hqueue : queue = pre ++ e :: behind)
    (hpre : ∀ e ∈ pre, e.pfInfo.sameAddr pfi = false) (he : e.pfInfo.sameAddr pfi = true)
    (hnot : ¬ (priority ≤ e.priority ∧ ∀ n ∈ behind.head?, priority ≤ n.priority)) :
    ¬ (alreadyInQueue queue pfi priority).2.Perm (queue.map (raise pfi priority)) := by
  intro hperm
  subst hqueue
  rw [alreadyInQueue_some priority hpre he] at hperm
  have hunraised : e ∈ pre ++ e :: behind := by simp
  cases behind with
  | nil =>
    have hlow : e.priority < priority := by simpa using hnot
    obtain ⟨a, -, hae⟩ := mem_map.mp (hperm.mem_iff.mp hunraised)
    have hsame : a.pfInfo.sameAddr pfi = true := by
      rw [sameAddr_iff]
      exact ((raise_key pfi priority a).symm.trans (congrArg _ hae)).trans (sameAddr_iff.mp he)
    rw [raise, if_pos hsame] at hae
    have hle : priority ≤ e.priority := hae ▸ Int.le_max_right _ _
    omega
  | cons n rest =>
    have hlow : n.priority < priority := by
      by_contra hge
      have hen : n.priority ≤ e.priority := by
        have := (pairwise_append.mp h.ordered).2.1
        rcases (pairwise_cons.mp this).1 n mem_cons_self with hlt | heq
        · exact Int.le_of_lt hlt
        · exact Int.le_of_eq heq.1.symm
      refine hnot ⟨by omega, ?_⟩
      rintro n' ⟨⟩
      exact Int.not_lt.mp hge
    simp only [if_pos hlow] at hperm
    have hmem := ((moveUp_perm _ _ _).symm.trans hperm).mem_iff.mp
      (show { n with priority := priority } ∈ pre ++ e :: { n with priority := priority } :: rest by
        simp)
    obtain ⟨a, ha, han⟩ := mem_map.mp hmem
    have hn : n ∈ pre ++ e :: n :: rest := by simp
    have hkey : a.key = n.key := by
      rw [← raise_key pfi priority a, han]
      rfl
    obtain rfl := Good.eq_of_same h.single ha hn hkey
    have hdiff : a.pfInfo.sameAddr pfi = false := by
      by_contra hsame
      have hea : e = a := Good.eq_of_same h.single (by simp) hn
        (key_of_same he (by simpa using hsame))
      subst hea
      have hnodup := h.single
      rw [map_append, map_cons, map_cons] at hnodup
      exact (nodup_cons.mp (nodup_append.mp hnodup).2.1).1 mem_cons_self
    rw [raise, hdiff, if_neg Bool.false_ne_true] at han
    have : a.priority = priority := congrArg DeferredPacket.priority han
    omega

theorem next_getPacket (s : Queued) (hnone : s.pfqMissingTranslation = []) :
    getPacket c s = (s.pfq.head?.bind DeferredPacket.pkt, { s with pfq := s.pfq.tail }) := by
  obtain ⟨pfq, missing, inserted⟩ := s
  subst hnone
  unfold getPacket processMissingTranslations
  cases pfq with
  | nil => simp
  | cons front pfq => simp

/-- The queue after an `insert` of an address that is in it. -/
theorem insert_found
    (hqueue : s.pfq = pre ++ e :: behind) (hpre : ∀ e ∈ pre, e.pfInfo.sameAddr pfi = false)
    (he : e.pfInfo.sameAddr pfi = true) :
    insert c s pkt pfi priority cache =
      { s with
        pfq := (alreadyInQueue s.pfq pfi priority).2
        inserted := s.inserted + 1 } := by
  have hfound : (alreadyInQueue s.pfq pfi priority).1 = true := by
    rw [hqueue, alreadyInQueue_some priority hpre he]
  unfold insert
  dsimp only
  rw [if_pos hfound]

/-- The queue after an `insert` of another address. -/
theorem insert_new (hnone : ∀ e ∈ s.pfq, e.pfInfo.sameAddr pfi = false)
    (hmissing : s.pfqMissingTranslation = []) :
    insert c s pkt pfi priority cache =
      { insertNew c s pkt pfi priority cache with inserted := s.inserted + 1 } := by
  have hempty : alreadyInQueue s.pfqMissingTranslation pfi priority =
      (false, s.pfqMissingTranslation) := by
    refine alreadyInQueue_none priority fun e he => ?_
    rw [hmissing] at he
    cases he
  unfold insert
  rw [alreadyInQueue_none priority hnone, hempty]
  rfl

/-- No translation is pending after the call. -/
def Translated (c : Config) (s : Queued) (e : Event) : Prop :=
  (next c s e).pfqMissingTranslation = []

instance (s : Queued) (e : Event) : Decidable (Translated c s e) := by
  unfold Translated; infer_instance

/-- Neither the entry that is found nor the one behind it is lower: the queue stays as it is. -/
theorem alreadyInQueue_kept (hpre : ∀ e ∈ pre, e.pfInfo.sameAddr pfi = false)
    (he : e.pfInfo.sameAddr pfi = true) (hbehind : ∀ n ∈ behind.head?, priority ≤ n.priority) :
    (alreadyInQueue (pre ++ e :: behind) pfi priority).2 = pre ++ e :: behind := by
  rw [alreadyInQueue_some priority hpre he]
  cases behind with
  | nil => rfl
  | cons n rest =>
    have hle : priority ≤ n.priority := hbehind n rfl
    exact if_neg (Int.not_lt.mpr hle)

/-- A call that leaves the queue as it is does what it should, unless an entry had to be raised. -/
theorem Inv.right_of_kept (h : Inv c s)
    (hraised : ∀ e ∈ s.pfq, e.pfInfo.sameAddr pfi = true → priority ≤ e.priority) :
    Good c s.pfq ∧ Inserts c s s.pfq pfi priority := by
  refine ⟨h.good, ?_, ?_⟩
  · rintro ⟨e, he, hsame⟩
    rw [h.good.raise_eq he hsame (hraised e he hsame)]
  · intro new hnew hstamp
    exact absurd hstamp (Nat.ne_of_lt (h.stamped new hnew))

theorem insertNew_right_iff (h : Inv c s) (hnone : ∀ e ∈ s.pfq, e.pfInfo.sameAddr pfi = false)
    (htranslated : (insertNew c s pkt pfi priority cache).pfqMissingTranslation = []) :
    Good c (insertNew c s pkt pfi priority cache).pfq ∧
        Inserts c s (insertNew c s pkt pfi priority cache).pfq pfi priority ↔
      match targetOf c pkt pfi with
      | .physical target_paddr =>
        redundant c cache target_paddr pfi = true ∨ FitsIn (makeRoom c s.pfq) priority
      | _ => True := by
  have hkept : Good c s.pfq ∧ Inserts c s s.pfq pfi priority :=
    h.right_of_kept fun e he hsame => absurd hsame (by simp [hnone e he])
  unfold insertNew at htranslated ⊢
  cases htarget : targetOf c pkt pfi with
  | none => exact iff_of_true hkept trivial
  | missing req =>
    rw [htarget] at htranslated
    have hlen := (addToQueue_perm (c := c) s.pfqMissingTranslation _).length_eq.symm.trans
      (congrArg List.length htranslated)
    cases hlen
  | physical target_paddr =>
    dsimp only
    by_cases hred : redundant c cache target_paddr pfi = true
    · rw [if_pos hred]
      exact iff_of_true hkept (.inl hred)
    · rw [if_neg hred, or_iff_right hred]
      have hyoung : ∀ e ∈ s.pfq, e.stamp < s.inserted := h.stamped
      have hnew : ∀ e ∈ s.pfq, e.key ≠ (pfi.addr, pfi.secure) := by
        intro e he hkey
        have hdiff := hnone e he
        rw [sameAddr_iff.mpr hkey] at hdiff
        cases hdiff
      refine Iff.trans (and_iff_left ⟨?_, fun new hmem hstamp => ?_⟩)
        (addToQueue_good_iff h.good hyoung hnew)
      · rintro ⟨e, he, hsa⟩
        rw [hnone e he] at hsa
        cases hsa
      · exact addToQueue_added h.good hyoung hmem hstamp

/-- A call does what it should just when it fits. -/
theorem Inv.right_iff (h : Inv c s) (e : Event) (htranslated : Translated c s e) :
    Right c s e ↔ Fits c s e := by
  cases e with
  | getPacket =>
    refine iff_of_true ?_ trivial
    show Good c (getPacket c s).2.pfq
    rw [next_getPacket s h.translated]
    have hsub := tail_sublist s.pfq
    exact ⟨Nat.le_trans hsub.length_le h.good.bounded, h.good.single.sublist (hsub.map _),
      h.good.ordered.sublist hsub⟩
  | insert pkt pfi priority cache =>
    unfold Right Fits
    dsimp only
    cases hsplit : s.pfq.dropWhile fun e => !e.pfInfo.sameAddr pfi with
    | cons e behind =>
      obtain ⟨pre, hqueue, hpre, he⟩ := split_same hsplit
      rw [insert_found hqueue hpre he]
      constructor
      · rintro ⟨-, hinserts⟩
        by_contra hnot
        refine not_raised h.good hqueue hpre he hnot (hinserts.raised ⟨e, ?_, he⟩)
        simp [hqueue]
      · rintro ⟨hle, hbehind⟩
        have hkept : (alreadyInQueue s.pfq pfi priority).2 = s.pfq := by
          rw [hqueue, alreadyInQueue_kept hpre he hbehind]
        rw [hkept]
        refine h.right_of_kept fun a ha hsame => ?_
        have hmem : e ∈ s.pfq := by simp [hqueue]
        rw [Good.eq_of_same h.good.single ha hmem (key_of_same hsame he)]
        exact hle
    | nil =>
      have hnone : ∀ e ∈ s.pfq, e.pfInfo.sameAddr pfi = false := by
        simpa using dropWhile_eq_nil_iff.mp hsplit
      unfold Translated next at htranslated
      dsimp only at htranslated
      rw [insert_new hnone h.translated] at htranslated ⊢
      exact insertNew_right_iff h hnone htranslated

/-! ## Every run -/

theorem insertNew_stamped (h : ∀ e ∈ s.pfq, e.stamp < s.inserted) :
    ∀ e ∈ (insertNew c s pkt pfi priority cache).pfq, e.stamp < s.inserted + 1 := by
  have hold : ∀ e ∈ s.pfq, e.stamp < s.inserted + 1 := fun e he => Nat.lt_succ_of_lt (h e he)
  unfold insertNew
  split
  · split
    · exact hold
    · intro e he
      rcases mem_cons.mp ((addToQueue_perm _ _).mem_iff.mp he) with rfl | hroom
      · exact Nat.lt_succ_self _
      · exact hold e ((makeRoom_sublist _).subset hroom)
  · exact hold
  · exact hold

theorem next_stamped (h : Inv c s) (e : Event) (htranslated : Translated c s e)
    (hfits : Fits c s e) : ∀ a ∈ (next c s e).pfq, a.stamp < (next c s e).inserted := by
  cases e with
  | getPacket =>
    rw [next, next_getPacket s h.translated]
    exact fun a ha => h.stamped a (mem_of_mem_tail ha)
  | insert pkt pfi priority cache =>
    unfold Fits at hfits
    unfold next
    dsimp only at hfits ⊢
    cases hsplit : s.pfq.dropWhile fun e => !e.pfInfo.sameAddr pfi with
    | cons e behind =>
      obtain ⟨pre, hqueue, hpre, he⟩ := split_same hsplit
      rw [hsplit] at hfits
      rw [insert_found hqueue hpre he]
      rw [hqueue, alreadyInQueue_kept hpre he hfits.2, ← hqueue]
      exact fun a ha => Nat.lt_succ_of_lt (h.stamped a ha)
    | nil =>
      have hnone : ∀ e ∈ s.pfq, e.pfInfo.sameAddr pfi = false := by
        simpa using dropWhile_eq_nil_iff.mp hsplit
      rw [insert_new hnone h.translated]
      exact insertNew_stamped h.stamped

theorem Inv.next (h : Inv c s) (e : Event) (htranslated : Translated c s e)
    (hfits : Fits c s e) : Inv c (next c s e) := by
  refine ⟨?_, next_stamped h e htranslated hfits, htranslated⟩
  have hright := (h.right_iff e htranslated).mpr hfits
  cases e with
  | insert pkt pfi priority cache => exact hright.1
  | getPacket => exact hright

theorem inv_start : Inv c {} :=
  ⟨⟨Nat.zero_le _, nodup_nil, List.Pairwise.nil⟩, fun _ he => (not_mem_nil he).elim, rfl⟩

/-- **A bounded stable priority queue**, in the runs whose calls fit and in no others. -/
theorem stable_priority_queue_iff (c : Config) (es : List Event)
    (htranslated : Trace.Admits (Translated c) (next c) {} es) :
    (∀ pre e, pre ++ [e] <+: es → Right c (pre.foldl (next c) {}) e) ↔
      Trace.Admits (Fits c) (next c) {} es :=
  Trace.Admits.iff_steps (Inv c) (fun _ e h htr hfits => h.next e htr hfits)
    (fun _ e h htr => h.right_iff e htr) inv_start htranslated

/-! ## The two positions -/

def insertAt (addr : Addr) (priority : Int) : Event :=
  .insert { paddr := 0x1000 } { addr := addr } priority {}

def twoEntries : Config where
  queueSize := 2
  two_le := by decide

/-- A full queue gives up its last entry, and an address is asked for again at a lower priority. -/
def fittingRun : List Event :=
  [insertAt 0x1000 5, insertAt 0x1040 3, insertAt 0x1080 1, insertAt 0x1000 1, .getPacket]

/-- The second request for the address leaves the queue as it is. -/
theorem stable_priority_queue_fitting :
    Right twoEntries ((fittingRun.take 3).foldl (next twoEntries) {}) (insertAt 0x1000 1) :=
  (stable_priority_queue_iff twoEntries fittingRun (by decide +kernel)).mpr
    ⟨by decide +kernel, by decide +kernel, by decide +kernel, by decide +kernel, trivial, trivial⟩
    (fittingRun.take 3) (insertAt 0x1000 1) ( take_prefix 4 fittingRun)

def fourEntries : Config where
  queueSize := 4
  two_le := by decide

def threePriorities : List Event := [insertAt 0x1000 5, insertAt 0x1040 3, insertAt 0x1080 1]

/-- Between the second entry and the third comes a packet that is put between the first and the
    second. -/
theorem insert_breaks_order :
    ¬ ∀ (c : Config) (es : List Event), Trace.Admits (Translated c) (next c) {} es →
      ∀ pre e, pre ++ [e] <+: es → Right c (pre.foldl (next c) {}) e := by
  intro h
  have hright := h fourEntries (threePriorities ++ [insertAt 0x10c0 2]) (by decide +kernel)
    threePriorities (insertAt 0x10c0 2) (prefix_refl _)
  have hordered := hright.1.ordered
  revert hordered
  decide +kernel

/-- The address of the head is asked for at a higher priority, and the entry behind it is raised. -/
theorem insert_raises_another :
    ((threePriorities ++ [insertAt 0x1000 9]).foldl (next fourEntries) {}).pfq.map
        (fun e => (e.pfInfo.addr, e.priority)) =
      [(0x1040, 9), (0x1000, 5), (0x1080, 1)] := by
  decide +kernel

end Gem5Dvr.QueuedPrefetcher
