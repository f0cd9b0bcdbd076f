/-
  The RISC-V TLB and its page-table walker in atomic mode (`arch/riscv/tlb.cc` 67-323,
  `arch/riscv/pagetable_walker.cc` 235-475).

    1. Page-table entries and permissions.  A word of the page tables is what its bit fields say.
    2. The walk: `stepWalk` reads one entry, `walkLoop` is the loop of `startWalk`.  What the rules of
       the PMP say of an address is given; whether they are asked is not (`Pmp.shouldCheckPMP`).
    3. The TLB: its slots, the trie (`Gem5Dvr.Trie`) that points to them, the list of free ones.  An
       assertion that fails leaves no result.
    4. `doTranslate`, and the calls around it.
-/
import Gem5Dvr.Lib.Trace
import Gem5Dvr.Pmp
import Gem5Dvr.Trie

namespace Gem5Dvr.Tlb

open Pmp (Mode PrivilegeMode)

/-! ## Page tables -/

/-- A page-table entry. -/
structure PTESv39 where
  ppn : Nat := 0
  d : Bool := false
  a : Bool := false
  u : Bool := false
  x : Bool := false
  w : Bool := false
  r : Bool := false
  v : Bool := false
  deriving DecidableEq, Repr

/-- The lowest nine bits of the page number. -/
def PTESv39.ppn0 (pte : PTESv39) : Nat := pte.ppn % 512

/-- The next nine. -/
def PTESv39.ppn1 (pte : PTESv39) : Nat := pte.ppn / 512 % 512

/-- The faults of a translation. -/
inductive ExceptionCode
  | LOAD_PAGE | STORE_PAGE | INST_PAGE | LOAD_ACCESS | STORE_ACCESS
  deriving DecidableEq, Repr

/-- An `AddressFault`. -/
structure Fault where
  vaddr : BitVec 64
  code : ExceptionCode
  deriving DecidableEq, Repr

/-- Who asks: the access, the privilege, and the fields of `status` that are read. -/
structure Context where
  mode : Mode
  prv : PrivilegeMode
  sum : Bool := false
  mprv : Bool := false
  mpp : PrivilegeMode := .PRV_U
  deriving DecidableEq, Repr

/-- What the PMP reads of `status`. -/
def Context.status (c : Context) : Pmp.Status where
  mprv := c.mprv
  mpp := match c.mpp with
    | .PRV_U => 0
    | .PRV_S => 1
    | .PRV_M => 3

/-- `getMemPriv`. -/
def Context.pmode (c : Context) : PrivilegeMode :=
  if c.mode ≠ .Execute ∧ c.mprv = true then c.mpp else c.prv

/-- The page fault of an access. -/
def createPagefault (vaddr : BitVec 64) : Mode → Fault
  | .Read => ⟨vaddr, .LOAD_PAGE⟩
  | .Write => ⟨vaddr, .STORE_PAGE⟩
  | .Execute => ⟨vaddr, .INST_PAGE⟩

/-- What the entry does not allow. -/
def checkPermissions (c : Context) (vaddr : BitVec 64) (pte : PTESv39) : Option Fault :=
  if c.mode = .Read ∧ pte.r = false then some (createPagefault vaddr c.mode)
  else if c.mode = .Write ∧ pte.w = false then some (createPagefault vaddr c.mode)
  else if c.mode = .Execute ∧ pte.x = false then some (createPagefault vaddr c.mode)
  else if c.pmode = .PRV_U ∧ pte.u = false then some (createPagefault vaddr c.mode)
  else if c.pmode = .PRV_S ∧ pte.u = true ∧ c.sum = false then
    some (createPagefault vaddr c.mode)
  else none

/-- An entry of the TLB. -/
structure TlbEntry where
  paddr : Nat := 0
  vaddr : BitVec 64 := 0
  logBytes : Nat := 0
  asid : BitVec 16 := 0
  pte : PTESv39 := {}
  trieHandle : Option Nat := none
  lruSeq : Nat := 0
  deriving DecidableEq

/-- The bits of an address that tell its page. -/
def pageMask (logBytes : Nat) : BitVec 64 := ~~~((1#64 <<< logBytes) - 1#64)

/-- `paddr << PageShift | (vaddr & mask(logBytes))`. -/
def TlbEntry.physical (e : TlbEntry) (vaddr : BitVec 64) : Nat :=
  (e.paddr <<< 12) ||| (vaddr.toNat &&& (2 ^ e.logBytes - 1))

/-- `sext<VADDR_BITS>`. -/
def sext (vaddr : BitVec 64) : BitVec 64 := (vaddr.extractLsb' 0 39).signExtend 64

/-! ## The walk -/

/-- The fixed surroundings: `satp.ppn` of each address space, and what the rules of the PMP say of a
    read (`false`) or a write (`true`) of an entry. -/
structure Tables where
  root : BitVec 16 → Nat
  pmp : Bool → Nat → Bool

/-- `pmpCheck` on an access of the walker: its reads are those of the supervisor. -/
def Tables.pmpCheck (g : Tables) (c : Context) (write : Bool) (addr : Nat) : Bool :=
  let pmode := if write = true then c.pmode else .PRV_S
  let mode := if write = true then .Write else .Read
  !Pmp.shouldCheckPMP pmode mode c.status || decide (pmode = .PRV_M) || g.pmp write addr

/-- What a walk comes to: the entry it would cache, and the page-table entry it writes back. -/
structure WalkEnd where
  result : Except Fault TlbEntry
  write : Option (Nat × PTESv39) := none

/-- What a step of the walk comes to. -/
inductive Step
  | ends (e : WalkEnd)
  | reads (addr : Nat)

/-- `idx * sizeof(PTESv39)` in the table of a level. -/
def indexBytes (vaddr : BitVec 64) (level : Nat) : Nat :=
  ((vaddr >>> (12 + 9 * level)) &&& 511#64).toNat * 8

/-- A leaf that is misaligned. -/
def misaligned (level : Nat) (pte : PTESv39) : Prop :=
  (1 ≤ level ∧ pte.ppn0 ≠ 0) ∨ (level = 2 ∧ pte.ppn1 ≠ 0)

instance (level : Nat) (pte : PTESv39) : Decidable (misaligned level pte) :=
  inferInstanceAs (Decidable (_ ∨ _))

/-- Steps 5 to 8 of `stepWalk`, on a leaf.  The write is made even where the PMP forbids it. -/
def stepLeaf (g : Tables) (c : Context) (vaddr : BitVec 64) (asid : BitVec 16) (level addr : Nat)
    (pte : PTESv39) : WalkEnd :=
  match checkPermissions c vaddr pte with
  | some f => { result := .error f }
  | none =>
    if misaligned level pte then { result := .error (createPagefault vaddr c.mode) }
    else
      let doWrite := pte.a = false ∨ (pte.d = false ∧ c.mode = .Write)
      let pte := { pte with a := true, d := pte.d || decide (c.mode = .Write) }
      let write := if doWrite then some (addr, pte) else none
      if doWrite ∧ g.pmpCheck c true addr = false then
        { result := .error ⟨vaddr, .STORE_ACCESS⟩, write := write }
      else
        { result := .ok
            { paddr := pte.ppn
              vaddr := vaddr &&& pageMask (12 + 9 * level)
              logBytes := 12 + 9 * level
              asid := asid
              pte := if pte.d = false ∧ c.mode ≠ .Write then { pte with w := false } else pte }
          write := write }

/-- One entry of the table: a fault, a leaf or the next level. -/
def stepWalk (g : Tables) (c : Context) (vaddr : BitVec 64) (asid : BitVec 16) (level addr : Nat)
    (pte : PTESv39) : Step :=
  if g.pmpCheck c false addr = false then .ends { result := .error ⟨vaddr, .LOAD_ACCESS⟩ }
  else if pte.v = false ∨ (pte.r = false ∧ pte.w = true) then
    .ends { result := .error (createPagefault vaddr c.mode) }
  else if pte.r = true ∨ pte.x = true then .ends (stepLeaf g c vaddr asid level addr pte)
  else
    match level with
    | 0 => .ends { result := .error (createPagefault vaddr c.mode) }
    | level + 1 => .reads ((pte.ppn <<< 12) + indexBytes vaddr level)

/-- The loop of `startWalk`. -/
def walkLoop (g : Tables) (mem : Nat → PTESv39) (c : Context) (vaddr : BitVec 64)
    (asid : BitVec 16) : Nat → Nat → Option WalkEnd
  | 0, addr =>
    match stepWalk g c vaddr asid 0 addr (mem addr) with
    | .ends e => some e
    | .reads _ => none
  | level + 1, addr =>
    match stepWalk g c vaddr asid (level + 1) addr (mem addr) with
    | .ends e => some e
    | .reads nextRead => walkLoop g mem c vaddr asid level nextRead

/-- `topAddr` of `setupWalk`. -/
def topAddr (g : Tables) (vaddr : BitVec 64) (asid : BitVec 16) : Nat :=
  (g.root asid <<< 12) + indexBytes vaddr 2

/-- `startWalk`, for an address that has been sign-extended. -/
def startWalk (g : Tables) (mem : Nat → PTESv39) (c : Context) (vaddr : BitVec 64)
    (asid : BitVec 16) : Option WalkEnd :=
  walkLoop g mem c vaddr asid 2 (topAddr g vaddr asid)

/-- What a fresh walk says of an address: the physical address or the fault. -/
def fresh (g : Tables) (mem : Nat → PTESv39) (c : Context) (vaddr : BitVec 64)
    (asid : BitVec 16) : Option (Except Fault Nat) :=
  (startWalk g mem c (sext vaddr) asid).map fun e =>
    match e.result with
    | .error f => .error f
    | .ok entry => .ok (entry.physical (sext vaddr))

/-! ## The TLB -/

/-- The entries, the trie over them and the counter of uses. -/
structure TLB where
  size : Nat
  tlb : Nat → TlbEntry
  trie : PrefixTrie.Trie 64 Nat
  freeList : List Nat
  lruSeq : Nat

/-- The key of a page in an address space. -/
def buildKey (vpn : BitVec 64) (asid : BitVec 16) : BitVec 64 := (asid.setWidth 64 <<< 48) ||| vpn

/-- The key of a slot's entry. -/
def TlbEntry.key (e : TlbEntry) : BitVec 64 := buildKey e.vaddr e.asid

namespace TLB

variable (t : TLB)

/-- Every entry free. -/
def init (size : Nat) : TLB where
  size := size
  tlb := fun _ => {}
  trie := .empty
  freeList := List.range size
  lruSeq := 0

/-- A slot is written. -/
def set (i : Nat) (e : TlbEntry) : TLB := { t with tlb := Function.update t.tlb i e }

/-- `lookup`: the slot of the entry. -/
def lookup (vpn : BitVec 64) (asid : BitVec 16) (hidden : Bool) : Option (TLB × Option Nat) :=
  (t.trie.lookup (buildKey vpn asid)).map fun entry =>
    match entry with
    | none => (t, none)
    | some i =>
      if hidden = true then (t, some i)
      else ({ t.set i { t.tlb i with lruSeq := t.lruSeq + 1 } with lruSeq := t.lruSeq + 1 }, some i)

/-- An entry becomes free. -/
def remove (idx : Nat) : Option TLB :=
  match (t.tlb idx).trieHandle with
  | none => none
  | some handle =>
    (t.trie.removeHandle handle).map fun x =>
      { t.set idx { t.tlb idx with trieHandle := none } with
        trie := x.1
        freeList := t.freeList ++ [idx] }

/-- The slot with the lowest sequence number. -/
def lru : Nat := (List.range' 1 (t.size - 1)).foldl
    (fun lru i => if (t.tlb i).lruSeq < (t.tlb lru).lruSeq then i else lru) 0

/-- The entry that was used longest ago becomes free. -/
def evictLRU : Option TLB := t.remove t.lru

/-- A slot is taken from the free list for a new entry. -/
def allocate (vpn : BitVec 64) (entry : TlbEntry) : Option TLB :=
  match t.freeList with
  | [] => none
  | i :: rest =>
    (t.trie.insert (buildKey vpn entry.asid) (64 - entry.logBytes) i).map fun x =>
      { t.set i { entry with lruSeq := t.lruSeq + 1, vaddr := vpn, trieHandle := some x.2 } with
        trie := x.1
        freeList := rest
        lruSeq := t.lruSeq + 1 }

/-- A walk's entry, unless it is there. -/
def insert (vpn : BitVec 64) (entry : TlbEntry) : Option TLB :=
  (t.lookup vpn entry.asid true).bind fun x =>
    match x.2 with
    | some i =>
      if (t.tlb i).vaddr = vpn then some (t.set i { t.tlb i with pte := entry.pte }) else none
    | none =>
      if t.freeList = [] then t.evictLRU.bind fun t => t.allocate vpn entry
      else t.allocate vpn entry

/-- The loops of `demapPage` and `flushAll`. -/
def removeIf (p : TlbEntry → Bool) : List Nat → TLB → Option TLB
  | [], t => some t
  | i :: is, t =>
    if (t.tlb i).trieHandle ≠ none ∧ p (t.tlb i) = true then (t.remove i).bind (removeIf p is)
    else removeIf p is t

/-- Every entry becomes free. -/
def flushAll : Option TLB := removeIf (fun _ => true) (List.range t.size) t

/-- The entries of a page, an address space or both. -/
def demapPage (vpn asid : BitVec 64) : Option TLB :=
  let asid : BitVec 16 := asid.setWidth 16
  if vpn = 0 ∧ asid = 0 then t.flushAll
  else if vpn ≠ 0 ∧ asid ≠ 0 then
    (t.lookup vpn asid true).bind fun x =>
      match x.2 with
      | some i => t.remove i
      | none => some t
  else
    removeIf (fun e => (decide (vpn = 0) || vpn &&& pageMask e.logBytes == e.vaddr) &&
      (decide (asid = 0) || e.asid == asid)) (List.range t.size) t

end TLB

/-! ## Translation -/

/-- The TLB, and the page tables in memory. -/
structure State where
  tlb : TLB
  mem : Nat → PTESv39

namespace State

variable (g : Tables) (s : State)

/-- `Walker::start`: the entry is inserted, then the page-table entry is written. -/
def start (c : Context) (vaddr : BitVec 64) (asid : BitVec 16) : Option (State × Option Fault) :=
  (startWalk g s.mem c vaddr asid).bind fun e =>
    let mem := match e.write with
      | none => s.mem
      | some (addr, pte) => Function.update s.mem addr pte
    match e.result with
    | .error f => some ({ s with mem := mem }, some f)
    | .ok entry => (s.tlb.insert entry.vaddr entry).map fun t => ({ tlb := t, mem := mem }, none)

/-- `doTranslate` from the entry in a slot on. -/
def useEntry (c : Context) (vaddr : BitVec 64) (asid : BitVec 16) (i : Nat) :
    Option (State × Except Fault Nat) :=
  match checkPermissions c vaddr (s.tlb.tlb i).pte with
  | none => some (s, .ok ((s.tlb.tlb i).physical vaddr))
  | some f =>
    if c.mode = .Write ∧ (s.tlb.tlb i).pte.w = false then
      (s.start g c vaddr asid).map fun x =>
        match x.2 with
        | some f => (x.1, .error f)
        | none => (x.1, .ok ((x.1.tlb.tlb i).physical vaddr))
    else some (s, .error f)

/-- An entry that is found, or a walk. -/
def doTranslate (c : Context) (vaddr : BitVec 64) (asid : BitVec 16) :
    Option (State × Except Fault Nat) :=
  let vaddr := sext vaddr
  (s.tlb.lookup vaddr asid false).bind fun x =>
    let s := { s with tlb := x.1 }
    match x.2 with
    | some i => s.useEntry g c vaddr asid i
    | none =>
      (s.start g c vaddr asid).bind fun y =>
        match y.2 with
        | some f => some (y.1, .error f)
        | none =>
          (y.1.tlb.lookup vaddr asid false).bind fun z =>
            match z.2 with
            | none => none
            | some i => { y.1 with tlb := z.1 }.useEntry g c vaddr asid i

end State

/-- The calls. -/
inductive Event
  | translate (c : Context) (vaddr : BitVec 64) (asid : BitVec 16)
  | demapPage (vpn asid : BitVec 64)
  | flushAll
  | evictLRU

/-- A call. -/
def State.step (g : Tables) (s : State) : Event → Option State
  | .translate c vaddr asid => (s.doTranslate g c vaddr asid).map Prod.fst
  | .demapPage vpn asid => (s.tlb.demapPage vpn asid).map fun t => { s with tlb := t }
  | .flushAll => s.tlb.flushAll.map fun t => { s with tlb := t }
  | .evictLRU => s.tlb.evictLRU.map fun t => { s with tlb := t }

/-- An empty TLB over these tables. -/
def State.init (size : Nat) (mem : Nat → PTESv39) : State where
  tlb := .init size
  mem := mem

/-! ## What a run must keep to -/

/-- Two stretches of keys overlap. -/
def Overlaps (key : BitVec 64) (width : Nat) (key' : BitVec 64) (width' : Nat) : Prop :=
  key &&& BitPrefix.maskOf 64 (min width width') = key' &&& BitPrefix.maskOf 64 (min width width')

instance (key : BitVec 64) (width : Nat) (key' : BitVec 64) (width' : Nat) :
    Decidable (Overlaps key width key' width') := inferInstanceAs (Decidable (_ = _))

/-- The keys of a page are overlapped by those of no entry of another address space. -/
def Apart (t : TLB) (vaddr : BitVec 64) (asid : BitVec 16) (logBytes : Nat) : Prop :=
  ∀ i < t.size, (t.tlb i).trieHandle ≠ none → (t.tlb i).asid ≠ asid →
    ¬ Overlaps (buildKey vaddr asid) (64 - logBytes) (t.tlb i).key (64 - (t.tlb i).logBytes)

instance (t : TLB) (vaddr : BitVec 64) (asid : BitVec 16) (logBytes : Nat) :
    Decidable (Apart t vaddr asid logBytes) :=
  inferInstanceAs (Decidable (∀ i < t.size, _ → _ → ¬ _))

/-- The size of the page that a walk finds for an address; that of one byte if it faults. -/
def pageBits (g : Tables) (mem : Nat → PTESv39) (c : Context) (vaddr : BitVec 64)
    (asid : BitVec 16) : Nat :=
  match startWalk g mem c vaddr asid with
  | some { result := .ok entry, .. } => entry.logBytes
  | _ => 0

/-- An address whose bit 38 is set is only translated when no entry of another address space overlaps
    its page; an eviction is only asked for when the least recently used slot holds an entry. -/
def State.Separate (g : Tables) (s : State) : Event → Prop
  | .translate c vaddr asid => vaddr.getLsbD 38 = true →
    Apart s.tlb (sext vaddr) asid (pageBits g s.mem c (sext vaddr) asid)
  | .evictLRU => (s.tlb.tlb s.tlb.lru).trieHandle ≠ none
  | _ => True

/-- The PMP is asked about the reads of a walk, or it would permit them all. -/
def Tables.Asks (g : Tables) (c : Context) : Prop :=
  Pmp.shouldCheckPMP .PRV_S .Read c.status = true ∨ ∀ addr, g.pmp false addr = true

/-- The walks of a translation are checked. -/
def Event.Checked (g : Tables) : Event → Prop
  | .translate c _ _ => g.Asks c
  | _ => True

instance (g : Tables) (s : State) : ∀ e : Event, Decidable (s.Separate g e)
  | .translate .. => inferInstanceAs (Decidable (_ → _))
  | .demapPage .. => isTrue trivial
  | .flushAll => isTrue trivial
  | .evictLRU => inferInstanceAs (Decidable (_ ≠ _))

end Gem5Dvr.Tlb
