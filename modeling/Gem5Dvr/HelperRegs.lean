/-
  The helper register file (`DVRHelperVectorRegisterFile`, `cpu/o3/cpu.hh` 955-1547).

  Each of the 32 architectural registers is mapped PER LANE: `lanePhysical` names a physical entry
  for each of the 128 lanes, `laneVectorized`/`laneElement` say which element of that entry the lane
  reads.  Entries 0..255 are scalar (one value per lane, indexed by the lane), entries 256..383 are
  vector (eight elements, one 8-lane copy of a 16-entry bundle).  With the shared bank configured,
  entries also borrow register names from the simulated CPU's `UnifiedFreeList`.

  Reading of the C++ types:
    * `int16_t phys`        — `Option Phys`; every index outside 0..383 is treated like `-1` by the
                              source, so all of them are `none`;
    * lane masks            — `LaneMask`, the 128 bits of `std::array<uint64_t, 2>`;
    * `shared_ids`          — the list of names in element order; a null pointer is a missing one;
    * `unsigned users`      — `Nat`.

  A method is a function of `State`, the file together with the bank it may share.  The `arch` and
  `lane` bounds the methods check first are the bounds of `Arch` and `Lane`; `Op` below, one call of
  the interface, checks them where the source does.
-/
import Gem5Dvr.Uop
import Gem5Dvr.FreeList
import Mathlib.Data.Fintype.Basic
import Mathlib.Logic.Function.Basic

namespace Gem5Dvr.HelperRegs

open List Function

/-- `MaxLanes` lanes, `NumArchitecturalRegs` registers, `NumPhysicalRegs` entries,
    `VectorCopies` copies of `LanesPerVectorCopy` lanes. -/
abbrev Lane := Fin 128
/-- An architectural register. -/
abbrev Arch := Fin 32
/-- An entry of the bank. -/
abbrev Phys := Fin 384
/-- A vector copy. -/
abbrev Copy := Fin 16

/-- A bit for each lane. -/
abbrev LaneMask := BitVec 128

/-- `active_mask[lane / 64] & (1 << (lane % 64))`. -/
def laneActive (active_mask : LaneMask) (lane : Lane) : Bool := active_mask.getLsbD lane

/-- The entries for scalars. -/
def NumScalarPhysicalRegs : Nat := 256
/-- The copies of a vector register. -/
def VectorCopies : Nat := 16
/-- The lanes of a copy. -/
def LanesPerVectorCopy : Nat := 8

/-- `lane / LanesPerVectorCopy`. -/
def copyOf (lane : Lane) : Copy := ⟨lane.val / 8, by omega⟩

/-- `lane % LanesPerVectorCopy`, as an index into an entry's value array. -/
def elementOf (lane : Lane) : Lane := ⟨lane.val % 8, by omega⟩

/-- An entry of the bank: its values, and who uses it. -/
structure PhysicalRegister where
  values : Lane → RegVal := fun _ => 0
  ready : Lane → Nat := fun _ => 0
  sharedId : Option PhysReg := none
  sharedIds : List PhysReg := []
  users : Nat := 0
  pendingRelease : Bool := false
  vector : Bool := false
  allocated : Bool := false

/-- The borrowed names of an entry, in the order they are given back. -/
def PhysicalRegister.names (e : PhysicalRegister) : List PhysReg := e.sharedId.toList ++ e.sharedIds

/-- `Mapping`: the VRAT entry of one architectural register. -/
structure Mapping where
  scalar : Option Phys := none
  vector : Copy → Option Phys := fun _ => none
  vectorized : Bool := false
  lanePhysical : Lane → Option Phys := fun _ => none
  laneElement : Lane → Lane := fun _ => 0
  laneVectorized : Lane → Bool := fun _ => false

/-- The register file proper; `shared` is `usesSharedPhysicalBank()`. -/
structure File where
  vrat : Arch → Mapping := fun _ => {}
  physical : Phys → PhysicalRegister := fun _ => {}
  allocated : Phys → Bool := fun _ => false
  shared : Bool := false

/-- The simulated CPU's free lists and register values. -/
structure Bank where
  freeList : FreeList
  regFile : PhysReg → RegVal

/-- A register file and the bank it is configured with. -/
structure State where
  file : File
  bank : Bank

namespace State

/-- Write an entry. -/
def setEntry (s : State) (p : Phys) (e : PhysicalRegister) : State :=
  { s with file := { s.file with physical := update s.file.physical p e } }

/-- Write a mapping. -/
def setMapping (s : State) (arch : Arch) (m : Mapping) : State :=
  { s with file := { s.file with vrat := update s.file.vrat arch m } }

/-- Mark an entry. -/
def setAllocated (s : State) (p : Phys) (b : Bool) : State :=
  { s with file := { s.file with allocated := update s.file.allocated p b } }

/-! ## Values -/

/-- The value of a lane in an entry. -/
def readPhysical (s : State) (phys : Option Phys) (lane : Lane) : RegVal :=
  match phys with
  | none => 0
  | some p =>
    if s.file.allocated p = false then 0
    else
      let entry := s.file.physical p
      if s.file.shared && entry.vector then
        match entry.sharedIds[lane.val % 8]? with
        | some shared_id => s.bank.regFile shared_id
        | none => entry.values lane
      else entry.values lane

/-- Write a lane of an entry. -/
def writePhysical (s : State) (phys : Option Phys) (lane : Lane) (value : RegVal) : State :=
  match phys with
  | none => s
  | some p =>
    if s.file.allocated p = false then s
    else
      let entry := s.file.physical p
      let s := if s.file.shared && entry.vector then
          match entry.sharedIds[lane.val % 8]? with
          | some shared_id =>
              { s with bank := { s.bank with
                  regFile := update s.bank.regFile shared_id value } }
          | none => s
        else s
      s.setEntry p { entry with values := update entry.values lane value }

/-! ## Allocation and reclamation -/

/-- The reclamation shared by `releaseAll`, `markDead`, `releasePhysical` and a failed bundle:
    the names go back to the free list, the entry is blank again. -/
def reclaim (s : State) (p : Phys) : State :=
  let bank := if s.file.shared then
      { s.bank with freeList := s.bank.freeList.addRegs (s.file.physical p).names }
    else s.bank
  (({ s with bank := bank }).setAllocated p false).setEntry p {}

/-- Give an entry back if it is taken. -/
def reclaimAllocated (s : State) (p : Phys) : State := if s.file.allocated p then s.reclaim p else s

/-- Every entry that is taken is given back. -/
def releaseAll (s : State) : State := (finRange 384).foldl reclaimAllocated s

/-- The shared name of a scalar entry.  It is opportunistic: the entry is taken even when the free
    list is empty. -/
def takeScalarName (f : FreeList) : Option PhysReg × FreeList :=
  match f.getReg .Int with
  | some (r, f) => (some r, f)
  | none => (none, f)

/-- Take one scalar entry. -/
def takeScalar (s : State) (p : Phys) : State :=
  let (shared_id, freeList) :=
    if s.file.shared then takeScalarName s.bank.freeList else (none, s.bank.freeList)
  (({ s with bank := { s.bank with freeList } }).setAllocated p true).setEntry p
    { s.file.physical p with allocated := true, vector := false, sharedId := shared_id }

/-- `allocateScalar`: the first free scalar entry. -/
def allocateScalar (s : State) : Option Phys × State :=
  match (finRange 384).find? (fun p =>
      decide (p.val < NumScalarPhysicalRegs) && !s.file.allocated p) with
  | none => (none, s)
  | some p => (some p, s.takeScalar p)

/-- The element loop of `allocateVectorBundle`: up to `n` more names, stopping at an empty list. -/
def takeElements : Nat → FreeList → List PhysReg × FreeList
  | 0, f => ([], f)
  | n + 1, f =>
    match f.getReg .VecElem with
    | none => ([], f)
    | some (r, f) => let (ids, f) := takeElements n f; (r :: ids, f)

/-- The shared names of one vector entry: all eight, or none and the taken ones given back. -/
def takeVectorNames (f : FreeList) : List PhysReg × FreeList :=
  let (shared_ids, f) := takeElements LanesPerVectorCopy f
  if shared_ids.length = LanesPerVectorCopy then (shared_ids, f) else ([], f.addRegs shared_ids)

/-- Take one vector entry. -/
def takeVector (s : State) (p : Phys) : State :=
  let (shared_ids, freeList) :=
    if s.file.shared then takeVectorNames s.bank.freeList else ([], s.bank.freeList)
  (({ s with bank := { s.bank with freeList } }).setAllocated p true).setEntry p
    { s.file.physical p with allocated := true, vector := true, sharedIds := shared_ids }

/-- The search loop of `allocateVectorBundle` over the vector entries; `result` is what has been
    found so far. -/
def bundleLoop : List Phys → List Phys → State → List Phys × State
  | [], result, s => (result, s)
  | p :: ps, result, s =>
    if result.length = VectorCopies then (result, s)
    else if s.file.allocated p then bundleLoop ps result s
    else bundleLoop ps (result ++ [p]) (s.takeVector p)

/-- The entries 256..383, in order. -/
def vectorEntries : List Phys := (finRange 384).filter (fun p => NumScalarPhysicalRegs ≤ p.val)

/-- `allocateVectorBundle`: sixteen vector entries, or none and everything taken given back. -/
def allocateVectorBundle (s : State) : Option (Copy → Phys) × State :=
  let (result, s) := bundleLoop vectorEntries [] s
  if h : result.length = 16 then (some fun i => result.get (i.cast h.symm), s)
  else (none, result.foldl reclaim s)

/-- `markDead` (and `release`, which only calls it). -/
def markDead (s : State) (phys : Option Phys) : State :=
  match phys with
  | none => s
  | some p =>
    if (s.file.physical p).users ≠ 0 then
      s.setEntry p { s.file.physical p with pendingRelease := true }
    else s.reclaim p

/-- One user more. -/
def retainPhysical (s : State) (phys : Option Phys) : State :=
  match phys with
  | none => s
  | some p =>
    if s.file.allocated p = false then s
    else s.setEntry p { s.file.physical p with users := (s.file.physical p).users + 1 }

/-- One user less; the last gives the entry back. -/
def releasePhysical (s : State) (phys : Option Phys) : State :=
  match phys with
  | none => s
  | some p =>
    if s.file.allocated p = false then s
    else
      let s := s.setEntry p { s.file.physical p with users := (s.file.physical p).users - 1 }
      if (s.file.physical p).users = 0 ∧ (s.file.physical p).pendingRelease then s.reclaim p else s

/-! ## Mappings -/

/-- `push_back` of a valid name that is not in the result yet. -/
def pushDistinct (result : List Phys) : Option Phys → List Phys
  | some p => if p ∈ result then result else result ++ [p]
  | none => result

/-- The distinct names of a list, first occurrence first. -/
def distinct (l : List (Option Phys)) : List Phys := l.foldl pushDistinct []

/-- The entries a register is mapped to, each once. -/
def physicalMappings (s : State) (arch : Arch) : List Phys :=
  let mapping := s.file.vrat arch
  let result := distinct ((finRange 128).map mapping.lanePhysical)
  if result.isEmpty then
    if mapping.vectorized then distinct ((finRange 16).map mapping.vector)
    else mapping.scalar.toList
  else result

/-- The entry of a lane. -/
def physicalIndex (s : State) (arch : Arch) (lane : Lane) : Option Phys :=
  let mapping := s.file.vrat arch
  match mapping.lanePhysical lane with
  | some p => some p
  | none => if mapping.vectorized then mapping.vector (copyOf lane) else mapping.scalar

/-- The lane within its entry. -/
def physicalLane (s : State) (arch : Arch) (lane : Lane) : Lane :=
  let mapping := s.file.vrat arch
  match mapping.lanePhysical lane with
  | some _ => if mapping.laneVectorized lane then mapping.laneElement lane else lane
  | none => if mapping.vectorized then elementOf lane else lane

/-- The value of a register in a lane. -/
def read (s : State) (arch : Arch) (lane : Lane) : RegVal :=
  s.readPhysical (s.physicalIndex arch lane) (s.physicalLane arch lane)

/-- When it is ready. -/
def readyAt (s : State) (arch : Arch) (lane : Lane) : Nat :=
  match s.physicalIndex arch lane with
  | none => 0
  | some p => (s.file.physical p).ready (s.physicalLane arch lane)

/-- `physical[p].ready[lane] = tick`. -/
def setReady (s : State) (p : Phys) (lane : Lane) (tick : Nat) : State :=
  let entry := s.file.physical p
  s.setEntry p { entry with ready := update entry.ready lane tick }

/-- Write a register in a lane. -/
def write (s : State) (arch : Arch) (lane : Lane) (value : RegVal) (ready_tick : Nat) : State :=
  match s.physicalIndex arch lane with
  | none => s
  | some p =>
    let stored_lane := s.physicalLane arch lane
    (s.writePhysical (some p) stored_lane value).setReady p stored_lane ready_tick

/-- `reset`: every name given back, every mapping and entry as constructed. -/
def reset (s : State) : State :=
  let s := s.releaseAll
  { s with file := { s.file with vrat := fun _ => {}, physical := fun _ => {} } }

/-- The register loop of `initialize`, with its early exit. -/
def initializeLoop (regs : Arch → RegVal) : List Arch → State → State
  | [], s => s
  | arch :: rest, s =>
    match s.allocateScalar with
    | (none, s) => s
    | (some p, s) =>
      let s := s.setMapping arch { s.file.vrat arch with
        scalar := some p, lanePhysical := fun _ => some p, laneElement := fun _ => 0,
        laneVectorized := fun _ => false }
      initializeLoop regs rest
        ((finRange 128).foldl (fun s lane => s.writePhysical (some p) lane (regs arch)) s)

/-- `initialize`: the file anew, each register with its value. -/
def initializeRegs (s : State) (regs : Arch → RegVal) : State :=
  initializeLoop regs (finRange 32) s.reset

/-- The copy loop of `vectorize`, lane by lane (`lane = copy * 8 + element`). -/
def vectorizeLane (bundle : Copy → Phys) (old_scalar : Option Phys) (s : State) (lane : Lane) :
    State :=
  let p := bundle (copyOf lane)
  let value := if old_scalar.isSome then s.readPhysical old_scalar lane else 0
  let tick := match old_scalar with
    | some q => (s.file.physical q).ready lane
    | none => 0
  (s.writePhysical (some p) (elementOf lane) value).setReady p (elementOf lane) tick

/-- A scalar gets a vector entry for each copy. -/
def vectorize (s : State) (arch : Arch) : Bool × State :=
  if (s.file.vrat arch).vectorized then (true, s)
  else
    match s.allocateVectorBundle with
    | (none, s) => (false, s)
    | (some bundle, s) =>
      let old_scalar := (s.file.vrat arch).scalar
      let s := (finRange 128).foldl (vectorizeLane bundle old_scalar) s
      let s := s.setMapping arch {
        scalar := none
        vector := fun copy => some (bundle copy)
        vectorized := true
        lanePhysical := fun lane => some (bundle (copyOf lane))
        laneElement := elementOf
        laneVectorized := fun _ => true }
      (true, s.markDead old_scalar)

/-- One iteration of the lane loop of `renameVectorMasked`. -/
def renameVectorLane (arch : Arch) (active_mask : LaneMask) (new_bundle : Copy → Phys) (s : State)
    (lane : Lane) : State :=
  let p := new_bundle (copyOf lane)
  let value := s.read arch lane
  let ready := s.readyAt arch lane
  let s := (s.writePhysical (some p) (elementOf lane) value).setReady p (elementOf lane) ready
  if laneActive active_mask lane then
    let m := s.file.vrat arch
    s.setMapping arch { m with
      lanePhysical := update m.lanePhysical lane (some p)
      laneElement := update m.laneElement lane (elementOf lane)
      laneVectorized := update m.laneVectorized lane true }
  else s

/-- An old name that the new mapping no longer uses is released. -/
def releaseUnless (current_phys : List Phys) (s : State) (old : Phys) : State :=
  if old ∈ current_phys then s else s.markDead (some old)

/-- The release loop that ends both renames. -/
def releaseStale (s : State) (arch : Arch) (old_phys : List Phys) : State :=
  old_phys.foldl (releaseUnless (s.physicalMappings arch)) s

/-- The lanes of the mask get vector entries. -/
def renameVectorMasked (s : State) (arch : Arch) (active_mask : LaneMask) : Bool × State :=
  let old_phys := s.physicalMappings arch
  match s.allocateVectorBundle with
  | (none, s) => (false, s)
  | (some new_bundle, s) =>
    let s := (finRange 128).foldl (renameVectorLane arch active_mask new_bundle) s
    let m := s.file.vrat arch
    let s := s.setMapping arch { m with
      vector := fun copy => some (new_bundle copy), scalar := none,
      vectorized := (finRange 128).all m.laneVectorized }
    (true, s.releaseStale arch old_phys)

/-- One iteration of the lane loop of `renameScalarMasked`. -/
def renameScalarLane (arch : Arch) (active_mask : LaneMask) (p : Phys) (s : State) (lane : Lane) :
    State :=
  if laneActive active_mask lane then
    let value := s.read arch lane
    let s := s.writePhysical (some p) lane value
    let s := s.setReady p lane (s.readyAt arch lane)
    let m := s.file.vrat arch
    s.setMapping arch { m with
      lanePhysical := update m.lanePhysical lane (some p)
      laneElement := update m.laneElement lane 0
      laneVectorized := update m.laneVectorized lane false }
  else s

/-- The summary loop of `renameScalarMasked`: the one scalar name all the lanes share.  `summary`
    is the name seen so far. -/
def scalarSummary (m : Mapping) : List Lane → Option Phys → Option Phys
  | [], summary => summary
  | lane :: rest, summary =>
    if m.laneVectorized lane then none
    else match summary with
      | none => scalarSummary m rest (m.lanePhysical lane)
      | some p => if some p = m.lanePhysical lane then scalarSummary m rest (some p) else none

/-- The lanes of the mask get one scalar entry. -/
def renameScalarMasked (s : State) (arch : Arch) (active_mask : LaneMask) : Option Phys × State :=
  let old_phys := s.physicalMappings arch
  match s.allocateScalar with
  | (none, s) => (none, s)
  | (some p, s) =>
    let s := (finRange 128).foldl (renameScalarLane arch active_mask p) s
    let m := s.file.vrat arch
    let s := s.setMapping arch { m with
      vector := fun _ => none, vectorized := false, scalar := scalarSummary m (finRange 128) none }
    (some p, s.releaseStale arch old_phys)

/-- An entry's flags agree, a free entry has no user, and what is mapped is taken. -/
def conservationValid (f : File) : Bool := (finRange 384).all (fun p =>
    f.allocated p == (f.physical p).allocated &&
      (f.allocated p || (f.physical p).users == 0 && !(f.physical p).pendingRelease)) &&
  (finRange 32).all (fun arch =>
    let mapping := f.vrat arch
    (finRange 128).all (fun lane => (mapping.lanePhysical lane).all f.allocated) &&
      if mapping.vectorized then (finRange 16).all (fun c => (mapping.vector c).all f.allocated)
      else mapping.scalar.all f.allocated)

end State

/-! ## Calls -/

/-- One call on a register file, with the arguments as the caller may pass them. -/
inductive Op
  | reset
  | initializeRegs (regs : Arch → RegVal)
  | allocateScalar
  | allocateVectorBundle
  | vectorize (arch : Nat)
  | renameVectorMasked (arch : Nat) (active_mask : LaneMask)
  | renameScalarMasked (arch : Nat) (active_mask : LaneMask)
  | markDead (phys : Option Phys)
  | retainPhysical (phys : Option Phys)
  | releasePhysical (phys : Option Phys)
  | write (arch lane : Nat) (value : RegVal) (ready_tick : Nat)

/-- The state after one call; an index out of range is refused before anything is done. -/
def step (s : State) : Op → State
  | .reset => s.reset
  | .initializeRegs regs => s.initializeRegs regs
  | .allocateScalar => s.allocateScalar.2
  | .allocateVectorBundle => s.allocateVectorBundle.2
  | .vectorize arch => if h : arch < 32 then (s.vectorize ⟨arch, h⟩).2 else s
  | .renameVectorMasked arch active_mask =>
      if h : arch < 32 then (s.renameVectorMasked ⟨arch, h⟩ active_mask).2 else s
  | .renameScalarMasked arch active_mask =>
      if h : arch < 32 then (s.renameScalarMasked ⟨arch, h⟩ active_mask).2 else s
  | .markDead phys => s.markDead phys
  | .retainPhysical phys => s.retainPhysical phys
  | .releasePhysical phys => s.releasePhysical phys
  | .write arch lane value ready_tick =>
      if h : arch < 32 ∧ lane < 128 then s.write ⟨arch, h.1⟩ ⟨lane, h.2⟩ value ready_tick else s

end Gem5Dvr.HelperRegs
