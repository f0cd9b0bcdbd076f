/-
  Register renaming, precise runahead and the helper files on one free list.

  Source: `Rename::renameSrcRegs`, `renameDestRegs`, `doSquash`, `removeFromHistory` and the PRE part
  of `Rename::tick` (`cpu/o3/rename.cc`), `SimpleRenameMap::rename` (`rename_map.cc`),
  `CPU::enterPRE`/`exitPRE` (`cpu.cc`).  The free list is the one in the bank that the helper register
  files of `HelperNames` are configured with, so a helper call moves names here too.

  Reading of the source:
    * one thread (PRE supports single thread only), renameable classes only;
    * `historyBuffer` is a list, NEWEST first, as `push_front` keeps it;
    * `prdq` is a list, oldest first; `executing` is the PRE instructions whose completion IEW has
      still to report (an instruction squashed in the back end leaves it without one);
    * `numRef` is an `int`;
    * a cleared `checkpointRenameMap` is never read before the next `enterPRE` writes it, so the
      model does not clear it.

  `legal` is what `Commit::tick` arranges: PRE is entered and left in turn, nothing commits in
  between, a squash inside PRE comes from a PRE branch and is younger than the whole reorder buffer,
  and the PRE instructions have been flushed from the pipeline before PRE is entered again.
-/
import Gem5Dvr.HelperNames
import Mathlib.Data.Fintype.Sigma
import Mathlib.Data.List.DropRight

namespace Gem5Dvr.Rename

open Function

/-- The classes in the order of `RegClassType`. -/
def regClasses : List RegClass := [.Int, .Float, .Vec, .VecElem, .VecPred, .CC]

theorem mem_regClasses (c : RegClass) : c ∈ regClasses := by cases c <;> decide

instance : Fintype RegClass := ⟨regClasses.toFinset, fun c => List.mem_toFinset.mpr (mem_regClasses c)⟩

/-- `RegId(type, ridx)`: an architectural register of a renameable class. -/
abbrev RegId (numRegs : RegClass → Nat) := (type : RegClass) × Fin (numRegs type)

/-- What a rename did to a register. -/
structure RenameHistory (numRegs : RegClass → Nat) where
  instSeqNum : Nat
  archReg : RegId numRegs
  newPhysReg : PhysReg
  prevPhysReg : PhysReg

/-- What a PRE instruction carries: `renamedSrcIdx`, `renamedDestIdx`, `prevDestIdx`. -/
structure PreInst where
  seqNum : Nat
  srcs : List PhysReg := []
  dests : List PhysReg := []
  prevDests : List PhysReg := []
  readyToCommit : Bool := false

/-- `DynInst::renameSrcReg`, `DynInst::renameDestReg`: record an operand. -/
def PreInst.renameSrcReg (inst : PreInst) (renamed_src : PhysReg) : PreInst :=
  { inst with srcs := inst.srcs ++ [renamed_src] }

/-- A destination gets its name. -/
def PreInst.renameDestReg (inst : PreInst) (renamed_dest previous_rename : PhysReg) : PreInst :=
  { inst with
    dests := inst.dests ++ [renamed_dest]
    prevDests := inst.prevDests ++ [previous_rename] }

/-- A destination register with the pinned writes the static instruction asks for. -/
structure Dest (numRegs : RegClass → Nat) where
  reg : RegId numRegs
  numPinnedWrites : Nat := 0

/-- The rename stage, the checkpoint of the CPU, and the `n` helper files on the same free list. -/
structure State (numRegs : RegClass → Nat) (n : Nat) where
  renameMap : RegId numRegs → PhysReg
  helpers : HelperRegs.System n
  historyBuffer : List (RenameHistory numRegs) := []
  prdq : List PreInst := []
  executing : List PreInst := []
  usableForPRE : PhysReg → Bool
  overwritten : PhysReg → Bool
  numRef : PhysReg → Int
  numPinnedWrites : PhysReg → Nat
  inPRE : Bool := false
  checkpointRenameMap : RegId numRegs → PhysReg
  checkpointFreeList : FreeList

namespace State

variable {numRegs : RegClass → Nat} {n : Nat}

/-- The free list. -/
def freeList (s : State numRegs n) : FreeList := s.helpers.bank.freeList

/-- Write the free list. -/
def setFreeList (s : State numRegs n) (f : FreeList) : State numRegs n :=
  { s with helpers := { s.helpers with bank := { s.helpers.bank with freeList := f } } }

/-- A name is free. -/
def addReg (s : State numRegs n) (freed_reg : PhysReg) : State numRegs n :=
  s.setFreeList (s.freeList.addReg freed_reg)

/-- Write the map. -/
def setEntry (s : State numRegs n) (arch_reg : RegId numRegs) (phys_reg : PhysReg) :
    State numRegs n :=
  { s with renameMap := update s.renameMap arch_reg phys_reg }

/-- Write a count of references. -/
def setNumRef (s : State numRegs n) (r : PhysReg) (k : Int) : State numRegs n :=
  { s with numRef := update s.numRef r k }

/-- `setNumPinnedWrites`, `decrNumPinnedWrites`, `incrNumPinnedWrites`. -/
def setPinned (s : State numRegs n) (r : PhysReg) (k : Nat) : State numRegs n :=
  { s with numPinnedWrites := update s.numPinnedWrites r k }

/-- Write a mark. -/
def setOverwritten (s : State numRegs n) (r : PhysReg) (b : Bool) : State numRegs n :=
  { s with overwritten := update s.overwritten r b }

/-! ## Renaming -/

/-- `UnifiedRenameMap::canRename`. -/
def canRename (s : State numRegs n) (dests : List (Dest numRegs)) : Bool :=
  regClasses.all fun type =>
    (dests.filter (·.reg.1 = type)).length ≤ (s.freeList.regs type).length

/-- One source operand of `renameSrcRegs`; `inst` is the instruction being renamed. -/
def renameSrcReg (earlyRecycle : Bool) (x : State numRegs n × PreInst) (src_reg : RegId numRegs) :
    State numRegs n × PreInst :=
  let (s, inst) := x
  let renamed_reg := s.renameMap src_reg
  (if earlyRecycle then s.setNumRef renamed_reg (s.numRef renamed_reg + 1) else s,
    inst.renameSrcReg renamed_reg)

/-- `SimpleRenameMap::rename`: the new and the previous physical register.  A pinned register is
    not renamed; `none` is the assertion that the free list is not empty. -/
def rename (s : State numRegs n) (dest : Dest numRegs) :
    Option (PhysReg × PhysReg × State numRegs n) :=
  let prev_reg := s.renameMap dest.reg
  if 0 < s.numPinnedWrites prev_reg then
    some (prev_reg, prev_reg, s.setPinned prev_reg (s.numPinnedWrites prev_reg - 1))
  else
    match s.freeList.getReg dest.reg.1 with
    | none => none
    | some (renamed_reg, f) =>
      some (renamed_reg, prev_reg, ((s.setFreeList f).setEntry dest.reg renamed_reg).setPinned
        renamed_reg dest.numPinnedWrites)

/-- The reference counts of `renameDestRegs` in PRE with early recycling. -/
def recycleDest (s : State numRegs n) (first second : PhysReg) : State numRegs n :=
  let s := (s.setNumRef first 1).setOverwritten first false
  if s.usableForPRE second then
    let s := s.setOverwritten second true
    if s.numRef second = 0 then s.addReg second else s
  else s

/-- One destination operand of `renameDestRegs`. -/
def renameDestReg (earlyRecycle : Bool) (x : State numRegs n × PreInst) (dest : Dest numRegs) :
    State numRegs n × PreInst :=
  let (s, inst) := x
  match s.rename dest with
  | none => (s, inst)
  | some (first, second, s) =>
    let s := if s.inPRE && earlyRecycle then s.recycleDest first second else s
    let s := if s.inPRE then s
      else { s with historyBuffer := ⟨inst.seqNum, dest.reg, first, second⟩ :: s.historyBuffer }
    (s, inst.renameDestReg first second)

/-- In PRE, put the instruction in the PRDQ instead of the reorder buffer. -/
def insertInst (x : State numRegs n × PreInst) : State numRegs n :=
  if x.1.inPRE then
    { x.1 with prdq := x.1.prdq ++ [x.2], executing := x.1.executing ++ [x.2] }
  else x.1

/-- Rename one instruction. -/
def renameInst (earlyRecycle : Bool) (s : State numRegs n) (seqNum : Nat)
    (srcs : List (RegId numRegs)) (dests : List (Dest numRegs)) : State numRegs n :=
  if s.canRename dests then
    insertInst (dests.foldl (renameDestReg earlyRecycle)
      (srcs.foldl (renameSrcReg earlyRecycle) (s, { seqNum })))
  else s

/-! ## Commit and squash -/

/-- One history entry of `removeFromHistory`. -/
def commitEntry (s : State numRegs n) (hb_it : RenameHistory numRegs) : State numRegs n :=
  if hb_it.newPhysReg ≠ hb_it.prevPhysReg then s.addReg hb_it.prevPhysReg else s

/-- `removeFromHistory`: from the oldest entry on, up to the committed sequence number. -/
def removeFromHistory (s : State numRegs n) (inst_seq_num : Nat) : State numRegs n :=
  let committed : RenameHistory numRegs → Bool := fun hb_it => hb_it.instSeqNum ≤ inst_seq_num
  (s.historyBuffer.reverse.takeWhile committed).foldl commitEntry
    { s with historyBuffer := s.historyBuffer.rdropWhile committed }

/-- One history entry of `doSquash`. -/
def undoEntry (s : State numRegs n) (hb_it : RenameHistory numRegs) : State numRegs n :=
  if hb_it.newPhysReg ≠ hb_it.prevPhysReg then
    (s.setEntry hb_it.archReg hb_it.prevPhysReg).addReg hb_it.newPhysReg
  else s

/-- The history loop of `doSquash`, newest entry first. -/
def undoLoop (squashed_seq_num : Nat) : List (RenameHistory numRegs) → State numRegs n →
    State numRegs n
  | [], s => { s with historyBuffer := [] }
  | hb_it :: rest, s =>
    if hb_it.instSeqNum > squashed_seq_num then undoLoop squashed_seq_num rest (s.undoEntry hb_it)
    else { s with historyBuffer := hb_it :: rest }

/-- The younger renames are undone. -/
def doSquash (s : State numRegs n) (squashed_seq_num : Nat) : State numRegs n :=
  let s := undoLoop squashed_seq_num s.historyBuffer s
  { s with prdq := s.prdq.rdropWhile fun inst => inst.seqNum > squashed_seq_num }

/-! ## PRE -/

/-- The destinations of one instruction leaving the PRDQ. -/
def retireDest (earlyRecycle : Bool) (s : State numRegs n) (oldPhysReg : PhysReg) :
    State numRegs n :=
  if s.usableForPRE oldPhysReg && !earlyRecycle then s.addReg oldPhysReg else s

/-- PRDQ retirement, one instruction. -/
def retirePRDQ (earlyRecycle : Bool) (s : State numRegs n) : State numRegs n :=
  if s.inPRE then
    match s.prdq with
    | [] => s
    | inst :: rest =>
      if inst.readyToCommit then
        { inst.prevDests.foldl (retireDest earlyRecycle) s with prdq := rest }
      else s
  else s

/-- One register of a completed instruction with early recycling. -/
def recycleReg (s : State numRegs n) (r : PhysReg) : State numRegs n :=
  if s.usableForPRE r then
    let s := s.setNumRef r (s.numRef r - 1)
    if s.numRef r = 0 ∧ s.overwritten r then s.addReg r else s
  else s

/-- IEW reports that a PRE instruction, the `i`-th one executing, is complete. -/
def complete (earlyRecycle : Bool) (s : State numRegs n) (i : Nat) : State numRegs n :=
  match s.executing[i]? with
  | none => s
  | some inst =>
    let s := { s with executing := s.executing.eraseIdx i }
    if s.inPRE then
      let s := { s with prdq := s.prdq.map fun e =>
        if e.seqNum = inst.seqNum then { e with readyToCommit := true } else e }
      if earlyRecycle then (inst.srcs ++ inst.dests).foldl recycleReg s else s
    else s

/-- The architectural registers of one class, in order. -/
def archRegs (type : RegClass) : List (RegId numRegs) :=
  (List.finRange (numRegs type)).map fun ridx => ⟨type, ridx⟩

/-- Checkpoint one rename map entry. -/
def checkpointReg (s : State numRegs n) (rid : RegId numRegs) : State numRegs n :=
  let phys_reg := s.renameMap rid
  { s with
    usableForPRE := update s.usableForPRE phys_reg false
    checkpointRenameMap := update s.checkpointRenameMap rid phys_reg }

/-- One free register, the rest of the queue being `f`: it goes to the back, is marked and saved. -/
def checkpointFreeReg (s : State numRegs n) (phys_reg : PhysReg) (f : FreeList) : State numRegs n :=
  { (s.setFreeList f).addReg phys_reg with
    usableForPRE := update s.usableForPRE phys_reg true
    checkpointFreeList := s.checkpointFreeList.addReg phys_reg }

/-- Checkpoint a free list by taking every register once round the queue. -/
def checkpointFree (type : RegClass) : Nat → State numRegs n → State numRegs n
  | 0, s => s
  | num + 1, s =>
    match s.freeList.getReg type with
    | none => s
    | some (phys_reg, f) => checkpointFree type num (s.checkpointFreeReg phys_reg f)

/-- The part of a class. -/
def enterClass (s : State numRegs n) (type : RegClass) : State numRegs n :=
  checkpointFree type (s.freeList.regs type).length ((archRegs type).foldl checkpointReg s)

/-- Map and free lists are kept, class by class. -/
def enterPRE (s : State numRegs n) : State numRegs n :=
  { regClasses.foldl enterClass s with inPRE := true }

/-- Empty the free list of one class. -/
def drainFree (type : RegClass) : Nat → State numRegs n → State numRegs n
  | 0, s => s
  | num + 1, s =>
    match s.freeList.getReg type with
    | none => s
    | some (_, f) => drainFree type num (s.setFreeList f)

/-- The part of a class. -/
def exitClass (s : State numRegs n) (type : RegClass) : State numRegs n :=
  let s := (archRegs type).foldl (fun s rid => s.setEntry rid (s.checkpointRenameMap rid)) s
  let s := drainFree type (s.freeList.regs type).length s
  let s := (s.checkpointFreeList.regs type).foldl addReg s
  { s with checkpointFreeList := s.checkpointFreeList.clear type }

/-- They are put back. -/
def exitPRE (s : State numRegs n) : State numRegs n :=
  { regClasses.foldl exitClass s with inPRE := false }

end State

/-! ## Runs -/

variable {numRegs : RegClass → Nat} {n : Nat}

/-- One event of the pipeline. -/
inductive Event (numRegs : RegClass → Nat) (n : Nat)
  | rename (seqNum : Nat) (srcs : List (RegId numRegs)) (dests : List (Dest numRegs))
  | removeFromHistory (inst_seq_num : Nat)
  | doSquash (squashed_seq_num : Nat)
  | enterPRE
  | exitPRE
  | retirePRDQ
  | complete (i : Nat)
  /-- A PRE instruction squashed in the back end: its completion is never reported. -/
  | squashExecuting (i : Nat)
  /-- `DynInst::setSquashed` of an instruction with a pinned destination. -/
  | incrNumPinnedWrites (r : PhysReg)
  | helper (op : HelperRegs.SystemOp n)

def step (earlyRecycle : Bool) (s : State numRegs n) : Event numRegs n → State numRegs n
  | .rename seqNum srcs dests => s.renameInst earlyRecycle seqNum srcs dests
  | .removeFromHistory inst_seq_num => s.removeFromHistory inst_seq_num
  | .doSquash squashed_seq_num => s.doSquash squashed_seq_num
  | .enterPRE => s.enterPRE
  | .exitPRE => s.exitPRE
  | .retirePRDQ => s.retirePRDQ earlyRecycle
  | .complete i => s.complete earlyRecycle i
  | .squashExecuting i => { s with executing := s.executing.eraseIdx i }
  | .incrNumPinnedWrites r => s.setPinned r (s.numPinnedWrites r + 1)
  | .helper op => { s with helpers := s.helpers.step op }

/-- What `Commit::tick` arranges. -/
def legal (s : State numRegs n) : Event numRegs n → Prop
  | .removeFromHistory _ => s.inPRE = false
  | .doSquash squashed_seq_num =>
      s.inPRE = true → ∀ hb_it ∈ s.historyBuffer, hb_it.instSeqNum ≤ squashed_seq_num
  | .enterPRE => s.inPRE = false ∧ s.prdq = [] ∧ s.executing = []
  | .exitPRE => s.inPRE = true
  | _ => True

/-- The register classes of the ISA and the physical registers the CPU is built with; the
    constructor asserts that there are enough of them. -/
structure Config where
  numRegs : RegClass → Nat
  numPhys : RegClass → Nat
  enough : ∀ c, numRegs c ≤ numPhys c

/-- `initFreeList` and the initial rename map: the first registers of each class are mapped, the
    rest is free, and all helper files are as constructed. -/
def start (cfg : Config) (n : Nat) (regFile : PhysReg → RegVal)
    (usableForPRE overwritten : PhysReg → Bool) (numRef : PhysReg → Int) : State cfg.numRegs n where
  renameMap rid := ⟨rid.1, rid.2⟩
  helpers := HelperRegs.System.start n
    { freeList :=
        { regs := fun c => (List.range' (cfg.numRegs c) (cfg.numPhys c - cfg.numRegs c)).map (⟨c, ·⟩)
          classed := by
            intro c r hr
            obtain ⟨i, -, rfl⟩ := List.mem_map.mp hr
            rfl }
      regFile }
  usableForPRE := usableForPRE
  overwritten := overwritten
  numRef := numRef
  numPinnedWrites := fun _ => 0
  checkpointRenameMap rid := ⟨rid.1, rid.2⟩
  checkpointFreeList := .empty

end Gem5Dvr.Rename
