/-
  The memory dependence unit of a thread (`cpu/o3/mem_dep_unit.cc`).

    1. `DepPred`: the dependence predictor, as far as the unit relies on one.  It may answer any
       number it was told as that of a store.
    2. The unit.  An entry is a shared object that outlives its place in the hash, so the entries
       are a heap at their sequence numbers, and `memDepHash` holds those that are found.
       `readyMemInsts` is what `addReadyMemInst` was called with.
    3. An assertion that fails and a panic leave no result.
-/
import Mathlib.Data.List.Basic
import Mathlib.Logic.Function.Basic

namespace Gem5Dvr.MemDep

/-! ## Instructions and the predictor -/

/-- What the unit reads of an instruction. -/
structure DynInst where
  seqNum : Nat
  pc : Nat := 0
  isLoad : Bool := false
  isStore : Bool := false
  isAtomic : Bool := false
  isReadBarrier : Bool := false
  isWriteBarrier : Bool := false
  isHtmCmd : Bool := false
  canIssue : Bool := false
  deriving DecidableEq, Repr

namespace DynInst

variable (inst : DynInst)

/-- What `insertBarrierSN` asks. -/
def loadBarrier : Bool := inst.isReadBarrier || inst.isHtmCmd
/-- A barrier for stores. -/
def storeBarrier : Bool := inst.isWriteBarrier || inst.isHtmCmd

/-- What `wakeDependents` asks: only stores, atomics and barriers have dependents. -/
def hasDependents : Bool :=
  inst.isStore || inst.isAtomic || inst.isReadBarrier || inst.isWriteBarrier || inst.isHtmCmd

end DynInst

/-- A dependence predictor.  `known` are the numbers it may answer: it learns one only from
    `insertStore`. -/
structure DepPred (σ : Type) where
  init : σ
  checkInst : σ → Nat → Nat
  insertStore : σ → Nat → Nat → σ
  violation : σ → Nat → Nat → σ
  issued : σ → Nat → Nat → Bool → σ
  squash : σ → Nat → Option σ
  known : σ → Nat → Prop
  known_init : ∀ m, ¬ known init m
  known_checkInst : ∀ s pc, checkInst s pc ≠ 0 → known s (checkInst s pc)
  known_insertStore : ∀ s pc n m, known (insertStore s pc n) m → known s m ∨ m = n
  known_violation : ∀ s store load m, known (violation s store load) m → known s m
  known_issued : ∀ s pc n store m, known (issued s pc n store) m → known s m
  known_squash : ∀ s s' num m, squash s num = some s' → known s' m → known s m

/-! ## The unit -/

/-- What waits for an instruction, and what it waits for. -/
structure MemDepEntry where
  inst : DynInst
  dependInsts : List Nat := []
  regsReady : Bool := false
  memDeps : Nat := 0
  squashed : Bool := false
  deriving DecidableEq, Repr

/-- The entries, the barriers and what is ready. -/
structure MemDepUnit (σ : Type) where
  heap : Nat → Option MemDepEntry := fun _ => none
  memDepHash : List Nat := []
  instList : List Nat := []
  loadBarrierSNs : List Nat := []
  storeBarrierSNs : List Nat := []
  depPred : σ
  readyMemInsts : List Nat := []

namespace MemDepUnit

variable {σ : Type} (P : DepPred σ) (u : MemDepUnit σ)

/-- An entry is changed. -/
def setEntry (n : Nat) (f : MemDepEntry → MemDepEntry) : MemDepUnit σ :=
  { u with heap := Function.update u.heap n ((u.heap n).map f) }

/-- The entry of an instruction. -/
def findInHash (n : Nat) : Option MemDepEntry := if n ∈ u.memDepHash then u.heap n else none

/-- A new entry, in the hash and at the end of the list. -/
def newEntry (inst : DynInst) : MemDepUnit σ := { u with
    heap := Function.update u.heap inst.seqNum (some { inst := inst })
    memDepHash := inst.seqNum :: u.memDepHash
    instList := u.instList ++ [inst.seqNum] }

/-- The instruction becomes the barrier of its kinds. -/
def insertBarrierSN (barr_inst : DynInst) : MemDepUnit σ := { u with
    loadBarrierSNs := if barr_inst.loadBarrier then u.loadBarrierSNs.insert barr_inst.seqNum
      else u.loadBarrierSNs
    storeBarrierSNs := if barr_inst.storeBarrier then u.storeBarrierSNs.insert barr_inst.seqNum
      else u.storeBarrierSNs }

/-- The producers that `insert` looks for. -/
def producing_stores (inst : DynInst) : List Nat :=
  if (inst.isLoad || inst.isAtomic) && !u.loadBarrierSNs.isEmpty then u.loadBarrierSNs
  else if (inst.isStore || inst.isAtomic) && !u.storeBarrierSNs.isEmpty then u.storeBarrierSNs
  else
    let dep := P.checkInst u.depPred inst.pc
    if dep ≠ 0 then [dep] else []

/-- Those that it finds. -/
def store_entries (inst : DynInst) : List Nat :=
  (u.producing_stores P inst).filter fun n => n ∈ u.memDepHash

/-- The instruction may issue. -/
def moveToReady (n : Nat) : Option (MemDepUnit σ) := (u.heap n).bind fun e =>
    if e.squashed then none else some { u with readyMemInsts := u.readyMemInsts ++ [n] }

/-- The instruction is made dependent on the entries. -/
def addDependent (n : Nat) (stores : List Nat) : MemDepUnit σ :=
  let u := stores.foldl (fun u store =>
    u.setEntry store fun e => { e with dependInsts := e.dependInsts ++ [n] }) u
  u.setEntry n fun e => { e with
    regsReady := e.inst.canIssue
    inst := { e.inst with canIssue := false }
    memDeps := stores.length }

/-- The end of both kinds of insertion. -/
def insertStore (inst : DynInst) : Option (MemDepUnit σ) :=
  if inst.isStore || inst.isAtomic then
    some { u with depPred := P.insertStore u.depPred inst.pc inst.seqNum }
  else if inst.isLoad then some u
  else none

/-- An instruction, behind what it depends on. -/
def insert (inst : DynInst) : Option (MemDepUnit σ) :=
  let u := u.newEntry inst
  let stores := u.store_entries P inst
  (if stores.isEmpty then
      if inst.canIssue then
        (u.setEntry inst.seqNum fun e => { e with regsReady := true }).moveToReady inst.seqNum
      else some u
    else some (u.addDependent inst.seqNum stores)).bind fun u =>
    (u.insertBarrierSN inst).insertStore P inst

/-- A barrier. -/
def insertBarrier (barr_inst : DynInst) : MemDepUnit σ :=
  (u.newEntry barr_inst).insertBarrierSN barr_inst

/-- An instruction that waits to be told. -/
def insertNonSpec (inst : DynInst) : Option (MemDepUnit σ) :=
  (u.insertBarrier inst).insertStore P inst

/-- Its registers are ready. -/
def regsReady (n : Nat) : Option (MemDepUnit σ) := (u.findInHash n).bind fun e =>
    let u := u.setEntry n fun e => { e with regsReady := true }
    if e.memDeps = 0 then u.moveToReady n else some u

/-- It may go now. -/
def nonSpecInstReady (n : Nat) : Option (MemDepUnit σ) :=
  (u.findInHash n).bind fun _ => u.moveToReady n

/-- The loop of `wakeDependents`. -/
def wake : List Nat → MemDepUnit σ → Option (MemDepUnit σ)
  | [], u => some u
  | woken :: rest, u =>
    (u.heap woken).bind fun e =>
      if e.memDeps = 0 then none
      else
        let u := u.setEntry woken fun e => { e with memDeps := e.memDeps - 1 }
        if e.memDeps - 1 = 0 ∧ e.regsReady = true ∧ e.squashed = false then
          (u.moveToReady woken).bind (wake rest)
        else wake rest u

/-- Those that wait for it have one less to wait for. -/
def wakeDependents (n : Nat) (inst : DynInst) : Option (MemDepUnit σ) :=
  if !inst.hasDependents then some u
  else (u.findInHash n).bind fun e =>
    (wake e.dependInsts u).map fun u => u.setEntry n fun e => { e with dependInsts := [] }

/-- Its entry goes. -/
def completed (n : Nat) : Option (MemDepUnit σ) :=
  if n ∈ u.memDepHash then
    some { u with
      instList := u.instList.filter fun m => m ≠ n
      memDepHash := u.memDepHash.filter fun m => m ≠ n }
  else none

/-- The barriers of `completeInst`: each kind asserts that one is outstanding. -/
def eraseBarrierSN (inst : DynInst) : Option (MemDepUnit σ) :=
  if inst.storeBarrier && u.storeBarrierSNs.isEmpty ||
      inst.loadBarrier && u.loadBarrierSNs.isEmpty then none
  else some { u with
    storeBarrierSNs := if inst.storeBarrier then
        u.storeBarrierSNs.filter fun m => m ≠ inst.seqNum
      else u.storeBarrierSNs
    loadBarrierSNs := if inst.loadBarrier then
        u.loadBarrierSNs.filter fun m => m ≠ inst.seqNum
      else u.loadBarrierSNs }

/-- It completes, and with it its barrier. -/
def completeInst (inst : DynInst) : Option (MemDepUnit σ) :=
  (u.wakeDependents inst.seqNum inst).bind fun u => (u.completed inst.seqNum).bind fun u =>
    u.eraseBarrierSN inst

/-- An instruction that `squash` takes out. -/
def squashInst (n : Nat) : MemDepUnit σ := { u.setEntry n fun e => { e with squashed := true } with
    loadBarrierSNs := u.loadBarrierSNs.filter fun m => m ≠ n
    storeBarrierSNs := u.storeBarrierSNs.filter fun m => m ≠ n
    memDepHash := u.memDepHash.filter fun m => m ≠ n }

/-- The loop of `squash`, on the list from its end. -/
def squashLoop (squashed_num : Nat) : List Nat → MemDepUnit σ → Option (MemDepUnit σ)
  | [], u => some { u with instList := [] }
  | n :: rest, u =>
    if n > squashed_num then
      if n ∈ u.memDepHash then squashLoop squashed_num rest (u.squashInst n) else none
    else some { u with instList := (n :: rest).reverse }

/-- The younger instructions go. -/
def squash (squashed_num : Nat) : Option (MemDepUnit σ) :=
  (squashLoop squashed_num u.instList.reverse u).bind fun u =>
    (P.squash u.depPred squashed_num).map fun p => { u with depPred := p }

end MemDepUnit

end Gem5Dvr.MemDep
