/-
  The store-set predictor (`cpu/o3/store_set.cc`), as the predictor of a memory dependence unit.

    1. The two tables: `SSIT` by the address of an instruction, `LFST` by the store set.  A slot
       that is not valid is `none`.
    2. `storeSet`: a store set answers only numbers it was told as those of stores.
    3. Two runs in which a memory instruction is handed out early.

  The list of stores is in falling order of their numbers, as its comparison has it.
-/
import Gem5Dvr.MemDepReady

namespace Gem5Dvr.MemDep

open Function
open Option (bind_eq_some_iff bind_some map_eq_some_iff)

structure StoreSet where
  SSIT : Nat → Option Nat := fun _ => none
  LFST : Nat → Option Nat := fun _ => none
  /-- What a slot of `LFST` held last, also when it is not valid. -/
  lastLFST : Nat → Nat := fun _ => 0
  storeList : List (Nat × Nat) := []
  memOpsPred : Nat := 0

namespace StoreSet

variable (clearPeriod SSITSize LFSTSize : Nat) (s : StoreSet)

/-- `calcIndex`: the size is a power of two. -/
def calcIndex (PC : Nat) : Nat := PC / 4 % SSITSize

def calcSSID (PC : Nat) : Nat := (PC ^^^ PC / 1024) % LFSTSize

def clear : StoreSet := { s with SSIT := fun _ => none, LFST := fun _ => none, storeList := [] }

def checkClear : StoreSet :=
  if s.memOpsPred + 1 > clearPeriod then { s.clear with memOpsPred := 0 }
  else { s with memOpsPred := s.memOpsPred + 1 }

def violation (store_PC load_PC : Nat) : StoreSet :=
  let load_index := calcIndex SSITSize load_PC
  let store_index := calcIndex SSITSize store_PC
  match s.SSIT load_index, s.SSIT store_index with
  | none, none =>
    let new_set := calcSSID LFSTSize load_PC
    { s with
      SSIT := update (update s.SSIT load_index (some new_set)) store_index (some new_set) }
  | some load_SSID, none =>
    { s with SSIT := update s.SSIT store_index (some load_SSID) }
  | none, some store_SSID =>
    { s with SSIT := update s.SSIT load_index (some store_SSID) }
  | some load_SSID, some store_SSID =>
    if store_SSID > load_SSID then
      { s with SSIT := update s.SSIT store_index (some load_SSID) }
    else { s with SSIT := update s.SSIT load_index (some store_SSID) }

/-- An element of the list of stores is written. -/
def insertList (n ssid : Nat) : List (Nat × Nat) → List (Nat × Nat)
  | [] => [(n, ssid)]
  | (m, i) :: rest =>
    if m > n then (m, i) :: insertList n ssid rest
    else if m = n then (n, ssid) :: rest
    else (n, ssid) :: (m, i) :: rest

def insertStore (store_PC store_seq_num : Nat) : StoreSet :=
  let s := s.checkClear clearPeriod
  match s.SSIT (calcIndex SSITSize store_PC) with
  | none => s
  | some store_SSID =>
    { s with
      LFST := update s.LFST store_SSID (some store_seq_num)
      lastLFST := update s.lastLFST store_SSID store_seq_num
      storeList := insertList store_seq_num store_SSID s.storeList }

/-- `checkInst`: zero when there is none. -/
def checkInst (PC : Nat) : Nat :=
  ((s.SSIT (calcIndex SSITSize PC)).bind fun inst_SSID => s.LFST inst_SSID).getD 0

def issued (issued_PC issued_seq_num : Nat) (is_store : Bool) : StoreSet :=
  if is_store = false then s
  else
    let s := { s with storeList := s.storeList.filter fun x => x.1 ≠ issued_seq_num }
    match s.SSIT (calcIndex SSITSize issued_PC) with
    | none => s
    | some store_SSID =>
      if s.LFST store_SSID = some issued_seq_num then
        { s with LFST := update s.LFST store_SSID none }
      else s

/-- The loop of `squash`.  An element that is to go, but whose slot holds an older number, is met
    again and again. -/
def squashLoop (squashed_num : Nat) : List (Nat × Nat) → StoreSet → Option StoreSet
  | [], s => some { s with storeList := [] }
  | (n, idx) :: rest, s =>
    if n ≤ squashed_num then some { s with storeList := (n, idx) :: rest }
    else if s.lastLFST idx > squashed_num then
      squashLoop squashed_num rest { s with LFST := update s.LFST idx none }
    else none

def squash (squashed_num : Nat) : Option StoreSet := squashLoop squashed_num s.storeList s

/-! ## As the predictor of a unit -/

/-- The numbers it may answer. -/
def Knows (m : Nat) : Prop := ∃ idx, s.LFST idx = some m

variable {clearPeriod SSITSize LFSTSize s}

theorem Knows.of_clear {m : Nat} (h : (s.checkClear clearPeriod).Knows m) : s.Knows m := by
  obtain ⟨idx, h⟩ := h
  unfold checkClear at h
  split at h
  · cases h
  · exact ⟨idx, h⟩

theorem Knows.of_drop {idx m : Nat}
    (h : { s with LFST := update s.LFST idx none }.Knows m) : s.Knows m := by
  obtain ⟨i, h⟩ := h
  have h : update s.LFST idx none i = some m := h
  by_cases hi : i = idx
  · rw [hi, update_self] at h
    cases h
  · rw [update_of_ne hi] at h
    exact ⟨i, h⟩

theorem knows_checkInst {pc : Nat} (h : s.checkInst SSITSize pc ≠ 0) :
    s.Knows (s.checkInst SSITSize pc) := by
  unfold checkInst at h ⊢
  cases hs : s.SSIT (calcIndex SSITSize pc) with
  | none =>
    rw [hs] at h
    exact absurd rfl h
  | some ssid =>
    rw [hs] at h
    simp only [bind_some] at h ⊢
    cases hl : s.LFST ssid with
    | none =>
      rw [hl] at h
      exact absurd rfl h
    | some n => exact ⟨ssid, hl⟩

theorem knows_insertStore {pc n m : Nat} (h : (s.insertStore clearPeriod SSITSize pc n).Knows m) :
    s.Knows m ∨ m = n := by
  unfold insertStore at h
  dsimp only at h
  split at h
  · exact Or.inl h.of_clear
  · rename_i ssid _
    obtain ⟨i, h⟩ := h
    have h : update (s.checkClear clearPeriod).LFST ssid (some n) i = some m := h
    by_cases hi : i = ssid
    · rw [hi, update_self] at h
      exact Or.inr (Option.some.inj h).symm
    · rw [update_of_ne hi] at h
      exact Or.inl (Knows.of_clear ⟨i, h⟩)

theorem violation_LFST (store_PC load_PC : Nat) :
    (s.violation SSITSize LFSTSize store_PC load_PC).LFST = s.LFST := by
  unfold violation
  dsimp only
  split
  · rfl
  · rfl
  · rfl
  · split
    · rfl
    · rfl

theorem knows_issued {pc n m : Nat} {is_store : Bool}
    (h : (s.issued SSITSize pc n is_store).Knows m) : s.Knows m := by
  unfold issued at h
  split at h
  · exact h
  · dsimp only at h
    split at h
    · exact h
    · split at h
      · exact h.of_drop
      · exact h

theorem knows_squashLoop {num m : Nat} : ∀ {l : List (Nat × Nat)} {s s' : StoreSet},
    squashLoop num l s = some s' → s'.Knows m → s.Knows m := by
  intro l
  induction l with
  | nil =>
    intro s s' h hk
    cases h
    exact hk
  | cons x rest ih =>
    intro s s' h hk
    rw [squashLoop] at h
    split at h
    · cases h
      exact hk
    · split at h
      · exact (ih h hk).of_drop
      · cases h

end StoreSet

/-- A store-set predictor, with its parameters. -/
def storeSet (clearPeriod SSITSize LFSTSize : Nat) : DepPred StoreSet where
  init := {}
  checkInst s pc := s.checkInst SSITSize pc
  insertStore s pc n := s.insertStore clearPeriod SSITSize pc n
  violation s store load := s.violation SSITSize LFSTSize store load
  issued s pc n is_store := s.issued SSITSize pc n is_store
  squash s num := s.squash num
  known := StoreSet.Knows
  known_init := by
    rintro m ⟨idx, h⟩
    exact nomatch h
  known_checkInst _ _ h := StoreSet.knows_checkInst h
  known_insertStore _ _ _ _ h := StoreSet.knows_insertStore h
  known_violation s store load m h := by
    obtain ⟨idx, h⟩ := h
    rw [StoreSet.violation_LFST] at h
    exact ⟨idx, h⟩
  known_issued _ _ _ _ _ h := StoreSet.knows_issued h
  known_squash _ _ _ _ h hk := StoreSet.knows_squashLoop h hk

/-! ## Handed out early -/

namespace Run

/-- A load at 8 is told to wait for the store at 4.  It comes behind a barrier, which completes
    before the store. -/
def predictedEarly : List Event :=
  [.violation 4 8, .insert { seqNum := 1, pc := 4, isStore := true },
    .insertBarrier { seqNum := 2, isReadBarrier := true },
    .insert { seqNum := 3, pc := 8, isLoad := true, canIssue := true }]

/-- An atomic behind a read and a write barrier. -/
def atomicEarly : List Event := [.insertBarrier { seqNum := 1, isReadBarrier := true },
    .insertBarrier { seqNum := 2, isWriteBarrier := true },
    .insert { seqNum := 3, isAtomic := true, canIssue := true }]

/-- The predicted store, tracked at the insertion of the load, need not have completed; nor need a
    write barrier before an atomic. -/
theorem ready_before_predicted_and_barrier : (¬ ∀ evs ev r r',
      Trace.runs (step (storeSet 250000 1024 1024)) (init (storeSet 250000 1024 1024)) evs =
        some r →
      r.step (storeSet 250000 1024 1024) ev = some r' →
      ∀ n i, n ∈ r'.unit.readyMemInsts → n ∉ r.unit.readyMemInsts → r'.inserted n = some i →
        i.predicted ≠ 0 → i.tracked = true → i.predicted ∈ r'.completed) ∧
    ¬ ∀ evs ev r r',
      Trace.runs (step (storeSet 250000 1024 1024)) (init (storeSet 250000 1024 1024)) evs =
        some r →
      r.step (storeSet 250000 1024 1024) ev = some r' →
      ∀ n i, n ∈ r'.unit.readyMemInsts → n ∉ r.unit.readyMemInsts → r'.inserted n = some i →
        (i.inst.isStore || i.inst.isAtomic) = true → r'.BarriersDone n DynInst.storeBarrier := by
  constructor
  · intro h
    have hrun : ((Trace.runs (step (storeSet 250000 1024 1024)) (init (storeSet 250000 1024 1024))
        predictedEarly).bind fun r => (r.step (storeSet 250000 1024 1024) (.completeInst 2)).map
        fun r' => (r.unit.readyMemInsts, r'.unit.readyMemInsts, r'.completed,
          (r'.inserted 3).map fun i => (i.predicted, i.tracked))) =
        some ([], [3], [2], some (1, true)) := by
      decide
    obtain ⟨r, hr, hrun⟩ := bind_eq_some_iff.mp hrun
    obtain ⟨r', hr', hobs⟩ := map_eq_some_iff.mp hrun
    simp only [Prod.mk.injEq] at hobs
    obtain ⟨hready, hready', hdone, hins⟩ := hobs
    obtain ⟨i, hi, hpred⟩ := map_eq_some_iff.mp hins
    obtain ⟨hp, ht⟩ := Prod.mk.inj hpred
    have hin := h _ _ r r' hr hr' 3 i (by rw [hready']; decide) (by rw [hready]; decide) hi
      (by rw [hp]; decide) ht
    rw [hp, hdone] at hin
    exact absurd hin (by decide)
  · intro h
    have hrun : ((Trace.runs (step (storeSet 250000 1024 1024)) (init (storeSet 250000 1024 1024))
        atomicEarly).bind fun r => (r.step (storeSet 250000 1024 1024) (.completeInst 1)).map
        fun r' => (r.unit.readyMemInsts, r'.unit.readyMemInsts, r'.completed,
          (r'.inserted 3).map fun i => i.inst.isAtomic)) = some ([], [3], [1], some true) := by
      decide
    have hbarrier : ((Trace.runs (step (storeSet 250000 1024 1024))
        (init (storeSet 250000 1024 1024)) atomicEarly).bind fun r =>
        (r.step (storeSet 250000 1024 1024) (.completeInst 1)).bind fun r' =>
          (r'.unit.heap 2).map fun e => (e.inst.storeBarrier, e.squashed)) =
        some (true, false) := by
      decide
    obtain ⟨r, hr, hrun⟩ := bind_eq_some_iff.mp hrun
    obtain ⟨r', hr', hobs⟩ := map_eq_some_iff.mp hrun
    simp only [Prod.mk.injEq] at hobs
    obtain ⟨hready, hready', hdone, hins⟩ := hobs
    obtain ⟨i, hi, hatomic⟩ := map_eq_some_iff.mp hins
    rw [hr, bind_some, hr', bind_some] at hbarrier
    obtain ⟨e, he, hkind⟩ := map_eq_some_iff.mp hbarrier
    obtain ⟨hk, hs⟩ := Prod.mk.inj hkind
    rcases h _ _ r r' hr hr' 3 i (by rw [hready']; decide) (by rw [hready]; decide) hi
      (by rw [hatomic, Bool.or_true]) 2 e (by decide) he hk with hsq | hc
    · exact Bool.noConfusion (hs.symm.trans hsq)
    · rw [hdone] at hc
      exact absurd hc (by decide)

/-- A load behind a read barrier, with its registers. -/
def loadBehindBarrier : List Event := [.insertBarrier { seqNum := 1, isReadBarrier := true },
    .insert { seqNum := 2, pc := 8, isLoad := true }, .regsReady 2]

/-- It is handed out when the barrier completes. -/
theorem ready_when_done_barrier : ∃ r r' : Run StoreSet, 2 ∉ r.unit.readyMemInsts ∧
    2 ∈ r'.unit.readyMemInsts ∧ r'.BarriersDone 2 DynInst.loadBarrier := by
  let P := storeSet 250000 1024 1024
  have hrun : ((Trace.runs (step P) (init P) loadBehindBarrier).bind fun r =>
      (r.step P (.completeInst 1)).map fun r' => (r.unit.readyMemInsts, r'.unit.readyMemInsts,
        (r'.inserted 2).map fun i => i.inst.isLoad)) = some ([], [2], some true) := by
    decide
  obtain ⟨r, hr, hrun⟩ := bind_eq_some_iff.mp hrun
  obtain ⟨r', hr', hobs⟩ := map_eq_some_iff.mp hrun
  simp only [Prod.mk.injEq] at hobs
  obtain ⟨hready, hready', hins⟩ := hobs
  obtain ⟨i, hi, hload⟩ := map_eq_some_iff.mp hins
  have hin : 2 ∈ r'.unit.readyMemInsts := by
    rw [hready']
    decide
  have hnot : 2 ∉ r.unit.readyMemInsts := by
    rw [hready]
    decide
  obtain ⟨-, -, hloads, -⟩ := (ready_when_done hr hr').1 2 i hin hnot hi
  exact ⟨r, r', hnot, hin, hloads (by rw [hload]; rfl)⟩

end Run

end Gem5Dvr.MemDep
