/-
  The store-queue scan of a load (`LSQUnit::read`, `cpu/o3/lsq_unit.cc` 1336-1653).

    1. **Program** — the scan goes from the youngest older store to the oldest.  A store covers the
       load in full, in part or not at all; a load forwards from the first that covers it in full
       and waits for the first that covers it in part.  A PRE load has no queue entry to wait with.
    2. **Specification** — `Right`: what is forwarded comes from the youngest older executed store
       that writes a byte of the load, and that store writes all of them.
    3. **The crux (`read_right_iff`)** — "treat partial coverage as miss" is a `continue`: a PRE
       load goes on to older stores, and the first of them that covers it in full is taken,
       whatever was passed over.  `Unpassed` is what the queue must be like for this not to happen.

  The stores are given youngest first, from `sqIt` down to `storeWBIt`.
-/
import Mathlib.Data.BitVec

namespace Gem5Dvr.Lsq

open List
open BitVec (ofNat toNat_add toNat_ofNat)

/-! ## The program -/

inductive AddrRangeCoverage where
  | PartialAddrRangeCoverage
  | FullAddrRangeCoverage
  | NoAddrRangeCoverage
  deriving DecidableEq

/-- An entry of the store queue; its size is zero until the store is executed. -/
structure SQEntry where
  seqNum : Nat
  effAddr : BitVec 64
  size : Nat
  byteEnable : List Bool := []
  strictlyOrdered : Bool := false
  isCacheMaintenance : Bool := false
  isAtomic : Bool := false
  completed : Bool := false
  isAllZeros : Bool := false
  data : Nat → BitVec 8

/-- `isMasked` of its request. -/
def SQEntry.isMasked (st : SQEntry) : Bool := st.byteEnable.contains false

/-- A load with its request.  `atHead`: it is the head of the load queue, and at commit. -/
structure Load where
  seqNum : Nat
  vaddr : BitVec 64
  size : Nat
  size_pos : 0 < size
  isLLSC : Bool := false
  isStrictlyOrdered : Bool := false
  atHead : Bool := false
  isLocalAccess : Bool := false
  isDataPrefetch : Bool := false
  isPRE : Bool := false

structure StallState where
  stalled : Bool := false
  stallingStoreIsn : Nat := 0
  stallingLoadIdx : Nat := 0

/-- The stall state, and the sequence numbers of the load queue. -/
structure LSQUnit where
  stall : StallState
  loadQueue : Nat → Nat

/-- What becomes of a load. -/
inductive Outcome where
  | forward (store : SQEntry) (memData : List (BitVec 8))
  | rescheduled
  | memory
  | fault
  | localAccess

/-- The stores that are looked at. -/
def SQEntry.considered (st : SQEntry) : Bool :=
  st.size != 0 && !st.strictlyOrdered && !st.isCacheMaintenance

def coverage (ld : Load) (st : SQEntry) : AddrRangeCoverage :=
  let req_s := ld.vaddr
  let req_e := req_s + ofNat 64 ld.size
  let st_s := st.effAddr
  let st_e := st_s + ofNat 64 st.size
  let store_has_lower_limit := st_s ≤ req_s
  let store_has_upper_limit := req_e ≤ st_e
  let lower_load_has_store_part := req_s < st_e
  let upper_load_has_store_part := st_s < req_e
  if st.isAtomic = false ∧ store_has_lower_limit ∧ store_has_upper_limit ∧ ld.isLLSC = false then
    if st.isMasked then .PartialAddrRangeCoverage else .FullAddrRangeCoverage
  else if (ld.isLLSC = false ∧ ((store_has_lower_limit ∧ lower_load_has_store_part) ∨
          (store_has_upper_limit ∧ upper_load_has_store_part) ∨
          (lower_load_has_store_part ∧ upper_load_has_store_part))) ∨
      (ld.isLLSC = true ∧ (store_has_lower_limit ∨ upper_load_has_store_part) ∧
        (store_has_upper_limit ∨ lower_load_has_store_part)) ∨
      (st.isAtomic = true ∧ (store_has_lower_limit ∨ upper_load_has_store_part) ∧
        (store_has_upper_limit ∨ lower_load_has_store_part)) then
    .PartialAddrRangeCoverage
  else .NoAddrRangeCoverage

/-- The bytes a load takes from a store. -/
def memData (ld : Load) (st : SQEntry) : List (BitVec 8) :=
  let shift_amt := (ld.vaddr - st.effAddr).toNat
  (List.range ld.size).map fun i => if st.isAllZeros then 0 else st.data (shift_amt + i)

/-- A load is stalled on a store, where it is the oldest to be. -/
def LSQUnit.stallOn (u : LSQUnit) (ld : Load) (load_idx : Nat) (st : SQEntry) : StallState :=
  if u.stall.stalled = false ∨ ld.seqNum < u.loadQueue u.stall.stallingLoadIdx then
    ⟨true, st.seqNum, load_idx⟩
  else u.stall

/-- The scan; a panic leaves no result. -/
def LSQUnit.scan (u : LSQUnit) (ld : Load) (load_idx : Nat) :
    List SQEntry → Option (Outcome × StallState)
  | [] => some (.memory, u.stall)
  | st :: older =>
    if st.considered = true then
      -- the LSQ cannot stall on a PRE load
      if ld.isPRE = true ∧ coverage ld st = .PartialAddrRangeCoverage then u.scan ld load_idx older
      else if coverage ld st = .FullAddrRangeCoverage then
        some (.forward st (memData ld st), u.stall)
      else if coverage ld st = .PartialAddrRangeCoverage then
        if st.completed = true then none else some (.rescheduled, u.stallOn ld load_idx st)
      else u.scan ld load_idx older
    else u.scan ld load_idx older

def LSQUnit.read (u : LSQUnit) (ld : Load) (load_idx : Nat) (older : List SQEntry) :
    Option (Outcome × StallState) :=
  if ld.isStrictlyOrdered = true ∧ ld.atHead = false then some (.fault, u.stall)
  else if ld.isLocalAccess = true then some (.localAccess, u.stall)
  else if ld.isDataPrefetch = true then some (.memory, u.stall)
  else u.scan ld load_idx older

/-! ## What a load may read, and when it does -/

/-- The bytes of a load. -/
def Load.bytes (ld : Load) : List (BitVec 64) :=
  (List.range ld.size).map fun i => ld.vaddr + ofNat 64 i

/-- The bytes a store writes. -/
def SQEntry.bytes (st : SQEntry) : List (BitVec 64) :=
  ((List.range st.size).filter fun i => st.byteEnable[i]? != some false).map fun i =>
    st.effAddr + ofNat 64 i

/-- An executed store that writes a byte of the load. -/
def overlaps (ld : Load) (st : SQEntry) : Bool :=
  st.size != 0 && ld.bytes.any fun a => st.bytes.contains a

/-- A store that writes all bytes of the load. -/
def covers (ld : Load) (st : SQEntry) : Bool := ld.bytes.all fun a => st.bytes.contains a

/-- The load gets to the scan. -/
def Load.scans (ld : Load) : Prop :=
  ¬ (ld.isStrictlyOrdered = true ∧ ld.atHead = false) ∧ ld.isLocalAccess = false ∧
    ld.isDataPrefetch = false

/-- What is forwarded comes from the youngest store that overlaps, which covers the load; where it
    does not cover it the load goes to memory; and no load is made to wait. -/
structure Right (u : LSQUnit) (ld : Load) (older : List SQEntry) (r : Outcome × StallState) :
    Prop where
  forwarded : ∀ st data, r.1 = .forward st data →
    older.find? (overlaps ld) = some st ∧ covers ld st = true
  partly : ld.scans → ∀ st, older.find? (overlaps ld) = some st → covers ld st = false →
    r.1 = .memory
  stall : r.2 = u.stall

/-- The test of full coverage. -/
def full (ld : Load) (st : SQEntry) : Bool :=
  st.considered && coverage ld st == .FullAddrRangeCoverage

/-- The youngest store that passes the test of full coverage writes all bytes of the load, and no
    younger executed store writes any. -/
def Unpassed (ld : Load) (older : List SQEntry) : Prop :=
  ∀ younger st rest, older = younger ++ st :: rest → full ld st = true →
    (∀ s ∈ younger, full ld s = false) →
    covers ld st = true ∧ ∀ s ∈ younger, overlaps ld s = false

/-! ## A PRE load -/

variable {u : LSQUnit} {ld : Load} {load_idx : Nat} {older : List SQEntry}

/-- A PRE load forwards from the first store that passes the test, and otherwise goes to memory. -/
theorem scan_pre (hpre : ld.isPRE = true) : u.scan ld load_idx older =
    some ((older.find? (full ld)).elim .memory fun st => .forward st (memData ld st), u.stall) := by
  induction older with
  | nil => rfl
  | cons st older ih =>
    rw [LSQUnit.scan, find?_cons]
    by_cases hcons : st.considered = true
    · rw [if_pos hcons]
      cases hcov : coverage ld st with
      | PartialAddrRangeCoverage =>
        have hfull : full ld st = false := by simp [full, hcov]
        rw [if_pos ⟨hpre, rfl⟩, hfull, ih]
      | FullAddrRangeCoverage =>
        have hfull : full ld st = true := by simp [full, hcov, hcons]
        rw [if_neg (fun h => nomatch h.2), if_pos rfl, hfull]
        rfl
      | NoAddrRangeCoverage =>
        have hfull : full ld st = false := by simp [full, hcov]
        rw [if_neg (fun h => nomatch h.2), if_neg (fun h => nomatch h), if_neg (fun h => nomatch h),
          hfull, ih]
    · have hfull : full ld st = false := by simp [full, hcons]
      rw [if_neg hcons, hfull, ih]

variable {st : SQEntry}

/-- A store that covers a load overlaps it, once executed. -/
theorem overlaps_of_covers (hsize : st.size ≠ 0) (h : covers ld st = true) :
    overlaps ld st = true := by
  have hmem : ld.vaddr + ofNat 64 0 ∈ ld.bytes :=
    mem_map.mpr ⟨0, mem_range.mpr ld.size_pos, rfl⟩
  have hin := all_eq_true.mp h _ hmem
  unfold overlaps
  rw [Bool.and_eq_true, bne_iff_ne]
  exact ⟨hsize, any_eq_true.mpr ⟨_, hmem, hin⟩⟩

theorem size_of_full (h : full ld st = true) : st.size ≠ 0 := by
  simp only [full, SQEntry.considered, Bool.and_eq_true, bne_iff_ne] at h
  exact h.1.1.1

/-- The youngest store that overlaps is the first that passes the test just when the queue is
    unpassed. -/
theorem forwarded_iff (hfind : older.find? (full ld) = some st) :
    (older.find? (overlaps ld) = some st ∧ covers ld st = true) ↔ Unpassed ld older := by
  obtain ⟨hfull, younger, rest, rfl, hfirst⟩ := find?_eq_some_iff_append.mp hfind
  have hfirst : ∀ s ∈ younger, full ld s = false := fun s hs => by simpa using hfirst s hs
  constructor
  · rintro ⟨hover, hcov⟩ younger' st' rest' heq hfull' hfirst'
    -- the first store that passes the test is the one that was found
    have hfind' : (younger' ++ st' :: rest').find? (full ld) = some st' := by
      rw [find?_append, find?_eq_none.mpr fun s hs => by simp [hfirst' s hs]]
      simp [hfull']
    rw [heq, hfind'] at hfind
    obtain rfl := Option.some.inj hfind
    refine ⟨hcov, fun s hs => ?_⟩
    rw [heq] at hover
    obtain ⟨-, before, after, hsplit, hnone⟩ := find?_eq_some_iff_append.mp hover
    by_contra hs'
    -- a store before it that overlaps would have been found, and it does not pass the test
    obtain ⟨t, ht⟩ : ∃ t, younger'.find? (overlaps ld) = some t := by
      cases hf : younger'.find? (overlaps ld) with
      | none => exact absurd (find?_eq_none.mp hf s hs) (by simpa using hs')
      | some t => exact ⟨t, rfl⟩
    rw [find?_append, ht] at hover
    obtain rfl : t = st' := by simpa using hover
    rw [hfirst' t (mem_of_find?_eq_some ht)] at hfull'
    cases hfull'
  · intro h
    obtain ⟨hcov, hyoung⟩ := h younger st rest rfl hfull hfirst
    refine ⟨?_, hcov⟩
    rw [find?_append, find?_eq_none.mpr fun s hs => by simp [hyoung s hs]]
    simp [overlaps_of_covers (size_of_full hfull) hcov]

/-- A PRE load is right just when no store it forwards from is passed over: for every queue, every
    load and every stall state. -/
theorem read_right_iff (u : LSQUnit) (ld : Load) (load_idx : Nat) (older : List SQEntry)
    (hpre : ld.isPRE = true) :
    (∃ r, u.read ld load_idx older = some r ∧ Right u ld older r) ↔
      (ld.scans → Unpassed ld older) := by
  unfold LSQUnit.read
  by_cases hstrict : ld.isStrictlyOrdered = true ∧ ld.atHead = false
  · have hno : ¬ ld.scans := fun h => h.1 hstrict
    rw [if_pos hstrict]
    exact iff_of_true ⟨_, rfl, fun _ _ h => (by cases h), fun h => absurd h hno, rfl⟩
      fun h => absurd h hno
  · rw [if_neg hstrict]
    by_cases hlocal : ld.isLocalAccess = true
    · have hno : ¬ ld.scans := fun h => by simp [h.2.1] at hlocal
      rw [if_pos hlocal]
      exact iff_of_true ⟨_, rfl, fun _ _ h => (by cases h), fun h => absurd h hno, rfl⟩
        fun h => absurd h hno
    · rw [if_neg hlocal]
      by_cases hprefetch : ld.isDataPrefetch = true
      · have hno : ¬ ld.scans := fun h => by simp [h.2.2] at hprefetch
        rw [if_pos hprefetch]
        exact iff_of_true ⟨_, rfl, fun _ _ h => (by cases h), fun h => absurd h hno, rfl⟩
          fun h => absurd h hno
      · have hscans : ld.scans := ⟨hstrict, by simpa using hlocal, by simpa using hprefetch⟩
        rw [if_neg hprefetch, scan_pre hpre, imp_iff_right hscans]
        cases hfind : older.find? (full ld) with
        | none =>
          -- nothing passes the test, so nothing is forwarded
          refine iff_of_true ⟨_, rfl, fun _ _ h => (by cases h), fun _ _ _ _ => rfl, rfl⟩ ?_
          intro younger st rest heq hfull
          have := find?_eq_none.mp hfind st (by rw [heq]; simp)
          exact absurd hfull this
        | some st =>
          rw [← forwarded_iff hfind]
          constructor
          · rintro ⟨r, hr, hright⟩
            obtain rfl := Option.some.inj hr
            exact hright.forwarded st _ rfl
          · intro h
            refine ⟨_, rfl, fun st' data heq => ?_, fun _ st' hst' hnot => ?_, rfl⟩
            · obtain ⟨rfl, -⟩ : st = st' ∧ memData ld st = data := by simpa using heq
              exact h
            · rw [h.1] at hst'
              obtain rfl := Option.some.inj hst'
              rw [h.2] at hnot
              cases hnot

/-! ## A partly overlapping store passed over -/

/-- A load of eight bytes in PRE. -/
def preLoad : Load where
  seqNum := 30
  vaddr := 0x1000
  size := 8
  size_pos := by decide
  isPRE := true

def storeOf (seqNum : Nat) (effAddr : BitVec 64) (size : Nat) (byte : BitVec 8) : SQEntry :=
  { seqNum := seqNum, effAddr := effAddr, size := size, data := fun _ => byte }

/-- The upper half of the eight bytes is written anew by a younger store, and the load takes all
    eight from the older one. -/
theorem passed_over :
    let u : LSQUnit := ⟨{}, fun _ => 0⟩
    let older := [storeOf 20 0x1004 4 0xbb, storeOf 10 0x1000 8 0xaa]
    u.read preLoad 0 older =
        some (.forward (storeOf 10 0x1000 8 0xaa) (replicate 8 0xaa), u.stall) ∧
      (older.find? (overlaps preLoad)).map (·.seqNum) = some 20 ∧
      covers preLoad (storeOf 20 0x1004 4 0xbb) = false ∧
      ¬ ∃ r, u.read preLoad 0 older = some r ∧ Right u preLoad older r := by
  intro u older
  have hread : u.read preLoad 0 older =
      some (.forward (storeOf 10 0x1000 8 0xaa) (replicate 8 0xaa), u.stall) := rfl
  refine ⟨hread, by decide, by decide, ?_⟩
  rintro ⟨r, hr, hright⟩
  obtain rfl := Option.some.inj hr
  have hfound := (hright.forwarded _ _ rfl).1
  have hseq := congrArg (Option.map (·.seqNum)) hfound
  revert hseq
  decide

/-- With the two stores the other way round nothing is passed over. -/
theorem covered_by_youngest :
    let u : LSQUnit := ⟨{}, fun _ => 0⟩
    let older := [storeOf 20 0x1000 8 0xaa, storeOf 10 0x1004 4 0xbb]
    ∃ r, u.read preLoad 0 older = some r ∧ Right u preLoad older r := by
  intro u older
  refine (read_right_iff u preLoad 0 older rfl).mpr fun _ => ?_
  have hfind : older.find? (full preLoad) = some (storeOf 20 0x1000 8 0xaa) := rfl
  exact (forwarded_iff hfind).mp ⟨rfl, by decide⟩

end Gem5Dvr.Lsq
