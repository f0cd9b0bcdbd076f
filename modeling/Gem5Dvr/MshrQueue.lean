/-
  The queue of miss status holding registers (`mem/cache/mshr_queue.cc` 62-149, `queue.hh` 104-259).

    1. The queue over the registers of `Gem5Dvr.Mshr`: a register is its index in the storage, and an
       iterator is the entry it points to, which a list holds once.
    2. The calls: those of the queue, and those that the cache makes on a register in between
       (`Call`).  An assertion that fails, a panic and an iterator into another list leave no result.
    3. Free, ready and in-service entries partition the storage, in every run (`Sorted` aside).
    4. The crux: an entry of the ready list changes its time in place.  `delay` looks for a place from
       the entry itself on, and finds that; `forceDeallocateTarget` does not look.  The list stays in
       order just when the new time lies between those around it (`Keeps`).
-/
import Mathlib.Logic.Function.Basic
import Mathlib.Data.List.Perm.Basic
import Gem5Dvr.Lib.Trace
import Gem5Dvr.MshrTargets

namespace Gem5Dvr.Mshr

open List
open Option (bind_eq_some_iff map_eq_some_iff)

/-! ## The queue -/

/-- The largest tick stands for never. -/
def MaxTick : Nat := 2 ^ 64 - 1

/-- The entries, and the lists of the free, the allocated and the ready. -/
structure MSHRQueue where
  numEntries : Nat
  numReserve : Nat
  entries : Nat → MSHR := fun _ => {}
  allocatedList : List Nat := []
  readyList : List Nat := []
  freeList : List Nat
  numInService : Int := 0
  allocated : Int := 0

namespace MSHRQueue

/-- The constructor. -/
def new (num_entries reserve : Nat) : MSHRQueue where
  numEntries := num_entries + reserve
  numReserve := reserve
  freeList := range (num_entries + reserve)

variable (q : MSHRQueue)

/-- When an entry is ready. -/
def readyTime (i : Nat) : Nat := (q.entries i).readyTime

/-- The `for` loop of `addToReadyList`, which panics at the end of the list. -/
def insertBefore (i : Nat) : List Nat → Option (List Nat)
  | [] => none
  | j :: js =>
    if q.readyTime i < q.readyTime j then some (i :: j :: js)
    else (insertBefore i js).map fun l => j :: l

/-- An entry before the first that is ready later. -/
def addToReadyList (i : Nat) : Option (List Nat) :=
  match q.readyList.getLast? with
  | none => some [i]
  | some back =>
    if q.readyTime back ≤ q.readyTime i then some (q.readyList ++ [i])
    else q.insertBefore i q.readyList

/-- The first ready entry whose time has come. -/
def getNext (curTick : Nat) : Option Nat :=
  q.readyList.head?.bind fun front => if curTick < q.readyTime front then none else some front

/-- When the first ready entry is ready. -/
def nextReadyTime : Nat :=
  match q.readyList with
  | [] => MaxTick
  | front :: _ => q.readyTime front

/-- The register is another one. -/
def setEntry (i : Nat) (m : MSHR) : MSHRQueue := { q with entries := Function.update q.entries i m }

/-- A free entry for a request. -/
def allocate (blk_addr blk_size : Nat) (pkt : Packet) (when_ready order : Nat)
    (alloc_on_fill : Bool) : Option MSHRQueue :=
  match q.freeList with
  | [] => none
  | i :: freeList =>
    if (q.entries i).targets.list.length + (q.entries i).deferredTargets.list.length = 0 then
      let q := { q with freeList := freeList, allocatedList := q.allocatedList ++ [i] }.setEntry i
          ((q.entries i).allocate blk_addr blk_size pkt when_ready order alloc_on_fill)
      (q.addToReadyList i).map fun readyList =>
        { q with readyList := readyList, allocated := q.allocated + 1 }
    else none

/-- `delay`: the search starts at the entry. -/
def delay (i curTick delay_ticks : Nat) : Option MSHRQueue :=
  if i ∈ q.readyList ∧ q.readyTime i ≤ curTick then
    let q := q.setEntry i { q.entries i with readyTime := curTick + delay_ticks }
    let it := (q.readyList.dropWhile (· ≠ i)).find? fun j => q.readyTime j ≤ q.readyTime i
    some { q with
        readyList :=
          if it = some i then q.readyList
          else
            match it with
            | none => q.readyList.erase i ++ [i]
            | some j =>
              let others := q.readyList.erase i
              others.takeWhile (· ≠ j) ++ i :: others.dropWhile (· ≠ j) }
  else none

/-- The entry's request has been sent. -/
def markInService (i : Nat) (pending_modified_resp : Bool) : Option MSHRQueue :=
  if i ∈ q.allocatedList then
    ((q.entries i).markInService pending_modified_resp).map fun m =>
      { q.setEntry i m with
        readyList := q.readyList.erase i
        numInService := q.numInService + 1 }
  else none

/-- The entry is ready again. -/
def markPending (i : Nat) : Option MSHRQueue :=
  if i ∈ q.allocatedList ∧ (q.entries i).inService = true then
    let q := { q with numInService := q.numInService - 1 }.setEntry i
        { q.entries i with inService := false }
    (q.addToReadyList i).map fun readyList => { q with readyList := readyList }
  else none

/-- The entry is free again. -/
def deallocate (i : Nat) : Option MSHRQueue :=
  if i ∈ q.allocatedList then
    (q.entries i).deallocate.map fun m =>
      { q.setEntry i m with
        allocatedList := q.allocatedList.erase i
        freeList := i :: q.freeList
        allocated := q.allocated - 1
        numInService := if (q.entries i).inService then q.numInService - 1 else q.numInService
        readyList := if (q.entries i).inService then q.readyList else q.readyList.erase i }
  else none

/-- The first target goes. -/
def popTarget (m : MSHR) : MSHR :=
  { m with targets := { m.targets with list := m.targets.list.tail } }

/-- A target goes, and with the last one the entry. -/
def forceDeallocateTarget (i curTick : Nat) : Option MSHRQueue :=
  if i ∈ q.allocatedList ∧ (q.entries i).targets.list ≠ [] then
    let m := popTarget (q.entries i)
    if m.targets.list ≠ [] then some (q.setEntry i m)
    else (m.promoteDeferredTargets curTick).bind fun (m, promoted) =>
      if promoted then some (q.setEntry i m) else (q.setEntry i m).deallocate i
  else none

end MSHRQueue

/-! ## The calls in between -/

/-- What the cache calls on a register; it promotes the deferred targets of one in service. -/
inductive Call
  | allocateTarget (pkt : Packet) (whenReady order : Nat) (alloc_on_fill : Bool)
  | handleSnoop (pkt : Packet) (copy order curTick : Nat)
  | setDownstreamPending
  | clearDownstreamPending
  | setForward (isForward : Bool)
  | promoteReadable
  | promoteWritable
  | extractServiceableTargets (cmd : MemCmd)
  | promoteDeferredTargets (curTick : Nat)

/-- A call on a register. -/
def Call.apply (m : MSHR) : Call → Option MSHR
  | .allocateTarget pkt whenReady order alloc_on_fill =>
    m.allocateTarget pkt whenReady order alloc_on_fill
  | .handleSnoop pkt copy order curTick => (m.handleSnoop pkt copy order curTick).map Prod.fst
  | .setDownstreamPending => some { m with downstreamPending := true }
  | .clearDownstreamPending => m.clearDownstreamPending
  | .setForward isForward => some { m with isForward := isForward }
  | .promoteReadable => m.promoteReadable
  | .promoteWritable => m.promoteWritable
  | .extractServiceableTargets cmd => (m.extractServiceableTargets cmd).map Prod.snd
  | .promoteDeferredTargets curTick =>
    if m.inService = true then (m.promoteDeferredTargets curTick).map Prod.fst else none

/-- The calls. -/
inductive QueueEvent
  | allocate (blk_addr blk_size : Nat) (pkt : Packet) (when_ready order : Nat)
      (alloc_on_fill : Bool)
  | delay (i curTick delay_ticks : Nat)
  | markInService (i : Nat) (pending_modified_resp : Bool)
  | markPending (i : Nat)
  | deallocate (i : Nat)
  | forceDeallocateTarget (i curTick : Nat)
  | register (i : Nat) (call : Call)

namespace MSHRQueue

/-- A call. -/
def step (q : MSHRQueue) : QueueEvent → Option MSHRQueue
  | .allocate blk_addr blk_size pkt when_ready order alloc_on_fill =>
    q.allocate blk_addr blk_size pkt when_ready order alloc_on_fill
  | .delay i curTick delay_ticks => q.delay i curTick delay_ticks
  | .markInService i pending_modified_resp => q.markInService i pending_modified_resp
  | .markPending i => q.markPending i
  | .deallocate i => q.deallocate i
  | .forceDeallocateTarget i curTick => q.forceDeallocateTarget i curTick
  | .register i call =>
    if i ∈ q.allocatedList then (call.apply (q.entries i)).map fun m => q.setEntry i m else none

/-! ## What holds of it -/

variable (q : MSHRQueue)

/-- The allocated entries that were sent, and those that wait. -/
def served : List Nat := q.allocatedList.filter fun i => (q.entries i).inService
/-- The allocated entries that are not in service. -/
def waiting : List Nat := q.allocatedList.filter fun i => !(q.entries i).inService

/-- The ready list is in the order of its times. -/
def Ordered : Prop := q.readyList.Pairwise fun i j => q.readyTime i ≤ q.readyTime j

/-- The free, the ready and the served entries are all there are, once each, and are counted. -/
structure Partitioned : Prop where
  storage : (q.freeList ++ q.allocatedList).Perm (range q.numEntries)
  ready : q.readyList.Perm q.waiting
  allocated_eq : q.allocated = q.allocatedList.length
  numInService_eq : q.numInService = q.served.length

/-- The entries in front of one, and those behind it. -/
def ahead (i : Nat) (l : List Nat) : List Nat := l.takeWhile (· ≠ i)
/-- What comes after an entry. -/
def behind (i : Nat) (l : List Nat) : List Nat := (l.dropWhile (· ≠ i)).tail

/-- The new time of an entry of the ready list lies between those around it. -/
def Between (i t : Nat) : Prop :=
  (∀ j ∈ ahead i q.readyList, q.readyTime j ≤ t) ∧ ∀ j ∈ behind i q.readyList, t ≤ q.readyTime j

instance (i t : Nat) : Decidable (q.Between i t) := by unfold Between; infer_instance

/-- A delayed entry is ready before those behind it; and an entry that waits and whose last target is
    popped gets from its deferred targets a time that fits its place. -/
def Keeps : QueueEvent → Prop
  | .delay i curTick delay_ticks => q.Between i (curTick + delay_ticks)
  | .forceDeallocateTarget i curTick =>
    (q.entries i).inService = false → (q.entries i).targets.list.tail = [] →
      ∀ t ∈ (q.entries i).deferredTargets.list.head?, q.Between i (max curTick t.readyTime)
  | _ => True

variable {q}

/-! ## Lists of entries -/

section Filter

variable {l : List Nat} {p p' : Nat → Bool} {i : Nat}

/-- Where one entry may change. -/
theorem filter_erase_congr (hnodup : l.Nodup) (h : ∀ j, j ≠ i → p' j = p j) :
    (l.erase i).filter p' = (l.erase i).filter p := by
  refine filter_congr fun j hj => h j ?_
  rintro rfl
  exact (hnodup.mem_erase_iff.mp hj).1 rfl

/-- An entry and the others. -/
theorem filter_perm_erase (hi : i ∈ l) :
    (l.filter p).Perm ((if p i = true then [i] else []) ++ (l.erase i).filter p) := by
  refine ((perm_cons_erase hi).filter p).trans ?_
  rw [filter_cons]
  split <;> exact Perm.refl _

theorem filter_perm_of_mem (p p' : Nat → Bool) (hnodup : l.Nodup) (hi : i ∈ l)
    (h : ∀ j, j ≠ i → p' j = p j) :
    (l.filter p').Perm ((if p' i = true then [i] else []) ++ (l.erase i).filter p) := by
  rw [← filter_erase_congr hnodup h]
  exact filter_perm_erase hi

end Filter

@[simp] theorem setEntry_self (q : MSHRQueue) (i : Nat) (m : MSHR) :
    (q.setEntry i m).entries i = m := Function.update_self ..

theorem setEntry_ne (q : MSHRQueue) {i j : Nat} (m : MSHR) (hj : j ≠ i) :
    (q.setEntry i m).entries j = q.entries j := Function.update_of_ne hj ..

namespace Partitioned

theorem allocated_nodup (h : Partitioned q) : q.allocatedList.Nodup :=
  (nodup_append.mp (h.storage.nodup_iff.mpr nodup_range)).2.1

theorem ready_nodup (h : Partitioned q) : q.readyList.Nodup :=
  h.ready.nodup_iff.mpr (h.allocated_nodup.filter _)

theorem mem_ready (h : Partitioned q) {i : Nat} :
    i ∈ q.readyList ↔ i ∈ q.allocatedList ∧ (q.entries i).inService = false := by
  rw [h.ready.mem_iff, waiting, mem_filter, Bool.not_eq_true']

/-- A register whose service does not change. -/
theorem setEntry (h : Partitioned q) {i : Nat} {m : MSHR}
    (hm : m.inService = (q.entries i).inService) : Partitioned (q.setEntry i m) := by
  have hsame : ∀ j, ((q.setEntry i m).entries j).inService = (q.entries j).inService := by
    intro j
    by_cases hj : j = i
    · rw [hj, setEntry_self, hm]
    · rw [setEntry_ne q m hj]
  have hwaiting : (q.setEntry i m).waiting = q.waiting := filter_congr fun j _ => by rw [hsame j]
  have hserved : (q.setEntry i m).served = q.served := filter_congr fun j _ => by rw [hsame j]
  exact ⟨h.storage, hwaiting ▸ h.ready, h.allocated_eq, hserved ▸ h.numInService_eq⟩

end Partitioned

variable {i order curTick : Nat} {l : List Nat} {m m' : MSHR} {pkt : Packet} {q' : MSHRQueue}
    {b : Bool}

/-! ## Into the ready list -/

theorem insertBefore_perm : ∀ {l l' : List Nat}, q.insertBefore i l = some l' →
    l'.Perm (i :: l) := by
  intro l
  induction l with
  | nil =>
    intro l' h
    cases h
  | cons j js ih =>
    intro l' h
    rw [insertBefore] at h
    split at h
    · cases h
      exact Perm.refl _
    · obtain ⟨rest, hrest, rfl⟩ := map_eq_some_iff.mp h
      exact ((ih hrest).cons j).trans (Perm.swap i j js)

theorem insertBefore_ordered : ∀ {l l' : List Nat}, q.insertBefore i l = some l' →
    l.Pairwise (fun a b => q.readyTime a ≤ q.readyTime b) →
    l'.Pairwise (fun a b => q.readyTime a ≤ q.readyTime b) := by
  intro l
  induction l with
  | nil =>
    intro l' h
    cases h
  | cons j js ih =>
    intro l' h hl
    rw [insertBefore] at h
    split at h
    · rename_i hlt
      cases h
      refine pairwise_cons.mpr ⟨fun a ha => ?_, hl⟩
      rcases mem_cons.mp ha with rfl | ha
      · exact Nat.le_of_lt hlt
      · exact Nat.le_trans (Nat.le_of_lt hlt) ((pairwise_cons.mp hl).1 a ha)
    · rename_i hge
      obtain ⟨rest, hrest, rfl⟩ := map_eq_some_iff.mp h
      refine pairwise_cons.mpr ⟨fun a ha => ?_, ih hrest (pairwise_cons.mp hl).2⟩
      rcases mem_cons.mp ((insertBefore_perm hrest).mem_iff.mp ha) with rfl | ha
      · exact Nat.not_lt.mp hge
      · exact (pairwise_cons.mp hl).1 a ha

theorem addToReadyList_perm (h : q.addToReadyList i = some l) : l.Perm (i :: q.readyList) := by
  unfold addToReadyList at h
  split at h
  · rename_i hnone
    cases h
    rw [getLast?_eq_none_iff.mp hnone]
  · split at h
    · cases h
      exact perm_append_singleton i q.readyList
    · exact insertBefore_perm h

theorem addToReadyList_ordered (h : q.addToReadyList i = some l)
    (hq : q.Ordered) : l.Pairwise fun a b => q.readyTime a ≤ q.readyTime b := by
  unfold addToReadyList at h
  split at h
  · cases h
    exact pairwise_singleton _ i
  · rename_i back hback
    split at h
    · rename_i hle
      cases h
      refine pairwise_append.mpr ⟨hq, pairwise_singleton _ i, fun a ha b hb => ?_⟩
      rw [mem_singleton.mp hb]
      -- nothing is later than the last entry
      obtain ⟨front, hfront⟩ := getLast?_eq_some_iff.mp hback
      unfold Ordered at hq
      rw [hfront] at hq ha
      rcases mem_append.mp ha with ha | ha
      · exact Nat.le_trans ((pairwise_append.mp hq).2.2 a ha back mem_cons_self) hle
      · rw [mem_singleton.mp ha]
        exact hle
    · exact insertBefore_ordered h hq

/-! ## The time of an entry -/

theorem readyTime_setEntry_ne (q : MSHRQueue) {j : Nat} (m : MSHR) (hj : j ≠ i) :
    (q.setEntry i m).readyTime j = q.readyTime j :=
  congrArg MSHR.readyTime (setEntry_ne q m hj)

@[simp] theorem readyTime_setEntry_self (q : MSHRQueue) (i : Nat) (m : MSHR) :
    (q.setEntry i m).readyTime i = m.readyTime := congrArg MSHR.readyTime (setEntry_self q i m)

/-- A register outside of the list, or one whose time does not change. -/
theorem ordered_setEntry_of_same
    (h : i ∈ q.readyList → m.readyTime = q.readyTime i) (hq : q.Ordered) :
    (q.setEntry i m).Ordered := by
  have hsame : ∀ j ∈ q.readyList, (q.setEntry i m).readyTime j = q.readyTime j := by
    intro j hj
    by_cases hji : j = i
    · subst hji
      rw [readyTime_setEntry_self, h hj]
    · exact readyTime_setEntry_ne q m hji
  refine List.Pairwise.imp_of_mem (fun ha hb hab => ?_) hq
  rw [hsame _ ha, hsame _ hb]
  exact hab

/-- The list stays in order just when the new time lies between those around the entry. -/
theorem ordered_setEntry_iff (hi : i ∈ q.readyList) (hnodup : q.readyList.Nodup) (hq : q.Ordered) :
    (q.setEntry i m).Ordered ↔ q.Between i m.readyTime := by
  obtain ⟨pre, post, hsplit, hpre⟩ := eq_append_cons_of_mem hi
  have hpost : i ∉ post := by
    rw [hsplit] at hnodup
    exact (nodup_cons.mp (nodup_append.mp hnodup).2.1).1
  have hahead : ahead i q.readyList = pre := by
    unfold ahead
    rw [hsplit, takeWhile_append_of_pos fun a ha => ?_]
    · simp
    · exact decide_eq_true fun h : a = i => hpre (h ▸ ha)
  have hbehind : behind i q.readyList = post := by
    unfold behind
    rw [hsplit, dropWhile_append_of_pos fun a ha => ?_]
    · simp
    · exact decide_eq_true fun h : a = i => hpre (h ▸ ha)
  have hne : ∀ j, j ∈ pre ∨ j ∈ post → (q.setEntry i m).readyTime j = q.readyTime j := by
    rintro j hj
    refine readyTime_setEntry_ne q m ?_
    rintro rfl
    exact hj.elim hpre hpost
  unfold Ordered at hq ⊢
  unfold Between
  rw [hahead, hbehind]
  have hlist : (q.setEntry i m).readyList = pre ++ i :: post := hsplit
  rw [hlist, pairwise_append, pairwise_cons]
  rw [hsplit, pairwise_append, pairwise_cons] at hq
  obtain ⟨hpp, ⟨-, hqq⟩, hpq⟩ := hq
  constructor
  · rintro ⟨-, ⟨hafter, -⟩, hbefore⟩
    constructor
    · intro j hj
      have hle := hbefore j hj i mem_cons_self
      rwa [hne j (.inl hj), readyTime_setEntry_self] at hle
    · intro j hj
      have hle := hafter j hj
      rwa [hne j (.inr hj), readyTime_setEntry_self] at hle
  · rintro ⟨hbefore, hafter⟩
    refine ⟨hpp.imp_of_mem fun ha hb hab => ?_, ⟨fun j hj => ?_, hqq.imp_of_mem fun ha hb hab => ?_⟩,
      fun a ha b hb => ?_⟩
    · rwa [hne _ (.inl ha), hne _ (.inl hb)]
    · rw [hne j (.inr hj), readyTime_setEntry_self]
      exact hafter j hj
    · rwa [hne _ (.inr ha), hne _ (.inr hb)]
    · rw [hne a (.inl ha)]
      rcases mem_cons.mp hb with rfl | hb
      · rw [readyTime_setEntry_self]
        exact hbefore a ha
      · rw [hne b (.inr hb)]
        exact hpq a ha b (mem_cons_of_mem i hb)

/-! ## One call -/

theorem nodup_of_storage {m : List Nat} {n : Nat} (h : (l ++ m).Perm (range n)) :
    (l ++ m).Nodup := h.nodup_iff.mpr nodup_range

/-- The served and the waiting entries when one entry changes. -/
theorem served_perm (h : Partitioned q) (m : MSHR) (hi : i ∈ q.allocatedList) :
    (q.setEntry i m).served.Perm ((if m.inService = true then [i] else []) ++
      (q.allocatedList.erase i).filter fun j => (q.entries j).inService) := by
  have hperm := filter_perm_of_mem (fun j => (q.entries j).inService)
    (fun j => ((q.setEntry i m).entries j).inService) h.allocated_nodup hi
    fun j hj => by rw [setEntry_ne q m hj]
  rwa [setEntry_self] at hperm

theorem waiting_perm (h : Partitioned q) (m : MSHR) (hi : i ∈ q.allocatedList) :
    (q.setEntry i m).waiting.Perm ((if m.inService = true then [] else [i]) ++
      (q.allocatedList.erase i).filter fun j => !(q.entries j).inService) := by
  have hperm := filter_perm_of_mem (fun j => !(q.entries j).inService)
    (fun j => !((q.setEntry i m).entries j).inService) h.allocated_nodup hi
    fun j hj => by rw [setEntry_ne q m hj]
  rw [setEntry_self] at hperm
  refine Perm.trans hperm ?_
  cases m.inService <;> exact Perm.refl _

/-- The same, of the queue as it is. -/
theorem served_perm_self (hi : i ∈ q.allocatedList) :
    q.served.Perm ((if (q.entries i).inService = true then [i] else []) ++
      (q.allocatedList.erase i).filter fun j => (q.entries j).inService) :=
  filter_perm_erase hi

theorem waiting_perm_self (hi : i ∈ q.allocatedList) :
    q.waiting.Perm ((if (q.entries i).inService = true then [] else [i]) ++
      (q.allocatedList.erase i).filter fun j => !(q.entries j).inService) := by
  refine Perm.trans (filter_perm_erase (p := fun j => !(q.entries j).inService) hi) ?_
  cases (q.entries i).inService <;> exact Perm.refl _

theorem allocate_partitioned {blk_addr blk_size : Nat} {when_ready : Nat}
    {alloc_on_fill : Bool} (h : Partitioned q)
    (hstep : q.allocate blk_addr blk_size pkt when_ready order alloc_on_fill = some q') :
    Partitioned q' := by
  unfold allocate at hstep
  split at hstep
  · cases hstep
  rename_i i freeList hfree
  split at hstep
  swap
  · cases hstep
  obtain ⟨readyList, hready, rfl⟩ := map_eq_some_iff.mp hstep
  have hstorage := h.storage
  rw [hfree] at hstorage
  have hnew : i ∉ q.allocatedList := fun hi =>
    (nodup_append.mp (nodup_of_storage hstorage)).2.2 i mem_cons_self i hi rfl
  set m := (q.entries i).allocate blk_addr blk_size pkt when_ready order alloc_on_fill with hm
  have hrest : ∀ j ∈ q.allocatedList, ((q.setEntry i m).entries j) = q.entries j := by
    intro j hj
    refine setEntry_ne q m ?_
    rintro rfl
    exact hnew hj
  have hwaiting : (q.allocatedList ++ [i]).filter
      (fun j => !((q.setEntry i m).entries j).inService) = q.waiting ++ [i] := by
    rw [filter_append, filter_congr fun j hj => by rw [hrest j hj]]
    simp [waiting, hm, MSHR.allocate]
  have hserved : (q.allocatedList ++ [i]).filter
      (fun j => ((q.setEntry i m).entries j).inService) = q.served := by
    rw [filter_append, filter_congr fun j hj => by rw [hrest j hj]]
    simp [served, hm, MSHR.allocate]
  constructor
  · refine Perm.trans ?_ hstorage
    show (freeList ++ (q.allocatedList ++ [i])).Perm (i :: freeList ++ q.allocatedList)
    rw [← append_assoc]
    exact perm_append_singleton i _
  · refine (addToReadyList_perm hready).trans ?_
    show (i :: q.readyList).Perm
      ((q.allocatedList ++ [i]).filter fun j => !((q.setEntry i m).entries j).inService)
    rw [hwaiting]
    exact (h.ready.cons i).trans (perm_append_singleton i _).symm
  · show q.allocated + 1 = ((q.allocatedList ++ [i]).length : Int)
    rw [h.allocated_eq, length_append]
    rfl
  · show q.numInService = (((q.allocatedList ++ [i]).filter
      fun j => ((q.setEntry i m).entries j).inService).length : Int)
    rw [hserved]
    exact h.numInService_eq

theorem allocate_ordered {blk_addr blk_size : Nat} {when_ready : Nat}
    {alloc_on_fill : Bool} (h : Partitioned q) (hq : q.Ordered)
    (hstep : q.allocate blk_addr blk_size pkt when_ready order alloc_on_fill = some q') :
    q'.Ordered := by
  unfold allocate at hstep
  split at hstep
  · cases hstep
  rename_i i freeList hfree
  split at hstep
  swap
  · cases hstep
  obtain ⟨readyList, hready, rfl⟩ := map_eq_some_iff.mp hstep
  -- a free entry is not on the ready list
  have hfresh : i ∉ q.readyList := by
    intro hi
    have hstorage := h.storage
    rw [hfree] at hstorage
    exact (nodup_append.mp (nodup_of_storage hstorage)).2.2 i mem_cons_self i
      (h.mem_ready.mp hi).1 rfl
  have hordered := addToReadyList_ordered hready
    (ordered_setEntry_of_same (fun hi => absurd hi hfresh) hq)
  exact hordered

theorem delay_eq {delay_ticks : Nat} (hstep : q.delay i curTick delay_ticks = some q') :
    i ∈ q.readyList ∧
      q' = q.setEntry i { q.entries i with readyTime := curTick + delay_ticks } := by
  unfold delay at hstep
  split at hstep
  swap
  · cases hstep
  rename_i hcond
  obtain ⟨hi, -⟩ := hcond
  refine ⟨hi, ?_⟩
  obtain ⟨pre, post, hsplit, hpre⟩ := eq_append_cons_of_mem hi
  -- the search finds the entry it starts at
  have hdrop : q.readyList.dropWhile (· ≠ i) = i :: post := by
    rw [hsplit, dropWhile_append_of_pos fun a ha => ?_]
    · simp
    · exact decide_eq_true fun h : a = i => hpre (h ▸ ha)
  have hfind : ((q.readyList.dropWhile (· ≠ i)).find? fun j =>
      (q.setEntry i { q.entries i with readyTime := curTick + delay_ticks }).readyTime j ≤
        (q.setEntry i { q.entries i with readyTime := curTick + delay_ticks }).readyTime i) =
      some i := by
    rw [hdrop]
    simp
  dsimp only at hstep
  rw [show (q.setEntry i { q.entries i with readyTime := curTick + delay_ticks }).readyList =
    q.readyList from rfl, hfind, if_pos rfl] at hstep
  exact (Option.some.inj hstep).symm

theorem markInService_partitioned (h : Partitioned q)
    (hstep : q.markInService i b = some q') : Partitioned q' := by
  unfold markInService at hstep
  split at hstep
  swap
  · cases hstep
  rename_i hi
  obtain ⟨m, hm, rfl⟩ := map_eq_some_iff.mp hstep
  have hbefore : (q.entries i).inService = false := by
    unfold MSHR.markInService at hm
    split at hm
    · cases hm
    · rename_i hnot
      simpa using hnot
  have hafter : m.inService = true := (MSHR.markInService_spec hm).2.2
  have hwait := waiting_perm_self hi
  have hwait' := waiting_perm h m hi
  have hserve := served_perm_self hi
  have hserve' := served_perm h m hi
  rw [hbefore] at hwait hserve
  rw [hafter] at hwait' hserve'
  refine ⟨h.storage, ?_, h.allocated_eq, ?_⟩
  · have hready := (h.ready.trans hwait).erase i
    exact (erase_cons_head i _ ▸ hready).trans hwait'.symm
  · show q.numInService + 1 = ((q.setEntry i m).served.length : Int)
    rw [h.numInService_eq, hserve'.length_eq, hserve.length_eq]
    simp

theorem markInService_ordered (h : Partitioned q)
    (hq : q.Ordered) (hstep : q.markInService i b = some q') : q'.Ordered := by
  unfold markInService at hstep
  split at hstep
  swap
  · cases hstep
  obtain ⟨m, hm, rfl⟩ := map_eq_some_iff.mp hstep
  have hsub : (q.readyList.erase i).Sublist q.readyList := erase_sublist
  refine List.Pairwise.imp_of_mem (fun {a b} ha hb hab => ?_) (hq.sublist hsub)
  have hne : ∀ j ∈ q.readyList.erase i, (q.setEntry i m).readyTime j = q.readyTime j := by
    intro j hj
    exact readyTime_setEntry_ne q m (h.ready_nodup.mem_erase_iff.mp hj).1
  show (q.setEntry i m).readyTime a ≤ (q.setEntry i m).readyTime b
  rw [hne a ha, hne b hb]
  exact hab

theorem markPending_partitioned (h : Partitioned q)
    (hstep : q.markPending i = some q') : Partitioned q' := by
  unfold markPending at hstep
  split at hstep
  swap
  · cases hstep
  rename_i hcond
  obtain ⟨hi, hbefore⟩ := hcond
  obtain ⟨readyList, hready, rfl⟩ := map_eq_some_iff.mp hstep
  have hwait := waiting_perm_self hi
  have hwait' := waiting_perm h { q.entries i with inService := false } hi
  have hserve := served_perm_self hi
  have hserve' := served_perm h { q.entries i with inService := false } hi
  rw [hbefore] at hwait hserve
  refine ⟨h.storage, ?_, h.allocated_eq, ?_⟩
  · refine (addToReadyList_perm hready).trans ?_
    exact ((h.ready.trans hwait).cons i).trans hwait'.symm
  · show q.numInService - 1 =
      ((q.setEntry i { q.entries i with inService := false }).served.length : Int)
    rw [h.numInService_eq, hserve'.length_eq, hserve.length_eq]
    simp

theorem markPending_ordered (hq : q.Ordered) (hstep : q.markPending i = some q') : q'.Ordered := by
  unfold markPending at hstep
  split at hstep
  swap
  · cases hstep
  obtain ⟨readyList, hready, rfl⟩ := map_eq_some_iff.mp hstep
  have hordered := addToReadyList_ordered hready (ordered_setEntry_of_same (fun _ => rfl) hq)
  exact hordered

theorem deallocate_partitioned (h : Partitioned q)
    (hstep : q.deallocate i = some q') : Partitioned q' := by
  unfold deallocate at hstep
  split at hstep
  swap
  · cases hstep
  rename_i hi
  obtain ⟨m, -, rfl⟩ := map_eq_some_iff.mp hstep
  have hwait := waiting_perm_self hi
  have hserve := served_perm_self hi
  have hrest : ∀ j ∈ q.allocatedList.erase i, (q.setEntry i m).entries j = q.entries j :=
    fun j hj => setEntry_ne q m (h.allocated_nodup.mem_erase_iff.mp hj).1
  have hwaiting : ((q.allocatedList.erase i).filter fun j =>
      !((q.setEntry i m).entries j).inService) =
        (q.allocatedList.erase i).filter fun j => !(q.entries j).inService :=
    filter_congr fun j hj => by rw [hrest j hj]
  have hserved : ((q.allocatedList.erase i).filter fun j =>
      ((q.setEntry i m).entries j).inService) =
        (q.allocatedList.erase i).filter fun j => (q.entries j).inService :=
    filter_congr fun j hj => by rw [hrest j hj]
  constructor
  · show (i :: q.freeList ++ q.allocatedList.erase i).Perm (range q.numEntries)
    refine Perm.trans ?_ h.storage
    refine perm_middle.symm.trans ?_
    exact (perm_cons_erase hi).symm.append_left q.freeList
  · show (if (q.entries i).inService = true then q.readyList else q.readyList.erase i).Perm
      ((q.allocatedList.erase i).filter fun j => !((q.setEntry i m).entries j).inService)
    rw [hwaiting]
    cases hin : (q.entries i).inService with
    | true =>
      rw [hin] at hwait
      exact h.ready.trans hwait
    | false =>
      rw [hin] at hwait
      have hready := (h.ready.trans hwait).erase i
      rwa [if_neg Bool.false_ne_true, singleton_append, erase_cons_head] at hready
  · show q.allocated - 1 = ((q.allocatedList.erase i).length : Int)
    have hpos := length_pos_of_mem hi
    rw [h.allocated_eq, length_erase_of_mem hi]
    omega
  · show (if (q.entries i).inService = true then q.numInService - 1 else q.numInService) =
      (((q.allocatedList.erase i).filter
        fun j => ((q.setEntry i m).entries j).inService).length : Int)
    rw [hserved, h.numInService_eq, hserve.length_eq]
    cases (q.entries i).inService with
    | true => simp
    | false => simp

theorem deallocate_ordered (h : Partitioned q) (hq : q.Ordered)
    (hstep : q.deallocate i = some q') : q'.Ordered := by
  unfold deallocate at hstep
  split at hstep
  swap
  · cases hstep
  obtain ⟨m, -, rfl⟩ := map_eq_some_iff.mp hstep
  -- what stays on the list is not the entry
  have hready : ∃ l, (if (q.entries i).inService = true then q.readyList else q.readyList.erase i)
      = l ∧ l.Sublist q.readyList ∧ i ∉ l := by
    cases hin : (q.entries i).inService with
    | true =>
      refine ⟨q.readyList, rfl, Sublist.refl _, fun hi => ?_⟩
      rw [(h.mem_ready.mp hi).2] at hin
      cases hin
    | false =>
      exact ⟨_, rfl, erase_sublist, fun hi => (h.ready_nodup.mem_erase_iff.mp hi).1 rfl⟩
  obtain ⟨l, hl, hsub, hnot⟩ := hready
  show (if (q.entries i).inService = true then q.readyList else q.readyList.erase i).Pairwise
    fun a b => (q.setEntry i m).readyTime a ≤ (q.setEntry i m).readyTime b
  rw [hl]
  refine List.Pairwise.imp_of_mem (fun {a b} ha hb hab => ?_) (hq.sublist hsub)
  have hne : ∀ j ∈ l, (q.setEntry i m).readyTime j = q.readyTime j := by
    intro j hj
    refine readyTime_setEntry_ne q m ?_
    rintro rfl
    exact hnot hj
  rw [hne a ha, hne b hb]
  exact hab

/-- A register without targets gets its time from the first of the deferred targets. -/
theorem promoteDeferredTargets_time {promoted : Bool}
    (hempty : m.targets.list = []) (h : m.promoteDeferredTargets curTick = some (m', promoted)) :
    m'.inService = m.inService ∧
      if promoted = true then
        ∃ t ∈ m.deferredTargets.list.head?, m'.readyTime = max curTick t.readyTime
      else m.deferredTargets.list = [] ∧ m' = m := by
  unfold MSHR.promoteDeferredTargets at h
  rw [hempty] at h
  split at h
  · rename_i hnone
    cases h
    simpa using hnone
  rename_i hsome
  have hne : m.deferredTargets.list ≠ [] := by simpa using hsome
  obtain ⟨t, rest, hlist⟩ := exists_cons_of_ne_nil hne
  obtain ⟨front, hfront, heq⟩ := map_eq_some_iff.mp h
  cases heq
  refine ⟨rfl, t, by rw [hlist]; rfl, ?_⟩
  have hft : front = t := by
    rw [hlist] at hfront
    cases hcmo : t.pkt.req.isCacheMaintenance <;> simp [hcmo] at hfront <;> exact hfront.symm
  rw [← hft]

theorem forceDeallocateTarget_spec (h : Partitioned q)
    (hq : q.Ordered) (hstep : q.forceDeallocateTarget i curTick = some q') :
    Partitioned q' ∧ (q'.Ordered ↔ q.Keeps (.forceDeallocateTarget i curTick)) := by
  unfold forceDeallocateTarget at hstep
  split at hstep
  swap
  · cases hstep
  rename_i hcond
  obtain ⟨hi, -⟩ := hcond
  dsimp only at hstep
  have hdeferred : (popTarget (q.entries i)).deferredTargets = (q.entries i).deferredTargets := rfl
  have hservice : (popTarget (q.entries i)).inService = (q.entries i).inService := rfl
  have hpop := h.setEntry hservice
  have hpopOrdered : (q.setEntry i (popTarget (q.entries i))).Ordered :=
    ordered_setEntry_of_same (fun _ => rfl) hq
  split at hstep
  · rename_i hleft
    cases hstep
    exact ⟨hpop, iff_of_true hpopOrdered fun _ htail => absurd htail hleft⟩
  rename_i hempty
  have hempty : (popTarget (q.entries i)).targets.list = [] := not_not.mp hempty
  obtain ⟨⟨m, promoted⟩, hm, hstep⟩ := bind_eq_some_iff.mp hstep
  obtain ⟨hsame, htime⟩ := promoteDeferredTargets_time hempty hm
  cases promoted with
  | false =>
    obtain ⟨hnone, rfl⟩ := htime
    refine ⟨deallocate_partitioned hpop hstep,
      iff_of_true (deallocate_ordered hpop hpopOrdered hstep) fun _ _ t ht => ?_⟩
    rw [← hdeferred, hnone] at ht
    cases ht
  | true =>
    obtain ⟨t, ht, htime⟩ := htime
    obtain rfl : q.setEntry i m = q' := Option.some.inj hstep
    refine ⟨h.setEntry hsame, ?_⟩
    cases hin : (q.entries i).inService with
    | true =>
      refine iff_of_true (ordered_setEntry_of_same (fun hr => ?_) hq) fun hnot => ?_
      · rw [(h.mem_ready.mp hr).2] at hin
        cases hin
      · rw [hin] at hnot
        cases hnot
    | false =>
      rw [ordered_setEntry_iff (h.mem_ready.mpr ⟨hi, hin⟩) h.ready_nodup hq, htime]
      constructor
      · intro hbetween _ _ t' ht'
        rw [Option.mem_unique ht' ht]
        exact hbetween
      · intro hkeeps
        exact hkeeps hin hempty t ht

/-- The service of a register and its time. -/
structure SameTime (m m' : MSHR) : Prop where
  inService : m'.inService = m.inService
  readyTime : m'.readyTime = m.readyTime

theorem saveSnoop_same (m : MSHR) (pkt : Packet) (copy order curTick : Nat) (b : Bool) :
    SameTime m (m.saveSnoop pkt copy order curTick b) := by
  unfold MSHR.saveSnoop
  split
  · split <;> exact ⟨rfl, rfl⟩
  · split <;> exact ⟨rfl, rfl⟩

theorem handleSnoop_same {copy : Nat}
    (h : m.handleSnoop pkt copy order curTick = some (m', b)) : SameTime m m' := by
  unfold MSHR.handleSnoop at h
  split at h
  · cases h
  split at h
  · split at h <;> cases h <;> exact ⟨rfl, rfl⟩
  obtain ⟨front, -, h⟩ := map_eq_some_iff.mp h
  generalize hn : (if (pkt.cmd.needsWritable || pkt.req.isCacheInvalidate) = true then
    { m with deferredTargets := m.deferredTargets.replaceUpgrades } else m) = n at h
  have hsame : SameTime m n := by
    subst hn
    split <;> exact ⟨rfl, rfl⟩
  split at h
  · cases h
    exact hsame
  · cases h
    have hsave := saveSnoop_same n pkt copy order curTick
      (n.pendingModified && pkt.cmd.needsResponse && !pkt.cmd.isClean)
    exact ⟨hsave.inService.trans hsame.inService, hsave.readyTime.trans hsame.readyTime⟩

theorem promoteIf_same {pred : Target → Bool} (h : m.promoteIf pred = some m') :
    SameTime m m' := by
  unfold MSHR.promoteIf at h
  split at h
  · cases h
  obtain ⟨⟨pre, post⟩, -, rfl⟩ := map_eq_some_iff.mp h
  exact ⟨rfl, rfl⟩

theorem promoteReadable_same (h : m.promoteReadable = some m') : SameTime m m' := by
  unfold MSHR.promoteReadable at h
  split at h
  · cases h
    exact ⟨rfl, rfl⟩
  obtain ⟨post, -, h⟩ := bind_eq_some_iff.mp h
  split at h
  · cases h
    exact ⟨rfl, rfl⟩
  · exact promoteIf_same h

theorem promoteWritable_same (h : m.promoteWritable = some m') : SameTime m m' := by
  unfold MSHR.promoteWritable at h
  split at h
  · cases h
    exact ⟨rfl, rfl⟩
  split at h
  · cases h
    exact ⟨rfl, rfl⟩
  obtain ⟨post, -, h⟩ := bind_eq_some_iff.mp h
  obtain ⟨down, -, h⟩ := bind_eq_some_iff.mp h
  split at h
  · cases h
    exact ⟨rfl, rfl⟩
  split at h
  · cases h
  have hsame := promoteIf_same h
  exact ⟨hsame.inService, hsame.readyTime⟩

/-- A call in between leaves the service of a register, and the time of one that waits. -/
theorem apply_same {call : Call} (h : call.apply m = some m') :
    m'.inService = m.inService ∧ (m.inService = false → m'.readyTime = m.readyTime) := by
  have hof : SameTime m m' →
      m'.inService = m.inService ∧ (m.inService = false → m'.readyTime = m.readyTime) :=
    fun hsame => ⟨hsame.inService, fun _ => hsame.readyTime⟩
  cases call with
  | allocateTarget pkt whenReady order alloc_on_fill =>
    simp only [Call.apply, MSHR.allocateTarget] at h
    split at h
    · cases h
    obtain ⟨front, -, rfl⟩ := map_eq_some_iff.mp h
    apply hof
    split <;> exact ⟨rfl, rfl⟩
  | handleSnoop pkt copy order curTick =>
    obtain ⟨⟨n, b⟩, hn, rfl⟩ := map_eq_some_iff.mp h
    exact hof (handleSnoop_same hn)
  | setDownstreamPending =>
    cases h
    exact ⟨rfl, fun _ => rfl⟩
  | clearDownstreamPending =>
    simp only [Call.apply, MSHR.clearDownstreamPending] at h
    split at h
    · cases h
      exact ⟨rfl, fun _ => rfl⟩
    · cases h
  | setForward isForward =>
    cases h
    exact ⟨rfl, fun _ => rfl⟩
  | promoteReadable => exact hof (promoteReadable_same h)
  | promoteWritable => exact hof (promoteWritable_same h)
  | extractServiceableTargets cmd =>
    obtain ⟨⟨ready, n⟩, hn, rfl⟩ := map_eq_some_iff.mp h
    obtain ⟨_, -, heq⟩ := map_eq_some_iff.mp hn
    cases heq
    exact ⟨rfl, fun _ => rfl⟩
  | promoteDeferredTargets curTick =>
    simp only [Call.apply] at h
    split at h
    swap
    · cases h
    rename_i hin
    obtain ⟨⟨n, b⟩, hn, rfl⟩ := map_eq_some_iff.mp h
    refine ⟨?_, fun hnot => by rw [hin] at hnot; cases hnot⟩
    unfold MSHR.promoteDeferredTargets at hn
    split at hn
    · cases hn
      rfl
    · obtain ⟨front, -, heq⟩ := map_eq_some_iff.mp hn
      cases heq
      rfl

/-- One step keeps the entries apart, and keeps the list in order just when it should. -/
theorem step_spec {e : QueueEvent} (h : Partitioned q) (hq : q.Ordered)
    (hstep : q.step e = some q') : Partitioned q' ∧ (q'.Ordered ↔ q.Keeps e) := by
  cases e with
  | allocate blk_addr blk_size pkt when_ready order alloc_on_fill =>
    exact ⟨allocate_partitioned h hstep, iff_of_true (allocate_ordered h hq hstep) trivial⟩
  | delay i curTick delay_ticks =>
    obtain ⟨hi, rfl⟩ := delay_eq hstep
    exact ⟨h.setEntry rfl, ordered_setEntry_iff hi h.ready_nodup hq⟩
  | markInService i b =>
    exact ⟨markInService_partitioned h hstep,
      iff_of_true (markInService_ordered h hq hstep) trivial⟩
  | markPending i =>
    exact ⟨markPending_partitioned h hstep, iff_of_true (markPending_ordered hq hstep) trivial⟩
  | deallocate i =>
    exact ⟨deallocate_partitioned h hstep, iff_of_true (deallocate_ordered h hq hstep) trivial⟩
  | forceDeallocateTarget i curTick => exact forceDeallocateTarget_spec h hq hstep
  | register i call =>
    simp only [step] at hstep
    split at hstep
    swap
    · cases hstep
    obtain ⟨m, hm, rfl⟩ := map_eq_some_iff.mp hstep
    obtain ⟨hservice, htime⟩ := apply_same hm
    refine ⟨h.setEntry hservice, iff_of_true (ordered_setEntry_of_same (fun hr => ?_) hq) trivial⟩
    exact htime (h.mem_ready.mp hr).2

/-! ## Every run -/

/-- The waiting entries are found in the order of their times. -/
structure Good (q : MSHRQueue) : Prop where
  partition : (q.freeList ++ q.readyList ++ q.served).Perm (range q.numEntries)
  waiting_iff : ∀ i, i ∈ q.readyList ↔ i ∈ q.allocatedList ∧ (q.entries i).inService = false
  allocated_eq : q.allocated = q.readyList.length + q.served.length
  numInService_eq : q.numInService = q.served.length
  ordered : q.Ordered
  getNext_isSome : ∀ curTick, (∃ i ∈ q.readyList, q.readyTime i ≤ curTick) →
    ∃ i ∈ q.readyList, q.getNext curTick = some i ∧ q.readyTime i ≤ curTick
  nextReadyTime_min : q.readyList ≠ [] → (∃ i ∈ q.readyList, q.nextReadyTime = q.readyTime i) ∧
      ∀ i ∈ q.readyList, q.nextReadyTime ≤ q.readyTime i

theorem new_partitioned (num_entries reserve : Nat) : Partitioned (new num_entries reserve) := by
  refine ⟨?_, Perm.refl _, rfl, rfl⟩
  show (range (num_entries + reserve) ++ []).Perm _
  rw [append_nil]
  exact Perm.refl _

/-- Nothing on the list is ready before its front. -/
theorem front_le {front : Nat} {rest : List Nat} (hq : q.Ordered)
    (hlist : q.readyList = front :: rest) :
    ∀ i ∈ q.readyList, q.readyTime front ≤ q.readyTime i := by
  intro i hi
  unfold Ordered at hq
  rw [hlist] at hq hi
  rcases mem_cons.mp hi with rfl | hi
  · exact Nat.le_refl _
  · exact (pairwise_cons.mp hq).1 i hi

theorem good_of (h : Partitioned q) (hq : q.Ordered) : Good q := by
  have hsplit : q.allocatedList.Perm (q.waiting ++ q.served) := by
    have hperm := (filter_append_perm (fun i => !(q.entries i).inService) q.allocatedList).symm
    simpa [waiting, served] using hperm
  refine ⟨?_, fun i => h.mem_ready, ?_, h.numInService_eq, hq, ?_, ?_⟩
  · rw [append_assoc]
    refine Perm.trans (Perm.append_left q.freeList ?_) h.storage
    exact (h.ready.append_right q.served).trans hsplit.symm
  · rw [h.allocated_eq, hsplit.length_eq, length_append, h.ready.length_eq]
    rfl
  · rintro curTick ⟨i, hi, hle⟩
    obtain ⟨front, rest, hlist⟩ := exists_cons_of_ne_nil (ne_nil_of_mem hi)
    have hfront : q.readyTime front ≤ curTick := Nat.le_trans (front_le hq hlist i hi) hle
    refine ⟨front, by rw [hlist]; exact mem_cons_self, ?_, hfront⟩
    unfold getNext
    rw [hlist]
    exact if_neg (Nat.not_lt.mpr hfront)
  · intro hne
    obtain ⟨front, rest, hlist⟩ := exists_cons_of_ne_nil hne
    have hnext : q.nextReadyTime = q.readyTime front := by
      unfold nextReadyTime
      rw [hlist]
    rw [hnext]
    exact ⟨⟨front, by rw [hlist]; exact mem_cons_self, rfl⟩, front_le hq hlist⟩

/-- **The ready list is ordered and complete** wherever a run gets, just when no step moves the time
    of a waiting entry past its neighbours. -/
theorem ready_list_good_iff (num_entries reserve : Nat) (es : List QueueEvent) :
    (∀ pre q, pre <+: es → Trace.runs step (new num_entries reserve) pre = some q → Good q) ↔
      Trace.Obeys (fun q e => (q.step e).isSome = true → q.Keeps e) step
        (new num_entries reserve) es := by
  refine Trace.Obeys.iff_prefix (fun q => Partitioned q ∧ q.Ordered) Good ?_
    (fun q hq => good_of hq.1 hq.2) ⟨new_partitioned num_entries reserve, List.Pairwise.nil⟩
  rintro q e q' ⟨hpart, hordered⟩ hstep
  obtain ⟨hpart', hiff⟩ := step_spec hpart hordered hstep
  exact ⟨fun hkeeps => ⟨hpart', hiff.mpr hkeeps⟩, fun hnot hgood => hnot (hiff.mp hgood.ordered)⟩

/-! ## The two calls -/

instance (q : MSHRQueue) : Decidable q.Ordered := by unfold Ordered; infer_instance

/-- Two misses; the first is delayed beyond the second. -/
def delayedRun : List QueueEvent := [.allocate 0x1000 64 { id := 1, cmd := .ReadReq } 0 0 true,
    .allocate 0x1040 64 { id := 2, cmd := .ReadReq } 5 1 true, .delay 0 0 10]

/-- The second is ready and is not found. -/
theorem delay_hides_ready : ¬ ∀ (num_entries reserve : Nat) (es : List QueueEvent) (q : MSHRQueue),
      Trace.runs step (new num_entries reserve) es = some q → Good q := by
  intro h
  have hrun : ((Trace.runs step (new 4 0) delayedRun).any fun q =>
      decide (¬ q.Ordered) && (q.getNext 5).isNone) = true := by
    decide +kernel
  cases hq : Trace.runs step (new 4 0) delayedRun with
  | none =>
    rw [hq] at hrun
    cases hrun
  | some q =>
    rw [hq] at hrun
    exact of_decide_eq_true (Bool.and_eq_true_iff.mp hrun).1 (h 4 0 delayedRun q hq).ordered

/-- A prefetch that waits has a later clean request deferred behind it, and is given up. -/
def forcedRun : List QueueEvent := [.allocate 0x1000 64 { id := 1, cmd := .HardPFReq } 0 0 true,
    .register 0 (.allocateTarget { id := 2, cmd := .CleanSharedReq, req := { clean := true } } 10 1
      false),
    .allocate 0x1040 64 { id := 3, cmd := .ReadReq } 5 2 true, .forceDeallocateTarget 0 0]

theorem force_breaks_order :
    ((Trace.runs step (new 4 0) forcedRun).any fun q => decide (¬ q.Ordered)) = true := by
  decide +kernel

/-! ## Whatever the times -/

theorem Partitioned.step {e : QueueEvent} (h : Partitioned q) (hstep : q.step e = some q') :
    Partitioned q' := by
  cases e with
  | allocate blk_addr blk_size pkt when_ready order alloc_on_fill =>
    exact allocate_partitioned h hstep
  | delay i curTick delay_ticks =>
    obtain ⟨-, rfl⟩ := delay_eq hstep
    exact h.setEntry rfl
  | markInService i b => exact markInService_partitioned h hstep
  | markPending i => exact markPending_partitioned h hstep
  | deallocate i => exact deallocate_partitioned h hstep
  | forceDeallocateTarget i curTick =>
    replace hstep : q.forceDeallocateTarget i curTick = some q' := hstep
    unfold forceDeallocateTarget at hstep
    split at hstep
    swap
    · cases hstep
    dsimp only at hstep
    have hpop : Partitioned (q.setEntry i (popTarget (q.entries i))) := h.setEntry rfl
    split at hstep
    · cases hstep
      exact hpop
    rename_i hempty
    obtain ⟨⟨m, promoted⟩, hm, hstep⟩ := bind_eq_some_iff.mp hstep
    obtain ⟨hsame, htime⟩ := promoteDeferredTargets_time (not_not.mp hempty) hm
    cases promoted with
    | false =>
      obtain ⟨-, rfl⟩ := htime
      exact deallocate_partitioned hpop hstep
    | true =>
      obtain rfl : q.setEntry i m = q' := Option.some.inj hstep
      exact h.setEntry hsame
  | register i call =>
    simp only [MSHRQueue.step] at hstep
    split at hstep
    swap
    · cases hstep
    obtain ⟨m, hm, rfl⟩ := map_eq_some_iff.mp hstep
    exact h.setEntry (apply_same hm).1

/-- In every run, also where the ready list is out of order, each entry is in one place and the
    counts are right. -/
theorem entries_partitioned (num_entries reserve : Nat) {es : List QueueEvent}
    (hrun : Trace.runs step (new num_entries reserve) es = some q) : Partitioned q :=
  Trace.runs_invariant Partitioned (fun _ _ _ h hstep => h.step hstep)
    (new_partitioned num_entries reserve) hrun

/-- The run that puts the ready list out of order. -/
theorem entries_partitioned_forced : ∃ q, Trace.runs step (new 4 0) forcedRun = some q ∧
    Partitioned q := by
  refine (Option.isSome_iff_exists.mp ?_).imp fun q hq => ⟨hq, entries_partitioned 4 0 hq⟩
  decide +kernel

end MSHRQueue

end Gem5Dvr.Mshr
