/-
  What allocation and reclamation do to the helper register file.

  An entry is described by its `book` (everything but values and ready ticks).  The invariant
  carried through all of this is `Blank`: an unallocated entry holds no name, no user and no pending
  release.  `total s r` counts a register name on the free list and in the entries; with the shared
  bank every operation here keeps it, because a name is only ever MOVED between the two
  (`reclaim_total`, `takeVector_total`, `takeScalar_total`).

  The results callers use are `allocateScalar_some`/`_none` and `allocateVectorBundle_some`/`_none`:
  what was free, what is taken now, and that nothing else has moved.
-/
import Gem5Dvr.HelperRegs
import Gem5Dvr.Lib.Fold

namespace Gem5Dvr.HelperRegs

open Function

open State

/-- Everything in an entry but its values and ready ticks. -/
def PhysicalRegister.book (e : PhysicalRegister) : PhysicalRegister :=
  { e with values := fun _ => 0, ready := fun _ => 0 }

/-- How often a name is on the free list or borrowed by an entry. -/
def State.total (s : State) (r : PhysReg) : Nat :=
  s.bank.freeList.count r + ∑ p, (s.file.physical p).names.count r

/-- An unallocated entry carries nothing. -/
def State.Blank (s : State) : Prop := ∀ p, s.file.allocated p = false → (s.file.physical p).book = {}

theorem names_book (e : PhysicalRegister) : e.book.names = e.names := rfl

theorem State.Blank.names {s : State} (h : s.Blank) {p : Phys} (hp : s.file.allocated p = false) :
    (s.file.physical p).names = [] := by
  rw [← names_book, h p hp]
  rfl

variable {s : State} {p q : Phys}

@[simp] theorem setEntry_allocated (e : PhysicalRegister) :
    (s.setEntry p e).file.allocated = s.file.allocated := rfl

@[simp] theorem setEntry_bank (e : PhysicalRegister) : (s.setEntry p e).bank = s.bank := rfl

@[simp] theorem setEntry_physical (e : PhysicalRegister) :
    (s.setEntry p e).file.physical = update s.file.physical p e := rfl

theorem total_setEntry (e : PhysicalRegister) (r : PhysReg) :
    (s.setEntry p e).total r + (s.file.physical p).names.count r = s.total r + e.names.count r := by
  have hsum := Fold.sum_update s.file.physical (fun e => e.names.count r) p e
  simp only [State.total, setEntry_bank, setEntry_physical]
  omega

@[simp] theorem setAllocated_physical (b : Bool) :
    (s.setAllocated p b).file.physical = s.file.physical := rfl

@[simp] theorem setAllocated_allocated (b : Bool) :
    (s.setAllocated p b).file.allocated = update s.file.allocated p b := rfl

@[simp] theorem setAllocated_total (b : Bool) (r : PhysReg) :
    (s.setAllocated p b).total r = s.total r := rfl

/-! ## Reclaiming an entry -/

@[simp] theorem reclaim_vrat : (s.reclaim p).file.vrat = s.file.vrat := rfl

@[simp] theorem reclaim_allocated :
    (s.reclaim p).file.allocated = update s.file.allocated p false := rfl

@[simp] theorem reclaim_physical : (s.reclaim p).file.physical = update s.file.physical p {} := rfl

theorem reclaim_blank (h : s.Blank) : (s.reclaim p).Blank := by
  intro q hq
  by_cases hqp : q = p
  · subst hqp
    simp [PhysicalRegister.book]
  · simp only [reclaim_allocated, reclaim_physical, update_of_ne hqp] at hq ⊢
    exact h q hq

theorem reclaim_total (hs : s.file.shared = true) (r : PhysReg) :
    (s.reclaim p).total r = s.total r := by
  let t : State := { s with bank := { s.bank with
    freeList := s.bank.freeList.addRegs (s.file.physical p).names } }
  have ht : t.total r = s.total r + (s.file.physical p).names.count r := by
    simp only [t, State.total, FreeList.count_addRegs]
    omega
  have hset := total_setEntry (s := t.setAllocated p false) (p := p) {} r
  have hre : s.reclaim p = (t.setAllocated p false).setEntry p {} := by
    simp [reclaim, hs, t]
  rw [hre]
  simp only [setAllocated_total, setAllocated_physical, ht] at hset
  have hnil : ({} : PhysicalRegister).names.count r = 0 := rfl
  have hphys : (t.file.physical p).names.count r = (s.file.physical p).names.count r := rfl
  omega

/-! ## Taking an entry -/

theorem takeElements_count (n : Nat) (f : FreeList) (r : PhysReg) :
    (takeElements n f).2.count r + (takeElements n f).1.count r = f.count r := by
  induction n generalizing f with
  | zero => simp [takeElements]
  | succ n ih =>
    unfold takeElements
    cases h : f.getReg .VecElem with
    | none => simp
    | some g =>
      obtain ⟨q, g⟩ := g
      have hg := FreeList.count_getReg h r
      have hn := ih g
      simp only [List.count_cons] at hn ⊢
      rw [List.count_singleton] at hg
      omega

theorem takeVectorNames_count (f : FreeList) (r : PhysReg) :
    (takeVectorNames f).2.count r + (takeVectorNames f).1.count r = f.count r := by
  have h := takeElements_count LanesPerVectorCopy f r
  simp only [takeVectorNames]
  split_ifs
  · exact h
  · simpa using h

@[simp] theorem takeVector_allocated :
    (s.takeVector p).file.allocated = update s.file.allocated p true := rfl

theorem takeVector_physical_of_ne (h : q ≠ p) :
    (s.takeVector p).file.physical q = s.file.physical q := by
  simp [takeVector, h]

/-- The entry a bundle has just taken. -/
def freshVector (shared_ids : List PhysReg) : PhysicalRegister :=
  { sharedIds := shared_ids, vector := true, allocated := true }

theorem takeVector_book (h : s.Blank) (hp : s.file.allocated p = false) :
    ∃ ids, ((s.takeVector p).file.physical p).book = freshVector ids := by
  have hb := h p hp
  refine ⟨((s.takeVector p).file.physical p).sharedIds, ?_⟩
  simp only [takeVector, setEntry_physical, update_self]
  simp only [PhysicalRegister.book, PhysicalRegister.mk.injEq] at hb ⊢
  simp [freshVector, hb]

theorem takeVector_blank (h : s.Blank) : (s.takeVector p).Blank := by
  intro q hq
  by_cases hqp : q = p
  · subst hqp
    simp at hq
  · rw [takeVector_allocated, update_of_ne hqp] at hq
    rw [takeVector_physical_of_ne hqp]
    exact h q hq

theorem takeVector_total (h : s.Blank) (hp : s.file.allocated p = false)
    (hs : s.file.shared = true) (r : PhysReg) : (s.takeVector p).total r = s.total r := by
  let t : State := { s with bank := { s.bank with freeList := (takeVectorNames s.bank.freeList).2 } }
  have hn := takeVectorNames_count s.bank.freeList r
  have ht : t.total r + (takeVectorNames s.bank.freeList).1.count r = s.total r := by
    simp only [t, State.total]
    omega
  let e : PhysicalRegister := { s.file.physical p with
    allocated := true, vector := true, sharedIds := (takeVectorNames s.bank.freeList).1 }
  have hset := total_setEntry (s := t.setAllocated p true) (p := p) e r
  have hre : s.takeVector p = (t.setAllocated p true).setEntry p e := by
    simp [takeVector, hs, t, e]
  have hid : (s.file.physical p).sharedId = none := by
    have := congrArg PhysicalRegister.sharedId (h p hp)
    exact this
  have he : e.names = (takeVectorNames s.bank.freeList).1 := by
    simp [e, PhysicalRegister.names, hid]
  have hold : ((t.setAllocated p true).file.physical p).names = [] := h.names hp
  rw [hre]
  rw [he, hold, List.count_nil, setAllocated_total] at hset
  omega

/-! ## Bundles -/

/-- The vector entries a bundle is made of: the first sixteen free ones. -/
def freeVectors (s : State) : List Phys := vectorEntries.filter (fun p => !s.file.allocated p)

theorem bundleLoop_eq (ps : List Phys) (hps : ps.Nodup) :
    ∀ (result : List Phys) (s : State), result.length ≤ VectorCopies → bundleLoop ps result s =
        (result ++ (ps.filter (fun p => !s.file.allocated p)).take (VectorCopies - result.length),
          ((ps.filter (fun p => !s.file.allocated p)).take
            (VectorCopies - result.length)).foldl takeVector s) := by
  induction ps with
  | nil => intro result s _; simp [bundleLoop]
  | cons p ps ih =>
    intro result s hlen
    obtain ⟨hp, hnd⟩ := List.nodup_cons.mp hps
    unfold bundleLoop
    by_cases hfull : result.length = VectorCopies
    · rw [if_pos hfull, hfull]
      simp
    rw [if_neg hfull]
    by_cases ha : s.file.allocated p = true
    · rw [if_pos ha, ih hnd result s hlen]
      simp [ha]
    · rw [if_neg ha, ih hnd (result ++ [p]) (s.takeVector p) (by simp; omega)]
      -- `p` does not come again, so the rest of the list sees the same free entries
      have hrest : ps.filter (fun q => !(s.takeVector p).file.allocated q)
          = ps.filter (fun q => !s.file.allocated q) := by
        refine List.filter_congr fun q hq => ?_
        have hqp : q ≠ p := fun h => hp (h ▸ hq)
        rw [takeVector_allocated, update_of_ne hqp]
      have hsub : VectorCopies - result.length = (VectorCopies - (result ++ [p]).length) + 1 := by
        simp
        omega
      have hpf : s.file.allocated p = false := by simpa using ha
      rw [hrest, List.filter_cons_of_pos (by simp [hpf]), hsub, List.take_succ_cons]
      simp

theorem vectorEntries_nodup : vectorEntries.Nodup := (List.nodup_finRange 384).filter _

theorem freeVectors_nodup (s : State) : (freeVectors s).Nodup := vectorEntries_nodup.filter _

theorem mem_freeVectors : p ∈ freeVectors s ↔ 256 ≤ p.val ∧ s.file.allocated p = false := by
  rw [freeVectors, List.mem_filter, vectorEntries, List.mem_filter, decide_eq_true_iff]
  simp [NumScalarPhysicalRegs]

/-- Taking a list of free entries: nothing else moves. -/
structure Takes (s t : State) (l : List Phys) : Prop where
  vrat : t.file.vrat = s.file.vrat
  shared : t.file.shared = s.file.shared
  allocated : ∀ q, t.file.allocated q = (s.file.allocated q || decide (q ∈ l))
  kept : ∀ q, q ∉ l → t.file.physical q = s.file.physical q
  fresh : ∀ q ∈ l, ∃ ids, (t.file.physical q).book = freshVector ids
  blank : t.Blank
  total : s.file.shared = true → ∀ r, t.total r = s.total r

theorem takes_foldl (hb : s.Blank) {l : List Phys} (hnd : l.Nodup)
    (hfree : ∀ q ∈ l, s.file.allocated q = false) : Takes s (l.foldl takeVector s) l := by
  induction l generalizing s with
  | nil => exact ⟨rfl, rfl, by simp, fun _ _ => rfl, by simp, hb, fun _ _ => rfl⟩
  | cons p l ih =>
    obtain ⟨hp, hnd⟩ := List.nodup_cons.mp hnd
    have hpf : s.file.allocated p = false := hfree p List.mem_cons_self
    have hfree' : ∀ q ∈ l, (s.takeVector p).file.allocated q = false := by
      intro q hq
      have hqp : q ≠ p := fun h => hp (h ▸ hq)
      rw [takeVector_allocated, update_of_ne hqp]
      exact hfree q (List.mem_cons_of_mem p hq)
    have h := ih (takeVector_blank hb) hnd hfree'
    refine ⟨h.vrat, h.shared, fun q => ?_, fun q hq => ?_, fun q hq => ?_, h.blank, fun hs r => ?_⟩
    · rw [List.foldl_cons, h.allocated, takeVector_allocated]
      by_cases hqp : q = p
      · subst hqp; simp
      · simp [hqp]
    · have hqp : q ≠ p := fun h => hq (h ▸ List.mem_cons_self)
      have hql : q ∉ l := fun h => hq (List.mem_cons_of_mem p h)
      rw [List.foldl_cons, h.kept q hql, takeVector_physical_of_ne hqp]
    · rcases List.mem_cons.mp hq with rfl | hql
      · rw [List.foldl_cons, h.kept q hp]
        exact takeVector_book hb hpf
      · exact h.fresh q hql
    · rw [List.foldl_cons, h.total hs r, takeVector_total hb hpf hs r]

theorem allocateVectorBundle_eq (s : State) : s.allocateVectorBundle =
    if h : ((freeVectors s).take 16).length = 16 then
      (some fun i => ((freeVectors s).take 16).get (i.cast h.symm),
        ((freeVectors s).take 16).foldl takeVector s)
    else (none, ((freeVectors s).take 16).foldl reclaim
      (((freeVectors s).take 16).foldl takeVector s)) := by
  unfold allocateVectorBundle
  rw [bundleLoop_eq vectorEntries vectorEntries_nodup [] s (by simp)]
  rfl

theorem takes_freeVectors (hb : s.Blank) :
    Takes s (((freeVectors s).take 16).foldl takeVector s) ((freeVectors s).take 16) :=
  takes_foldl hb ((freeVectors_nodup s).sublist (List.take_sublist 16 _))
    (fun _ hq => (mem_freeVectors.mp (List.mem_of_mem_take hq)).2)

/-- The entries of a bundle. -/
def bundleNames (bundle : Copy → Phys) : List Phys := List.ofFn bundle

@[simp] theorem mem_bundleNames {bundle : Copy → Phys} :
    p ∈ bundleNames bundle ↔ ∃ c, bundle c = p := List.mem_ofFn

theorem allocateVectorBundle_some (hb : s.Blank) {bundle : Copy → Phys} {t : State}
    (h : s.allocateVectorBundle = (some bundle, t)) :
    Injective bundle ∧ (∀ c, 256 ≤ (bundle c).val ∧ s.file.allocated (bundle c) = false) ∧
      Takes s t (bundleNames bundle) := by
  rw [allocateVectorBundle_eq] at h
  split_ifs at h with hlen
  swap
  · cases h
  cases h
  have hnd : ((freeVectors s).take 16).Nodup :=
    (freeVectors_nodup s).sublist (List.take_sublist 16 _)
  have hof : (bundleNames fun i : Copy => ((freeVectors s).take 16).get (i.cast hlen.symm))
      = (freeVectors s).take 16 := by
    apply List.ext_getElem
    · rw [bundleNames, List.length_ofFn, hlen]
    · intro n _ _
      simp only [bundleNames]
      rw [List.getElem_ofFn, List.get_eq_getElem]
      rfl
  refine ⟨?_, ?_, ?_⟩
  · intro i j hij
    have := hnd.injective_get hij
    simpa using this
  · intro c
    exact mem_freeVectors.mp (List.mem_of_mem_take (List.get_mem _ _))
  · rw [hof]
    exact takes_freeVectors hb

/-- Reclaiming a list of entries. -/
theorem reclaim_foldl (l : List Phys) : ∀ s : State, (l.foldl reclaim s).file.vrat = s.file.vrat ∧
      (l.foldl reclaim s).file.shared = s.file.shared ∧
      (∀ q, (l.foldl reclaim s).file.allocated q = (s.file.allocated q && decide (q ∉ l))) ∧
      (∀ q, q ∉ l → (l.foldl reclaim s).file.physical q = s.file.physical q) ∧
      (s.Blank → (l.foldl reclaim s).Blank) ∧
      (s.file.shared = true → ∀ r, (l.foldl reclaim s).total r = s.total r) := by
  induction l with
  | nil => intro s; simp
  | cons p l ih =>
    intro s
    obtain ⟨hv, hsh, hal, hph, hbl, htot⟩ := ih (s.reclaim p)
    refine ⟨hv, hsh, fun q => ?_, fun q hq => ?_, fun hb => hbl (reclaim_blank hb), fun hs r => ?_⟩
    · rw [List.foldl_cons, hal, reclaim_allocated]
      by_cases hqp : q = p
      · subst hqp; simp
      · simp [hqp]
    · have hqp : q ≠ p := fun h => hq (h ▸ List.mem_cons_self)
      have hql : q ∉ l := fun h => hq (List.mem_cons_of_mem p h)
      rw [List.foldl_cons, hph q hql, reclaim_physical, update_of_ne hqp]
    · rw [List.foldl_cons, htot hs r, reclaim_total hs r]

theorem allocateVectorBundle_none (hb : s.Blank) {t : State}
    (h : s.allocateVectorBundle = (none, t)) :
    (freeVectors s).length < 16 ∧ t.file.vrat = s.file.vrat ∧ t.file.shared = s.file.shared ∧
      t.file.allocated = s.file.allocated ∧ t.Blank ∧
      (∀ q, s.file.allocated q = true → t.file.physical q = s.file.physical q) ∧
      (s.file.shared = true → ∀ r, t.total r = s.total r) := by
  rw [allocateVectorBundle_eq] at h
  split_ifs at h with hlen
  · cases h
  cases h
  have htk := takes_freeVectors hb
  obtain ⟨hv, hsh, hal, hph, hbl, htot⟩ := reclaim_foldl ((freeVectors s).take 16)
    (((freeVectors s).take 16).foldl takeVector s)
  refine ⟨?_, hv.trans htk.vrat, hsh.trans htk.shared, ?_, hbl htk.blank, fun q hq => ?_,
    fun hs r => ?_⟩
  · rw [List.length_take] at hlen
    omega
  · funext q
    rw [hal, htk.allocated]
    by_cases hq : q ∈ (freeVectors s).take 16
    · have : s.file.allocated q = false := (mem_freeVectors.mp (List.mem_of_mem_take hq)).2
      simp [hq, this]
    · simp [hq]
  · have hql : q ∉ (freeVectors s).take 16 := by
      intro hmem
      have : s.file.allocated q = false := (mem_freeVectors.mp (List.mem_of_mem_take hmem)).2
      simp [hq] at this
    rw [hph q hql, htk.kept q hql]
  · rw [htot (htk.shared.trans hs) r, htk.total hs r]

/-- A bundle fails only when fewer than sixteen vector entries are free. -/
theorem allocateVectorBundle_isSome (h : 16 ≤ (freeVectors s).length) :
    ∃ bundle t, s.allocateVectorBundle = (some bundle, t) := by
  rw [allocateVectorBundle_eq, dif_pos (by rw [List.length_take]; omega)]
  exact ⟨_, _, rfl⟩

/-! ## Scalar entries -/

/-- The entry `allocateScalar` has just taken. -/
def freshScalar (shared_id : Option PhysReg) : PhysicalRegister :=
  { sharedId := shared_id, allocated := true }

theorem takeScalarName_count (f : FreeList) (r : PhysReg) :
    (takeScalarName f).2.count r + (takeScalarName f).1.toList.count r = f.count r := by
  unfold takeScalarName
  cases h : f.getReg .Int with
  | none => simp
  | some g =>
    have hg := FreeList.count_getReg (r := g.1) (g := g.2) h r
    simpa using hg.symm

/-- Taking one scalar entry: nothing else moves. -/
structure TakesScalar (s t : State) (p : Phys) : Prop where
  scalar : p.val < 256
  free : s.file.allocated p = false
  vrat : t.file.vrat = s.file.vrat
  shared : t.file.shared = s.file.shared
  allocated : t.file.allocated = update s.file.allocated p true
  kept : ∀ q, q ≠ p → t.file.physical q = s.file.physical q
  fresh : ∃ id, (t.file.physical p).book = freshScalar id
  blank : t.Blank
  total : s.file.shared = true → ∀ r, t.total r = s.total r

theorem takeScalar_total (h : s.Blank) (hp : s.file.allocated p = false)
    (hs : s.file.shared = true) (r : PhysReg) : (s.takeScalar p).total r = s.total r := by
  let t : State := { s with bank := { s.bank with freeList := (takeScalarName s.bank.freeList).2 } }
  have hn := takeScalarName_count s.bank.freeList r
  have ht : t.total r + (takeScalarName s.bank.freeList).1.toList.count r = s.total r := by
    simp only [t, State.total]
    omega
  let e : PhysicalRegister := { s.file.physical p with
    allocated := true, vector := false, sharedId := (takeScalarName s.bank.freeList).1 }
  have hset := total_setEntry (s := t.setAllocated p true) (p := p) e r
  have hre : s.takeScalar p = (t.setAllocated p true).setEntry p e := by
    simp [takeScalar, hs, t, e]
  have hid : (s.file.physical p).sharedIds = [] := congrArg PhysicalRegister.sharedIds (h p hp)
  have he : e.names = (takeScalarName s.bank.freeList).1.toList := by
    simp [e, PhysicalRegister.names, hid]
  have hold : ((t.setAllocated p true).file.physical p).names = [] := h.names hp
  rw [hre]
  rw [he, hold, List.count_nil, setAllocated_total] at hset
  omega

theorem allocateScalar_none {t : State} (h : s.allocateScalar = (none, t)) :
    t = s ∧ ∀ q : Phys, q.val < 256 → s.file.allocated q = true := by
  unfold allocateScalar at h
  split at h
  · rename_i hf
    cases h
    refine ⟨rfl, fun q hq => ?_⟩
    have := List.find?_eq_none.mp hf q (List.mem_finRange q)
    simpa [NumScalarPhysicalRegs, hq] using this
  · cases h

theorem allocateScalar_some (hb : s.Blank) {t : State} (h : s.allocateScalar = (some p, t)) :
    TakesScalar s t p := by
  unfold allocateScalar at h
  split at h
  · cases h
  rename_i q hf
  cases h
  obtain ⟨hq, hfree⟩ : p.val < 256 ∧ s.file.allocated p = false := by
    have := List.find?_some hf
    rw [Bool.and_eq_true, decide_eq_true_iff, Bool.not_eq_true'] at this
    exact this
  refine ⟨hq, hfree, rfl, rfl, rfl, fun r hr => ?_, ?_, fun r hr => ?_,
    fun hs r => takeScalar_total hb hfree hs r⟩
  · simp [takeScalar, hr]
  · have hbook := hb p hfree
    refine ⟨((s.takeScalar p).file.physical p).sharedId, ?_⟩
    simp only [takeScalar, setEntry_physical, update_self]
    simp only [PhysicalRegister.book, PhysicalRegister.mk.injEq] at hbook ⊢
    simp [freshScalar, hbook]
  · by_cases hrp : r = p
    · subst hrp
      simp [takeScalar] at hr
    · simp only [takeScalar, setEntry_allocated, setAllocated_allocated, update_of_ne hrp] at hr
      simp only [takeScalar, setEntry_physical, update_of_ne hrp]
      exact hb r hr

end Gem5Dvr.HelperRegs
