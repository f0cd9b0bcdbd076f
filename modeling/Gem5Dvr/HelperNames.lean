/-
  Names borrowed by helper register files are conserved.

  `n` register files are configured with one `UnifiedFreeList`.  Names leave and enter the free list
  in five places of the source, and nothing there checks for duplicates; but each of them MOVES a
  name between the list and one entry (`Conserves`), so over every sequence of calls and destructions
  the free list and the borrowed names together stay the initial free list.

  That much holds whatever is called.  `conservationValid` needs one promise of the caller:
  `markDead` frees an entry without looking at the mappings, so it may be called directly only for a
  name that no mapping uses (`deadOnly`), which is how `vectorize` and the renames call it.
  `conservationValid_not_invariant` shows what happens otherwise.
-/
import Gem5Dvr.HelperInit
import Gem5Dvr.Lib.Trace

namespace Gem5Dvr.HelperRegs

open List Function

open State

variable {s t u : State} {p q : Phys} {arch : Arch}

/-! ## One file -/

/-- Names have only been moved between the free list and the entries. -/
structure Conserves (s t : State) : Prop where
  shared : t.file.shared = s.file.shared
  blank : t.Blank
  total : s.file.shared = true → ∀ r, t.total r = s.total r

namespace Conserves

theorem refl (h : s.Blank) : Conserves s s := ⟨rfl, h, fun _ _ => rfl⟩

theorem trans (h : Conserves s t) (h' : Conserves t u) : Conserves s u :=
  ⟨h'.shared.trans h.shared, h'.blank,
    fun hs r => (h'.total (h.shared.trans hs) r).trans (h.total hs r)⟩

end Conserves

theorem SameBooks.conserves (hb : SameBooks s t) (h : s.Blank) : Conserves s t :=
  ⟨hb.shared, hb.blank h, fun _ r => hb.total r⟩

theorem sameBooks_foldl {α : Type} {f : State → α → State} (hf : ∀ s a, SameBooks s (f s a))
    (l : List α) : SameBooks s (l.foldl f s) :=
  List.foldlRecOn (motive := SameBooks s) l _ (.refl s) fun t h a _ => h.trans (hf t a)

theorem conserves_setEntry (h : s.Blank) (ha : s.file.allocated p = true) {e : PhysicalRegister}
    (hn : e.names = (s.file.physical p).names) : Conserves s (s.setEntry p e) := by
  refine ⟨rfl, fun q hq => ?_, fun _ r => ?_⟩
  · have hqp : q ≠ p := by
      rintro rfl
      simp [ha] at hq
    rw [setEntry_physical, update_of_ne hqp]
    exact h q hq
  · have := total_setEntry (s := s) (p := p) e r
    rw [hn] at this
    omega

theorem conserves_reclaim (h : s.Blank) : Conserves s (s.reclaim p) :=
  ⟨rfl, reclaim_blank h, fun hs r => reclaim_total hs r⟩

theorem conserves_markDead (h : s.Blank) (phys : Option Phys) : Conserves s (s.markDead phys) := by
  cases phys with
  | none => exact .refl h
  | some p =>
    simp only [State.markDead]
    split_ifs with hu
    · have ha : s.file.allocated p = true := by
        by_contra hne
        exact hu (show (s.file.physical p).book.users = 0 by rw [h p (by simpa using hne)])
      exact conserves_setEntry h ha rfl
    · exact conserves_reclaim h

theorem conserves_retainPhysical (h : s.Blank) (phys : Option Phys) :
    Conserves s (s.retainPhysical phys) := by
  cases phys with
  | none => exact .refl h
  | some p =>
    simp only [State.retainPhysical]
    split_ifs with ha
    · exact .refl h
    · exact conserves_setEntry h (by simpa using ha) rfl

theorem conserves_releasePhysical (h : s.Blank) (phys : Option Phys) :
    Conserves s (s.releasePhysical phys) := by
  cases phys with
  | none => exact .refl h
  | some p =>
    simp only [State.releasePhysical]
    split_ifs with ha hz
    · exact .refl h
    · have hset := conserves_setEntry h (by simpa using ha) (e := { s.file.physical p with
        users := (s.file.physical p).users - 1 }) rfl
      exact hset.trans (conserves_reclaim hset.blank)
    · exact conserves_setEntry h (by simpa using ha) rfl

theorem conserves_allocateScalar (h : s.Blank) : Conserves s s.allocateScalar.2 := by
  rcases hall : s.allocateScalar with ⟨_ | p, t⟩
  · obtain ⟨rfl, -⟩ := allocateScalar_none hall
    exact .refl h
  · have ht := allocateScalar_some h hall
    exact ⟨ht.shared, ht.blank, ht.total⟩

theorem conserves_allocateVectorBundle (h : s.Blank) : Conserves s s.allocateVectorBundle.2 := by
  rcases hall : s.allocateVectorBundle with ⟨_ | bundle, t⟩
  · have hu := unchanged_of_bundle_none h hall
    exact ⟨hu.shared, hu.blank, hu.total⟩
  · obtain ⟨-, -, ht⟩ := allocateVectorBundle_some h hall
    exact ⟨ht.shared, ht.blank, ht.total⟩

theorem conserves_releaseStale (h : s.Blank) (old_phys : List Phys) :
    Conserves s (s.releaseStale arch old_phys) :=
  (releaseStale_rule (P := Conserves s) (.refl h)
    fun _ p _ _ _ ht => ht.trans (conserves_markDead ht.blank (some p))).1

theorem conserves_reset (h : s.Blank) : Conserves s s.reset := by
  obtain ⟨hfile, htot⟩ := reset_spec h
  refine ⟨by rw [hfile], fun q _ => ?_, htot⟩
  rw [hfile]
  rfl

theorem conserves_vectorize (h : s.Blank) (arch : Arch) : Conserves s (s.vectorize arch).2 := by
  unfold State.vectorize
  split_ifs
  · exact .refl h
  have hall := conserves_allocateVectorBundle h
  rcases hb : s.allocateVectorBundle with ⟨_ | bundle, t⟩ <;> rw [hb] at hall
  · exact hall
  · have hloop : SameBooks t ((finRange 128).foldl
        (vectorizeLane bundle (t.file.vrat arch).scalar) t) :=
      sameBooks_foldl (fun s a => by
        unfold vectorizeLane
        exact (sameBooks_writePhysical _ _ _).trans (sameBooks_setReady _)) _
    have hmap := (hloop.trans (sameBooks_setMapping arch (vectorizedMapping bundle))).conserves
      hall.blank
    exact (hall.trans hmap).trans (conserves_markDead hmap.blank _)

theorem conserves_renameVectorMasked (h : s.Blank) (arch : Arch) (active_mask : LaneMask) :
    Conserves s (s.renameVectorMasked arch active_mask).2 := by
  have hall := conserves_allocateVectorBundle h
  unfold State.renameVectorMasked
  rcases hb : s.allocateVectorBundle with ⟨_ | bundle, t⟩ <;> rw [hb] at hall
  · exact hall
  · have hloop : SameBooks t ((finRange 128).foldl (renameVectorLane arch active_mask bundle) t) :=
      sameBooks_foldl (fun s a => by
        unfold renameVectorLane
        split_ifs
        · exact ((sameBooks_writePhysical _ _ _).trans (sameBooks_setReady _)).trans
            (sameBooks_setMapping _ _)
        · exact (sameBooks_writePhysical _ _ _).trans (sameBooks_setReady _)) _
    have hmap := fun m => (hloop.trans (sameBooks_setMapping arch m)).conserves hall.blank
    exact (hall.trans (hmap _)).trans (conserves_releaseStale (hmap _).blank _)

theorem conserves_renameScalarMasked (h : s.Blank) (arch : Arch) (active_mask : LaneMask) :
    Conserves s (s.renameScalarMasked arch active_mask).2 := by
  have hall := conserves_allocateScalar h
  unfold State.renameScalarMasked
  rcases hb : s.allocateScalar with ⟨_ | p, t⟩ <;> rw [hb] at hall
  · exact hall
  · have hloop : SameBooks t ((finRange 128).foldl (renameScalarLane arch active_mask p) t) :=
      sameBooks_foldl (fun s a => by
        unfold renameScalarLane
        split_ifs
        · exact ((sameBooks_writePhysical _ _ _).trans (sameBooks_setReady _)).trans
            (sameBooks_setMapping _ _)
        · exact .refl s) _
    have hmap := fun m => (hloop.trans (sameBooks_setMapping arch m)).conserves hall.blank
    exact (hall.trans (hmap _)).trans (conserves_releaseStale (hmap _).blank _)

theorem sameBooks_write (arch : Arch) (lane : Lane) (value : RegVal) (ready_tick : Nat) :
    SameBooks s (s.write arch lane value ready_tick) ∧
      (s.write arch lane value ready_tick).file.vrat = s.file.vrat := by
  unfold State.write
  split
  · exact ⟨.refl s, rfl⟩
  · exact ⟨(sameBooks_writePhysical _ _ _).trans (sameBooks_setReady _),
      by rw [setReady_vrat, writePhysical_vrat]⟩

/-- No call of the interface creates or loses a name. -/
theorem conserves_step (h : s.Blank) (op : Op) : Conserves s (step s op) := by
  cases op with
  | reset => exact conserves_reset h
  | initializeRegs regs =>
    obtain ⟨hi, hs, ht⟩ := initialized h regs
    change Conserves s (s.initializeRegs regs)
    exact ⟨hs, hi.blank, ht⟩
  | allocateScalar => exact conserves_allocateScalar h
  | allocateVectorBundle => exact conserves_allocateVectorBundle h
  | vectorize arch =>
    simp only [step]
    split_ifs
    · exact conserves_vectorize h _
    · exact .refl h
  | renameVectorMasked arch active_mask =>
    simp only [step]
    split_ifs
    · exact conserves_renameVectorMasked h _ _
    · exact .refl h
  | renameScalarMasked arch active_mask =>
    simp only [step]
    split_ifs
    · exact conserves_renameScalarMasked h _ _
    · exact .refl h
  | markDead phys => exact conserves_markDead h phys
  | retainPhysical phys => exact conserves_retainPhysical h phys
  | releasePhysical phys => exact conserves_releasePhysical h phys
  | write arch lane value ready_tick =>
    simp only [step]
    split_ifs
    · exact (sameBooks_write _ _ _ _).1.conserves h
    · exact .refl h

/-! ## `conservationValid` -/

/-- The invariant is what `conservationValid` checks. -/
theorem Inv.conservationValid (h : Inv s) : conservationValid s.file = true := by
  have hall : ∀ (a : Arch) (x : Option Phys), (∀ p, x = some p → (s.file.vrat a).Uses p) →
      x.all s.file.allocated = true := by
    intro a x hx
    cases x with
    | none => rfl
    | some p => exact h.used a p (hx p rfl)
  unfold State.conservationValid
  rw [Bool.and_eq_true, all_eq_true, all_eq_true]
  refine ⟨fun p _ => ?_, fun a _ => ?_⟩
  · cases ha : s.file.allocated p with
    | true => simp [h.marked p ha]
    | false =>
      have hb := h.blank p ha
      have h1 : (s.file.physical p).allocated = false :=
        show (s.file.physical p).book.allocated = false by rw [hb]
      have h2 : (s.file.physical p).users = 0 :=
        show (s.file.physical p).book.users = 0 by rw [hb]
      have h3 : (s.file.physical p).pendingRelease = false :=
        show (s.file.physical p).book.pendingRelease = false by rw [hb]
      simp [h1, h2, h3]
  · simp only
    rw [Bool.and_eq_true, all_eq_true]
    refine ⟨fun l _ => hall a _ fun p hp => Or.inl ⟨l, hp⟩, ?_⟩
    split_ifs with hv
    · exact all_eq_true.mpr fun c _ => hall a _ fun p hp => Or.inr (Or.inl ⟨hv, c, hp⟩)
    · exact hall a _ fun p hp => Or.inr (Or.inr ⟨by simpa using hv, hp⟩)

/-- A direct call of `markDead` names an entry that no mapping uses. -/
def deadOnly (s : State) : Op → Prop
  | .markDead (some p) => ∀ a, ¬ (s.file.vrat a).Uses p
  | _ => True

theorem inv_blank (hs : s.file = { shared := s.file.shared }) : Inv s := by
  have hu : ∀ a p, ¬ (s.file.vrat a).Uses p := by
    rintro a p h
    rw [hs] at h
    rcases h with ⟨l, hl⟩ | ⟨hv, -⟩ | ⟨-, hsc⟩
    · cases hl
    · cases hv
    · cases hsc
  refine ⟨fun q _ => ?_, fun q hq => ?_, fun a p h => absurd h (hu a p),
    fun a b p h => absurd h (hu a p), fun a p h => absurd h (hu a p)⟩
  · rw [hs]
    rfl
  · rw [hs] at hq
    cases hq

theorem Inv.step (h : Inv s) {op : Op} (hop : deadOnly s op) : Inv (step s op) := by
  cases op with
  | reset =>
    have hfile := (reset_spec h.blank).1
    exact inv_blank (show s.reset.file = { shared := s.reset.file.shared } by rw [hfile])
  | initializeRegs regs => exact (initialized h.blank regs).1.inv
  | allocateScalar =>
    rcases hall : s.allocateScalar with ⟨_ | p, t⟩
    · obtain ⟨rfl, -⟩ := allocateScalar_none hall
      simpa [HelperRegs.step, hall] using h
    · simpa [HelperRegs.step, hall] using h.took (allocateScalar_some h.blank hall).took
  | allocateVectorBundle =>
    rcases hall : s.allocateVectorBundle with ⟨_ | bundle, t⟩
    · simpa [HelperRegs.step, hall] using (unchanged_of_bundle_none h.blank hall).inv h
    · obtain ⟨-, hfree, ht⟩ := allocateVectorBundle_some h.blank hall
      have hl : ∀ q ∈ bundleNames bundle, s.file.allocated q = false := fun q hq => by
        obtain ⟨c, rfl⟩ := mem_bundleNames.mp hq
        exact (hfree c).2
      simpa [HelperRegs.step, hall] using h.took (ht.took hl)
  | vectorize arch =>
    simp only [HelperRegs.step]
    split_ifs with harch
    · exact h.vectorize _
    · exact h
  | renameVectorMasked arch active_mask =>
    simp only [HelperRegs.step]
    split_ifs with harch
    · exact h.renameVectorMasked _ _
    · exact h
  | renameScalarMasked arch active_mask =>
    simp only [HelperRegs.step]
    split_ifs with harch
    · exact h.renameScalarMasked _ _
    · exact h
  | markDead phys =>
    cases phys with
    | none => exact h
    | some p => exact h.markDead hop
  | retainPhysical phys => exact h.retainPhysical phys
  | releasePhysical phys => exact h.releasePhysical phys
  | write arch lane value ready_tick =>
    simp only [HelperRegs.step]
    split_ifs
    · obtain ⟨hb, hv⟩ := sameBooks_write (s := s) _ _ value ready_tick
      exact h.sameBooks hb hv
    · exact h

/-! ## Any number of files on one bank -/

/-- `n` register files configured with one shared bank. -/
structure System (n : Nat) where
  files : Fin n → File
  bank : Bank

/-- A call on one of the files, or its destruction; the slot of a destroyed file is free for a new
    object. -/
inductive SystemOp (n : Nat)
  | call (i : Fin n) (op : Op)
  | destroy (i : Fin n)

namespace System

variable {n : Nat}

def state (S : System n) (i : Fin n) : State := ⟨S.files i, S.bank⟩

def put (S : System n) (i : Fin n) (s : State) : System n where
  files := Function.update S.files i s.file
  bank := s.bank

def step (S : System n) : SystemOp n → System n
  | .call i op => S.put i (HelperRegs.step (S.state i) op)
  | .destroy i => S.put i { (S.state i).releaseAll with file := { shared := true } }

/-- All files as constructed, configured with the bank. -/
def start (n : Nat) (bank : Bank) : System n := ⟨fun _ => { shared := true }, bank⟩

def run (bank : Bank) (ops : List (SystemOp n)) : System n := ops.foldl step (start n bank)

/-- The names borrowed by one file. -/
def heldBy (f : File) : List PhysReg := (finRange 384).flatMap fun p => (f.physical p).names

/-- The names borrowed by the entries of all the files. -/
def held (S : System n) : List PhysReg := (finRange n).flatMap fun i => heldBy (S.files i)

/-- How often a name is on the free list or borrowed. -/
def total (S : System n) (r : PhysReg) : Nat :=
  S.bank.freeList.count r + ∑ i, ∑ p, ((S.files i).physical p).names.count r

/-- Every file is configured and blank where unallocated. -/
def Ok (S : System n) : Prop := ∀ i, (S.files i).shared = true ∧ (S.state i).Blank

/-- Blankness is a matter of the file alone. -/
theorem blank_of_file {s t : State} (h : s.Blank) (hf : t.file = s.file) : t.Blank := by
  intro q hq
  rw [hf] at hq ⊢
  exact h q hq

theorem ok_put {S : System n} (h : S.Ok) (i : Fin n) {s : State} (hs : s.file.shared = true)
    (hb : s.Blank) : (S.put i s).Ok := by
  intro j
  by_cases hj : j = i
  · subst hj
    have hf : (S.put j s).files j = s.file := update_self ..
    exact ⟨by rw [hf, hs], blank_of_file hb hf⟩
  · have hf : (S.put i s).files j = S.files j := update_of_ne hj ..
    exact ⟨by rw [hf, (h j).1], blank_of_file (h j).2 hf⟩

theorem names_blank : ({} : PhysicalRegister).names = [] := rfl

theorem total_put (S : System n) (i : Fin n) {s : State} (r : PhysReg)
    (h : s.total r = (S.state i).total r) : (S.put i s).total r = S.total r := by
  have hsum := Fold.sum_update S.files (fun f => ∑ p, (f.physical p).names.count r) i s.file
  simp only [State.total, state] at h
  simp only [total, put]
  omega

theorem step_ok {S : System n} (h : S.Ok) (e : SystemOp n) :
    (S.step e).Ok ∧ ∀ r, (S.step e).total r = S.total r := by
  cases e with
  | call i op =>
    obtain ⟨hs, hb⟩ := h i
    have hc := conserves_step hb op
    exact ⟨ok_put h i (hc.shared.trans hs) hc.blank, fun r => total_put S i r (hc.total hs r)⟩
  | destroy i =>
    obtain ⟨hs, hb⟩ := h i
    have hrel := releaseLoop hb
    refine ⟨ok_put h i rfl (fun _ _ => rfl), fun r => total_put S i r ?_⟩
    have hn : ∀ q, ((S.state i).releaseAll.file.physical q).names = [] := fun q =>
      hrel.blank.names (hrel.released q (mem_finRange q))
    rw [← hrel.total hs r]
    simp only [State.total, hn, names_blank]

theorem run_ok (bank : Bank) (ops : List (SystemOp n)) :
    (run bank ops).Ok ∧ ∀ r, (run bank ops).total r = bank.freeList.count r := by
  have h0 : (start n bank).Ok ∧ ∀ r, (start n bank).total r = bank.freeList.count r := by
    refine ⟨fun i => ⟨rfl, fun _ _ => rfl⟩, fun r => ?_⟩
    simp only [total, start, names_blank, count_nil, Finset.sum_const_zero, Nat.add_zero]
  refine List.foldlRecOn (motive := fun S : System n =>
    S.Ok ∧ ∀ r, S.total r = bank.freeList.count r) ops _ h0 fun S h e _ => ?_
  obtain ⟨h1, h2⟩ := step_ok h.1 e
  exact ⟨h1, fun r => (h2 r).trans (h.2 r)⟩

theorem count_blocks {m : Nat} (f : Fin m → List PhysReg) (r : PhysReg) :
    ((finRange m).flatMap f).count r = ∑ i, (f i).count r := by
  rw [count_flatMap, Fin.sum_univ_def]
  rfl

theorem count_held (S : System n) (r : PhysReg) :
    S.held.count r = ∑ i, ∑ p, ((S.files i).physical p).names.count r := by
  rw [held, count_blocks]
  exact Finset.sum_congr rfl fun i _ => count_blocks _ r

theorem count_free_add_held (bank : Bank) (ops : List (SystemOp n)) (r : PhysReg) :
    (run bank ops).bank.freeList.count r + (run bank ops).held.count r = bank.freeList.count r := by
  rw [count_held]
  exact (run_ok bank ops).2 r

/-- Free plus held, class by class, is a permutation of the initial free list. -/
theorem perm_free_held (bank : Bank) (ops : List (SystemOp n)) (c : RegClass) :
    ((run bank ops).bank.freeList.regs c ++ (run bank ops).held.filter (·.cls = c)).Perm
      (bank.freeList.regs c) := by
  rw [perm_iff_count]
  intro r
  by_cases hc : r.cls = c
  · have h := count_free_add_held bank ops r
    subst hc
    rw [count_append, count_filter (by simp)]
    exact h
  · have h1 : r ∉ (run bank ops).bank.freeList.regs c := fun h =>
      hc ((run bank ops).bank.freeList.classed c r h)
    have h2 : r ∉ bank.freeList.regs c := fun h => hc (bank.freeList.classed c r h)
    have h3 : r ∉ (run bank ops).held.filter (·.cls = c) := fun h => by
      simp [hc] at h
    rw [count_append, count_eq_zero.mpr h1, count_eq_zero.mpr h2, count_eq_zero.mpr h3]

/-- In a list of blocks without duplicates an element is in one block only. -/
theorem block_unique {α β : Type} {l : List α} {f : α → List β} (h : (l.flatMap f).Nodup)
    {a b : α} (ha : a ∈ l) (hb : b ∈ l) {x : β} (hxa : x ∈ f a) (hxb : x ∈ f b) : a = b := by
  by_contra hab
  have hsymm : Std.Symm (onFun List.Disjoint f) := ⟨fun _ _ hd => hd.symm⟩
  exact (nodup_flatMap.mp h).2.forall ha hb hab hxa hxb

/-- The guard of `conservationValid`: no direct `markDead` of a name in use. -/
def deadOnly (S : System n) : SystemOp n → Prop
  | .call i op => HelperRegs.deadOnly (S.state i) op
  | .destroy _ => True

theorem inv_of_file {s t : State} (h : Inv s) (hf : t.file = s.file) : Inv t := by
  refine ⟨blank_of_file h.blank hf, ?_, ?_, ?_, ?_⟩ <;> rw [hf]
  · exact h.marked
  · exact h.used
  · exact h.owner
  · exact h.live

theorem step_inv {S : System n} (h : ∀ i, Inv (S.state i)) {e : SystemOp n} (he : S.deadOnly e)
    (i : Fin n) : Inv ((S.step e).state i) := by
  have hput : ∀ (j : Fin n) (s : State), Inv s → Inv ((S.put j s).state i) := by
    intro j s hs
    by_cases hij : i = j
    · subst hij
      exact inv_of_file hs (update_self ..)
    · exact inv_of_file (h i) (update_of_ne hij ..)
  cases e with
  | call j op => exact hput j _ ((h j).step he)
  | destroy j => exact hput j _ (inv_blank rfl)

/-- SHARED NAMES ARE CONSERVED.  Over every sequence of calls and destructions on `n` files:
    the free list and the borrowed names together are the initial free list; a borrowed name belongs
    to one allocated entry; and, as long as `markDead` is called directly only for names that no
    mapping uses, `conservationValid` holds of every file. -/
theorem names_conserved (bank : Bank) (ops : List (SystemOp n)) :
    (∀ c, ((run bank ops).bank.freeList.regs c ++ (run bank ops).held.filter (·.cls = c)).Perm
      (bank.freeList.regs c)) ∧
    (∀ i p r, r ∈ (((run bank ops).files i).physical p).names →
      ((run bank ops).files i).allocated p = true) ∧
    ((∀ c, (bank.freeList.regs c).Nodup) →
      (∀ r, (run bank ops).bank.freeList.count r + (run bank ops).held.count r ≤ 1) ∧
      ∀ i j p q r, r ∈ (((run bank ops).files i).physical p).names →
        r ∈ (((run bank ops).files j).physical q).names → i = j ∧ p = q) ∧
    (Trace.Admits deadOnly step (start n bank) ops →
      ∀ i, conservationValid ((run bank ops).files i) = true) := by
  refine ⟨perm_free_held bank ops, fun i p r hr => ?_, fun hnd => ?_, fun hadm i => ?_⟩
  · by_contra ha
    have hnil := ((run_ok bank ops).1 i).2.names (p := p) (by simpa [state] using ha)
    rw [show (((run bank ops).files i).physical p).names = [] from hnil] at hr
    cases hr
  · have hle : ∀ r, (run bank ops).bank.freeList.count r + (run bank ops).held.count r ≤ 1 :=
      fun r => by
        rw [count_free_add_held]
        exact nodup_iff_count_le_one.mp (hnd r.cls) r
    have hheld : (run bank ops).held.Nodup := nodup_iff_count_le_one.mpr fun r => by
      have := hle r
      omega
    refine ⟨hle, fun i j p q r hi hj => ?_⟩
    have hij : i = j := block_unique hheld (mem_finRange i) (mem_finRange j)
      (mem_flatMap.mpr ⟨p, mem_finRange p, hi⟩)
      (mem_flatMap.mpr ⟨q, mem_finRange q, hj⟩)
    subst hij
    exact ⟨rfl, block_unique ((nodup_flatMap.mp hheld).1 i (mem_finRange i))
      (mem_finRange p) (mem_finRange q) hi hj⟩
  · have hinv : ∀ i, Inv ((run bank ops).state i) :=
      hadm.invariant (fun S : System n => ∀ i, Inv (S.state i)) (fun S e h he => step_inv h he)
        (fun i => inv_blank rfl)
    exact (hinv i).conservationValid

end System

/-! ## A name in use marked dead -/

/-- `initialize` and then `markDead` of the entry register 0 is mapped to. -/
theorem conservationValid_markDead_mapped (s : State) (hb : s.Blank) (regs : Arch → RegVal) :
    conservationValid (((s.initializeRegs regs).markDead (some (entryOf 0))).file) = false := by
  obtain ⟨h, -, -⟩ := initialized hb regs
  obtain ⟨id, hf⟩ := h.fresh (entryOf 0) (by decide)
  have husers := freshScalar_users hf
  have hdead : (s.initializeRegs regs).markDead (some (entryOf 0))
      = (s.initializeRegs regs).reclaim (entryOf 0) := by
    simp only [State.markDead, husers, ne_eq, not_true_eq_false, if_false]
  rw [hdead]
  by_contra hne
  have hval : conservationValid ((s.initializeRegs regs).reclaim (entryOf 0)).file = true := by
    simpa using hne
  unfold State.conservationValid at hval
  have hmap := (Bool.and_eq_true_iff.mp hval).2
  have h0 := all_eq_true.mp hmap (0 : Arch) (mem_finRange 0)
  have hlane := all_eq_true.mp (Bool.and_eq_true_iff.mp h0).1 (0 : Lane) (mem_finRange 0)
  rw [reclaim_vrat, h.done 0 (by decide)] at hlane
  simp [initialMapping] at hlane

theorem System.files_call {n : Nat} (S : System n) (i : Fin n) (op : Op) :
    (S.step (.call i op)).files i = (HelperRegs.step (S.state i) op).file :=
  update_self ..

theorem System.state_call {n : Nat} (S : System n) (i : Fin n) (op : Op) :
    (S.step (.call i op)).state i = HelperRegs.step (S.state i) op :=
  congrArg (State.mk · _) (S.files_call i op)

theorem step_markDead (s : State) (phys : Option Phys) : step s (.markDead phys) = s.markDead phys :=
  rfl

theorem step_initializeRegs (s : State) (regs : Arch → RegVal) :
    step s (.initializeRegs regs) = s.initializeRegs regs := rfl

/-- The bank of a simulated CPU whose free lists are empty. -/
def emptyBank : Bank where
  freeList := .empty
  regFile := fun _ => 0

/-- A bank with two integer names. -/
def twoNames : Bank where
  freeList :=
    { regs := fun c => if c = .Int then [⟨.Int, 0⟩, ⟨.Int, 1⟩] else []
      classed := fun c r hr => by
        split at hr
        next hc => rcases mem_pair.mp hr with rfl | rfl <;> exact hc.symm
        next => exact absurd hr not_mem_nil }
  regFile := fun _ => 0

/-- Two files borrow a name each, and one of them is destroyed. -/
def borrowAndDestroy : List (SystemOp 2) :=
  let first : Fin 2 := ⟨0, Nat.two_pos⟩
  let second : Fin 2 := ⟨1, Nat.one_lt_two⟩
  [.call first .allocateScalar, .call second .allocateScalar,
    .call second (.retainPhysical (some 0)), .destroy first]

/-- The name of the destroyed file is free again, the other one is still borrowed. -/
theorem names_conserved_destroy :
    let S := System.run twoNames borrowAndDestroy
    S.bank.freeList.regs .Int = [⟨.Int, 0⟩] ∧ ((S.files 1).physical 0).names = [⟨.Int, 1⟩] ∧
      (S.bank.freeList.regs .Int ++ S.held.filter (·.cls = .Int)).Perm [⟨.Int, 0⟩, ⟨.Int, 1⟩] ∧
      (S.files 1).allocated 0 = true ∧ S.bank.freeList.count ⟨.Int, 1⟩ + S.held.count ⟨.Int, 1⟩ ≤ 1 ∧
      ∀ i, conservationValid (S.files i) = true := by
  obtain ⟨hperm, hallocated, honce, hvalid⟩ := System.names_conserved twoNames borrowAndDestroy
  have hnodup : ∀ c, (twoNames.freeList.regs c).Nodup := by
    intro c
    cases c <;> decide
  exact ⟨by decide +kernel, by decide +kernel, hperm .Int,
    hallocated 1 0 ⟨.Int, 1⟩ (by decide +kernel), (honce hnodup).1 _,
    hvalid ⟨trivial, trivial, trivial, trivial, trivial⟩⟩

/-- `conservationValid` does not survive every sequence of calls: it fails when `markDead` is called
    for a name in use. -/
theorem conservationValid_not_invariant :
    ¬ (∀ (n : Nat) (bank : Bank) (ops : List (SystemOp n)) (i : Fin n),
        conservationValid ((System.run bank ops).files i) = true) := by
  intro h
  have hrun := h 1 emptyBank [.call 0 (.initializeRegs fun _ => 0),
    .call 0 (.markDead (some (entryOf 0)))] 0
  have hfalse := conservationValid_markDead_mapped ((System.start 1 emptyBank).state 0)
    (fun _ _ => rfl) (fun _ => 0)
  have heq : (System.run emptyBank [.call (0 : Fin 1) (.initializeRegs fun _ => 0),
      .call 0 (.markDead (some (entryOf 0)))]).files 0
      = ((((System.start 1 emptyBank).state 0).initializeRegs fun _ => 0).markDead
          (some (entryOf 0))).file := by
    rw [System.run, foldl_cons, foldl_cons, foldl_nil, System.files_call,
      System.state_call, step_markDead, step_initializeRegs]
  rw [heq, hfalse] at hrun
  cases hrun

end Gem5Dvr.HelperRegs
