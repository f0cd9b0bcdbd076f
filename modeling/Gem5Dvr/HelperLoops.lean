/-
  The lane loops of the helper register file.

  The loops of `vectorize`, `renameVectorMasked` and `renameScalarMasked` read a lane, write the
  value to a freshly taken entry and (for an active lane) move the lane's mapping there, in ONE pass:
  later iterations run on a half-updated file.  What makes them correct is that the entries written
  are not among the entries read, so each iteration still reads what it would have read at the
  start.  `RenameLoop` is the invariant of the two masked loops, `VectorizeLoop` of the third.

  `SameBooks` is the frame shared by everything that only moves values: allocation, names, users and
  pending releases are untouched.
-/
import Gem5Dvr.HelperAlloc

namespace Gem5Dvr.HelperRegs

open List Function

open State

/-! ## Frames: operations that only move values -/

/-- `t` has the allocation, the names and the bookkeeping of `s`. -/
structure SameBooks (s t : State) : Prop where
  shared : t.file.shared = s.file.shared
  allocated : t.file.allocated = s.file.allocated
  freeList : t.bank.freeList = s.bank.freeList
  book : ∀ p, (t.file.physical p).book = (s.file.physical p).book

namespace SameBooks

variable {s t u : State}

theorem refl (s : State) : SameBooks s s := ⟨rfl, rfl, rfl, fun _ => rfl⟩

theorem trans (h : SameBooks s t) (h' : SameBooks t u) : SameBooks s u :=
  ⟨h'.shared.trans h.shared, h'.allocated.trans h.allocated, h'.freeList.trans h.freeList,
    fun p => (h'.book p).trans (h.book p)⟩

theorem blank (h : SameBooks s t) (hb : s.Blank) : t.Blank := by
  intro p hp
  rw [h.book]
  exact hb p (h.allocated ▸ hp)

theorem total (h : SameBooks s t) (r : PhysReg) : t.total r = s.total r := by
  have hn : ∀ p, (t.file.physical p).names = (s.file.physical p).names := fun p => by
    rw [← names_book, h.book, names_book]
  simp only [State.total, h.freeList, hn]

theorem users (h : SameBooks s t) (p : Phys) :
    (t.file.physical p).users = (s.file.physical p).users :=
  show (t.file.physical p).book.users = (s.file.physical p).book.users from by rw [h.book]

theorem pendingRelease (h : SameBooks s t) (p : Phys) :
    (t.file.physical p).pendingRelease = (s.file.physical p).pendingRelease :=
  show (t.file.physical p).book.pendingRelease = (s.file.physical p).book.pendingRelease from by rw [h.book]

theorem marked (h : SameBooks s t) (p : Phys) :
    (t.file.physical p).allocated = (s.file.physical p).allocated :=
  show (t.file.physical p).book.allocated = (s.file.physical p).book.allocated from by rw [h.book]

end SameBooks

variable {s t : State} {p q : Phys} {lane : Lane} {arch : Arch}

theorem sameBooks_setEntry {e : PhysicalRegister} (h : e.book = (s.file.physical p).book) :
    SameBooks s (s.setEntry p e) := by
  refine ⟨rfl, rfl, rfl, fun q => ?_⟩
  by_cases hq : q = p
  · subst hq; simpa using h
  · simp [hq]

theorem sameBooks_setMapping (arch : Arch) (m : Mapping) : SameBooks s (s.setMapping arch m) :=
  ⟨rfl, rfl, rfl, fun _ => rfl⟩

theorem sameBooks_regFile (f : PhysReg → RegVal) :
    SameBooks s { s with bank := { s.bank with regFile := f } } :=
  ⟨rfl, rfl, rfl, fun _ => rfl⟩

theorem sameBooks_setReady (tick : Nat) : SameBooks s (s.setReady p lane tick) :=
  sameBooks_setEntry rfl

theorem sameBooks_writePhysical (phys : Option Phys) (lane : Lane) (v : RegVal) :
    SameBooks s (s.writePhysical phys lane v) := by
  cases phys with
  | none => exact .refl s
  | some p =>
    simp only [writePhysical]
    split_ifs
    · exact .refl s
    · split
      · exact (sameBooks_regFile _).trans (sameBooks_setEntry rfl)
      · exact sameBooks_setEntry rfl
    · exact sameBooks_setEntry rfl

@[simp] theorem writePhysical_vrat (phys : Option Phys) (lane : Lane) (v : RegVal) :
    (s.writePhysical phys lane v).file.vrat = s.file.vrat := by
  cases phys with
  | none => rfl
  | some p =>
    simp only [writePhysical]
    split_ifs
    · rfl
    · split <;> rfl
    · rfl

@[simp] theorem setReady_vrat (tick : Nat) : (s.setReady p lane tick).file.vrat = s.file.vrat := rfl

theorem writePhysical_of_ne (lane : Lane) (v : RegVal) (h : q ≠ p) :
    (s.writePhysical (some p) lane v).file.physical q = s.file.physical q := by
  simp only [writePhysical]
  split_ifs
  · rfl
  · split <;> simp [h]
  · simp [h]

theorem setReady_of_ne (tick : Nat) (h : q ≠ p) :
    (s.setReady p lane tick).file.physical q = s.file.physical q := by
  simp [setReady, h]

@[simp] theorem setReady_values (tick : Nat) (q : Phys) :
    ((s.setReady p lane tick).file.physical q).values = (s.file.physical q).values := by
  by_cases h : q = p
  · subst h; simp [setReady]
  · rw [setReady_of_ne tick h]

/-- An allocated entry takes the value. -/
theorem writePhysical_values (ha : s.file.allocated p = true) (lane : Lane) (v : RegVal) :
    ((s.writePhysical (some p) lane v).file.physical p).values
      = update (s.file.physical p).values lane v := by
  simp only [writePhysical, ha, Bool.true_eq_false, if_false]
  split_ifs
  · split <;> simp
  · simp

/-- With the private bank a read is the value in the entry. -/
theorem readPhysical_private (hs : s.file.shared = false) (ha : s.file.allocated p = true)
    (lane : Lane) : s.readPhysical (some p) lane = (s.file.physical p).values lane := by
  simp [readPhysical, ha, hs]

/-! ## The lane loops -/

theorem lane_eq {a b : Lane} (hc : copyOf a = copyOf b) (he : elementOf a = elementOf b) :
    a = b := by
  have h1 : a.val / 8 = b.val / 8 := congrArg Fin.val hc
  have h2 : a.val % 8 = b.val % 8 := congrArg Fin.val he
  apply Fin.ext
  omega

/-- Writing lane `a` of a bundle leaves the elements of the other lanes alone. -/
theorem write_bundle_values {bundle : Copy → Phys} (hinj : Injective bundle)
    (hal : ∀ c, s.file.allocated (bundle c) = true) (a b : Lane) (v : RegVal) (tick : Nat) :
    (((s.writePhysical (some (bundle (copyOf a))) (elementOf a) v).setReady (bundle (copyOf a))
        (elementOf a) tick).file.physical (bundle (copyOf b))).values (elementOf b)
      = if b = a then v else (s.file.physical (bundle (copyOf b))).values (elementOf b) := by
  rw [setReady_values]
  by_cases hc : copyOf b = copyOf a
  · rw [hc, writePhysical_values (hal _)]
    by_cases he : elementOf b = elementOf a
    · rw [he, update_self, if_pos (lane_eq hc he)]
    · have hba : b ≠ a := fun h => he (h ▸ rfl)
      rw [update_of_ne he, if_neg hba]
  · have hba : b ≠ a := fun h => hc (h ▸ rfl)
    rw [writePhysical_of_ne _ _ (fun h => hc (hinj h)), if_neg hba]

/-- A private read only depends on the entry it reads. -/
theorem readPhysical_congr (hs : s.file.shared = false) (ht : t.file.shared = false)
    {phys : Option Phys} (hal : ∀ q, phys = some q → t.file.allocated q = s.file.allocated q)
    (hph : ∀ q, phys = some q → t.file.physical q = s.file.physical q) (lane : Lane) :
    t.readPhysical phys lane = s.readPhysical phys lane := by
  cases phys with
  | none => rfl
  | some q => simp [readPhysical, hs, ht, hal q rfl, hph q rfl]

/-- What the copy loop of `vectorize` leaves behind after the lanes `pre`. -/
structure VectorizeLoop (bundle : Copy → Phys) (old_scalar : Option Phys) (s : State)
    (pre : List Lane) (t : State) : Prop where
  books : SameBooks s t
  vrat : t.file.vrat = s.file.vrat
  kept : ∀ q, (∀ c, bundle c ≠ q) → t.file.physical q = s.file.physical q
  copied : s.file.shared = false → ∀ l ∈ pre,
    (t.file.physical (bundle (copyOf l))).values (elementOf l)
      = if old_scalar.isSome then s.readPhysical old_scalar l else 0

theorem vectorizeLoop {bundle : Copy → Phys} {old_scalar : Option Phys}
    (hinj : Injective bundle) (hal : ∀ c, s.file.allocated (bundle c) = true)
    (hold : ∀ q, old_scalar = some q → ∀ c, bundle c ≠ q) :
    VectorizeLoop bundle old_scalar s (finRange 128)
      ((finRange 128).foldl (vectorizeLane bundle old_scalar) s) := by
  refine Fold.foldl_prefix (P := VectorizeLoop bundle old_scalar s)
    ⟨.refl s, rfl, fun _ _ => rfl, by simp⟩ ?_ (nodup_finRange 128)
  intro pre a t ha h
  refine ⟨h.books.trans ((sameBooks_writePhysical _ _ _).trans (sameBooks_setReady _)), ?_,
    fun q hq => ?_, fun hs l hl => ?_⟩
  · unfold vectorizeLane
    rw [setReady_vrat, writePhysical_vrat, h.vrat]
  · have hne : q ≠ bundle (copyOf a) := fun h => hq _ h.symm
    unfold vectorizeLane
    rw [setReady_of_ne _ hne, writePhysical_of_ne _ _ hne, h.kept q hq]
  · have hal' : ∀ c, t.file.allocated (bundle c) = true := fun c => by rw [h.books.allocated, hal]
    unfold vectorizeLane
    rw [write_bundle_values hinj hal']
    have hread : t.readPhysical old_scalar a = s.readPhysical old_scalar a :=
      readPhysical_congr hs (h.books.shared.trans hs) (fun q _ => by rw [h.books.allocated])
        (fun q hq => h.kept q (hold q hq)) a
    rcases mem_append.mp hl with hl | hl
    · have hne : l ≠ a := fun h => ha (h ▸ hl)
      rw [if_neg hne, h.copied hs l hl]
    · rw [if_pos (mem_singleton.mp hl), mem_singleton.mp hl, hread]

/-- A mapping with the active lanes among `pre` moved to the names `phys`. -/
def moveLanes (m : Mapping) (active_mask : LaneMask) (phys : Lane → Phys) (element : Lane → Lane)
    (vec : Bool) (pre : List Lane) : Mapping :=
  { m with
    lanePhysical := fun l =>
      if l ∈ pre ∧ laneActive active_mask l then some (phys l) else m.lanePhysical l
    laneElement := fun l =>
      if l ∈ pre ∧ laneActive active_mask l then element l else m.laneElement l
    laneVectorized := fun l =>
      if l ∈ pre ∧ laneActive active_mask l then vec else m.laneVectorized l }

section MoveLanes

variable {m : Mapping} {active_mask : LaneMask} {phys : Lane → Phys} {element store : Lane → Lane}
  {vec : Bool} {pre : List Lane}

theorem moveLanes_nil : moveLanes m active_mask phys element vec [] = m := by
  simp [moveLanes]

theorem moveLanes_append_active {a : Lane} (hm : laneActive active_mask a = true) :
    moveLanes m active_mask phys element vec (pre ++ [a]) =
      { moveLanes m active_mask phys element vec pre with
        lanePhysical := update
          (moveLanes m active_mask phys element vec pre).lanePhysical a (some (phys a))
        laneElement := update
          (moveLanes m active_mask phys element vec pre).laneElement a (element a)
        laneVectorized := update
          (moveLanes m active_mask phys element vec pre).laneVectorized a vec } := by
  have hif : ∀ {β : Type} (f g : Lane → β),
      (fun l => if l ∈ pre ++ [a] ∧ laneActive active_mask l then f l else g l)
        = update (fun l => if l ∈ pre ∧ laneActive active_mask l then f l else g l) a (f a) := by
    intro β f g
    funext l
    by_cases hl : l = a
    · subst hl; simp [hm]
    · simp [hl]
  simp only [moveLanes, hif (fun l => some (phys l)), hif element, hif (fun _ => vec)]

theorem moveLanes_append_idle {a : Lane} (hm : laneActive active_mask a = false) :
    moveLanes m active_mask phys element vec (pre ++ [a])
      = moveLanes m active_mask phys element vec pre := by
  have hno : ∀ l, (l ∈ pre ++ [a] ∧ laneActive active_mask l = true ↔
      l ∈ pre ∧ laneActive active_mask l = true) := by
    intro l
    by_cases hl : l = a
    · subst hl; simp [hm]
    · simp [hl]
  simp only [moveLanes, hno]

/-- What a masked rename loop leaves behind after the lanes `pre`: lane `l` is copied to element
    `store l` of the entry `phys l`. -/
structure RenameLoop (arch : Arch) (active_mask : LaneMask) (phys : Lane → Phys)
    (element store : Lane → Lane) (vec : Bool) (s : State) (pre : List Lane) (t : State) :
    Prop where
  books : SameBooks s t
  vrat : t.file.vrat = update s.file.vrat arch
    (moveLanes (s.file.vrat arch) active_mask phys element vec pre)
  kept : ∀ q, (∀ l, phys l ≠ q) → t.file.physical q = s.file.physical q
  copied : s.file.shared = false → ∀ l ∈ pre, laneActive active_mask l = true →
    (t.file.physical (phys l)).values (store l) = s.read arch l

/-- Away from the lanes done, the loop reads what it would have read at the start. -/
theorem RenameLoop.read (h : RenameLoop arch active_mask phys element store vec s pre t)
    (hs : s.file.shared = false) {a : Lane} (ha : a ∉ pre)
    (hsrc : ∀ q, s.physicalIndex arch a = some q → ∀ l, phys l ≠ q) :
    t.read arch a = s.read arch a := by
  have hidx : t.physicalIndex arch a = s.physicalIndex arch a := by
    simp [physicalIndex, h.vrat, moveLanes, ha]
  have hlane : t.physicalLane arch a = s.physicalLane arch a := by
    simp [physicalLane, h.vrat, moveLanes, ha]
  simp only [State.read, hidx, hlane]
  exact readPhysical_congr hs (h.books.shared.trans hs) (fun q _ => by rw [h.books.allocated])
    (fun q hq => h.kept q (hsrc q hq)) _

end MoveLanes

theorem renameVectorLoop (active_mask : LaneMask) {bundle : Copy → Phys}
    (hinj : Injective bundle) (hal : ∀ c, s.file.allocated (bundle c) = true)
    (hsrc : ∀ l q, s.physicalIndex arch l = some q → ∀ c, bundle c ≠ q) :
    RenameLoop arch active_mask (fun l => bundle (copyOf l)) elementOf elementOf true s
      (finRange 128)
      ((finRange 128).foldl (renameVectorLane arch active_mask bundle) s) := by
  refine Fold.foldl_prefix
    (P := RenameLoop arch active_mask (fun l => bundle (copyOf l)) elementOf elementOf true s)
    ⟨.refl s, by simp [moveLanes_nil], fun _ _ => rfl, by simp⟩ ?_ (nodup_finRange 128)
  intro pre a t ha h
  -- the part of the iteration before the mapping is touched
  let u := (t.writePhysical (some (bundle (copyOf a))) (elementOf a) (t.read arch a)).setReady
    (bundle (copyOf a)) (elementOf a) (t.readyAt arch a)
  have hu : SameBooks t u := (sameBooks_writePhysical _ _ _).trans (sameBooks_setReady _)
  have huv : u.file.vrat = t.file.vrat := by rw [setReady_vrat, writePhysical_vrat]
  have hphys : (renameVectorLane arch active_mask bundle t a).file.physical = u.file.physical := by
    simp only [renameVectorLane]
    split_ifs <;> rfl
  refine ⟨?_, ?_, fun q hq => ?_, fun hs l hl hact => ?_⟩
  · refine h.books.trans (hu.trans ?_)
    simp only [renameVectorLane]
    split_ifs
    · exact sameBooks_setMapping _ _
    · exact .refl _
  · simp only [renameVectorLane]
    by_cases hm : laneActive active_mask a = true
    · rw [if_pos hm, moveLanes_append_active hm]
      simp only [setMapping, setReady_vrat, writePhysical_vrat, h.vrat, update_self, update_idem]
    · rw [if_neg hm, moveLanes_append_idle (by simpa using hm)]
      exact huv.trans h.vrat
  · have hne : q ≠ bundle (copyOf a) := fun h => hq _ h.symm
    rw [hphys, setReady_of_ne _ hne, writePhysical_of_ne _ _ hne, h.kept q hq]
  · have hal' : ∀ c, t.file.allocated (bundle c) = true := fun c => by rw [h.books.allocated, hal]
    rw [hphys, write_bundle_values hinj hal']
    rcases mem_append.mp hl with hl | hl
    · have hne : l ≠ a := fun h => ha (h ▸ hl)
      rw [if_neg hne, h.copied hs l hl hact]
    · rw [if_pos (mem_singleton.mp hl), mem_singleton.mp hl,
        h.read hs ha (fun q hq l => hsrc a q hq _)]

theorem renameScalarLoop (active_mask : LaneMask) (hal : s.file.allocated p = true)
    (hsrc : ∀ l q, s.physicalIndex arch l = some q → p ≠ q) :
    RenameLoop arch active_mask (fun _ => p) (fun _ => 0) id false s (finRange 128)
      ((finRange 128).foldl (renameScalarLane arch active_mask p) s) := by
  refine Fold.foldl_prefix (P := RenameLoop arch active_mask (fun _ => p) (fun _ => 0) id false s)
    ⟨.refl s, by simp [moveLanes_nil], fun _ _ => rfl, by simp⟩ ?_ (nodup_finRange 128)
  intro pre a t ha h
  by_cases hm : laneActive active_mask a = true
  · let w := t.writePhysical (some p) a (t.read arch a)
    let u := w.setReady p a (w.readyAt arch a)
    have hu : SameBooks t u := (sameBooks_writePhysical _ _ _).trans (sameBooks_setReady _)
    have hphys : (renameScalarLane arch active_mask p t a).file.physical = u.file.physical := by
      simp only [renameScalarLane, hm, if_true]
      rfl
    refine ⟨?_, ?_, fun q hq => ?_, fun hs l hl hact => ?_⟩
    · refine h.books.trans (hu.trans ?_)
      simp only [renameScalarLane, hm, if_true]
      exact sameBooks_setMapping _ _
    · rw [moveLanes_append_active hm]
      simp only [renameScalarLane, hm, if_true, setMapping, setReady_vrat, writePhysical_vrat,
        h.vrat, update_self, update_idem]
    · have hne : q ≠ p := fun h => hq a h.symm
      rw [hphys, setReady_of_ne _ hne, writePhysical_of_ne _ _ hne, h.kept q hq]
    · have hal' : t.file.allocated p = true := by rw [h.books.allocated, hal]
      rw [hphys, setReady_values, writePhysical_values hal']
      rcases mem_append.mp hl with hl | hl
      · have hne : l ≠ a := fun h => ha (h ▸ hl)
        rw [id, update_of_ne hne]
        exact h.copied hs l hl hact
      · rw [mem_singleton.mp hl, id, update_self, h.read hs ha (fun q hq l => hsrc a q hq)]
  · have hid : renameScalarLane arch active_mask p t a = t := by
      simp [renameScalarLane, hm]
    rw [hid]
    refine ⟨h.books, ?_, h.kept, fun hs l hl hact => ?_⟩
    · rw [moveLanes_append_idle (by simpa using hm), h.vrat]
    · rcases mem_append.mp hl with hl | hl
      · exact h.copied hs l hl hact
      · rw [mem_singleton.mp hl] at hact
        exact absurd hact hm

end Gem5Dvr.HelperRegs
