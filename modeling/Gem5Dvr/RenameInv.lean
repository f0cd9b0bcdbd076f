/-
  Where is each physical register?

  Outside PRE a register is in exactly one PLACE: on the free list, in the rename map, the previous
  register of a history entry that changed the mapping, or borrowed by a helper entry.  `places`
  counts them; `Outside` says that the count is one for the registers that exist, and that undoing
  the history entries, newest first, always finds the mapping it is about to undo (`Unwinds`).

  Inside PRE (`Inside`) the same holds of the CHECKPOINT, with the names the helpers held when PRE was
  entered.  The live rename map and free list satisfy something weaker, `PreInv`: no register is in
  two of free, held and mapped.  What keeps it that way is, without early recycling, that a register
  waiting in the PRDQ is in none of the three; with it, that a register with a reference outstanding
  is neither free nor held and has a reference count to match.
-/
import Gem5Dvr.Rename
import Mathlib.Algebra.Order.BigOperators.Group.Finset

namespace Gem5Dvr.Rename

open List Function

open State

variable {numRegs : RegClass → Nat} {n : Nat} {s t : State numRegs n} {r q : PhysReg}

/-! ## Counting -/

/-- How many architectural registers are mapped to a physical one. -/
def mapCount (m : RegId numRegs → PhysReg) (r : PhysReg) : Nat := ∑ a, if m a = r then 1 else 0

/-- The previous registers of the entries with a changed mapping. -/
def changedPrev (h : List (RenameHistory numRegs)) : List PhysReg :=
  (h.filter fun hb_it => hb_it.newPhysReg ≠ hb_it.prevPhysReg).map (·.prevPhysReg)

/-- The names borrowed by the helper files. -/
def State.held (s : State numRegs n) (r : PhysReg) : Nat := s.helpers.held.count r

/-- The places a register is in. -/
def State.places (s : State numRegs n) (r : PhysReg) : Nat :=
  s.freeList.count r + s.held r + mapCount s.renameMap r + (changedPrev s.historyBuffer).count r

theorem mapCount_update (m : RegId numRegs → PhysReg) (a : RegId numRegs) (v r : PhysReg) :
    mapCount (update m a v) r + (if m a = r then 1 else 0)
      = mapCount m r + if v = r then 1 else 0 :=
  Fold.sum_update m (fun q => if q = r then 1 else 0) a v

theorem mapCount_pos (m : RegId numRegs → PhysReg) (a : RegId numRegs) : 0 < mapCount m (m a) := by
  have hle := Finset.single_le_sum (f := fun b => if m b = m a then 1 else 0)
    (fun b _ => Nat.zero_le _) (Finset.mem_univ a)
  simp only [if_true] at hle
  exact hle

theorem exists_of_mapCount_pos {m : RegId numRegs → PhysReg} (h : 0 < mapCount m r) :
    ∃ a, m a = r := by
  by_contra hne
  have hz : mapCount m r = 0 := Finset.sum_eq_zero fun a _ => if_neg fun ha => hne ⟨a, ha⟩
  omega

theorem count_one (r q : PhysReg) : [r].count q = if r = q then 1 else 0 := by
  rw [count_singleton]
  simp [beq_iff_eq]

@[simp] theorem addReg_count (s : State numRegs n) (r q : PhysReg) :
    (s.addReg r).freeList.count q = s.freeList.count q + if r = q then 1 else 0 := by
  rw [← count_one]
  exact FreeList.count_addReg _ _ _

/-- Taking a register: it was on the list, and is mapped now. -/
theorem getReg_count {f g : FreeList} {type : RegClass} (h : f.getReg type = some (r, g))
    (q : PhysReg) : f.count q = g.count q + if r = q then 1 else 0 := by
  rw [FreeList.count_getReg h q, count_one]

/-! ## Outside PRE -/

/-- Undoing the history, newest entry first, finds each mapping as it was made. -/
def Unwinds (m : RegId numRegs → PhysReg) : List (RenameHistory numRegs) → Prop
  | [] => True
  | hb_it :: rest => m hb_it.archReg = hb_it.newPhysReg ∧
      Unwinds (update m hb_it.archReg hb_it.prevPhysReg) rest

theorem Unwinds.append_left {m : RegId numRegs → PhysReg} {h h' : List (RenameHistory numRegs)}
    (hu : Unwinds m (h ++ h')) : Unwinds m h := by
  induction h generalizing m with
  | nil => trivial
  | cons e h ih => exact ⟨hu.1, ih hu.2⟩

/-- Every register that exists is in one place; `cap` is 1 for those. -/
structure Outside (cap : PhysReg → Nat) (s : State numRegs n) : Prop where
  out : s.inPRE = false
  ok : s.helpers.Ok
  places : ∀ r, s.places r = cap r
  unwinds : Unwinds s.renameMap s.historyBuffer
  cleared : ∀ c, s.checkpointFreeList.regs c = []

variable {cap : PhysReg → Nat}

theorem changedPrev_cons (e : RenameHistory numRegs) (h : List (RenameHistory numRegs)) (r : PhysReg) :
    (changedPrev (e :: h)).count r = (changedPrev h).count r +
      if e.newPhysReg ≠ e.prevPhysReg ∧ e.prevPhysReg = r then 1 else 0 := by
  unfold changedPrev
  by_cases hne : e.newPhysReg = e.prevPhysReg
  · rw [filter_cons_of_neg (by simp [hne])]
    simp [hne]
  · rw [filter_cons_of_pos (by simp [hne]), map_cons, count_cons]
    simp [hne, beq_iff_eq]

theorem changedPrev_append (h h' : List (RenameHistory numRegs)) :
    changedPrev (h ++ h') = changedPrev h ++ changedPrev h' := by
  simp [changedPrev]

/-- One entry of `doSquash`. -/
theorem Outside.undoEntry {e : RenameHistory numRegs} {rest : List (RenameHistory numRegs)}
    (h : Outside cap s) (hh : s.historyBuffer = e :: rest) :
    Outside cap { s.undoEntry e with historyBuffer := rest } := by
  have hu := h.unwinds
  rw [hh] at hu
  obtain ⟨hnew, hrest⟩ := hu
  unfold State.undoEntry
  split_ifs with hne
  · refine ⟨h.out, h.ok, fun r => ?_, hrest, h.cleared⟩
    have hp := h.places r
    have hm := mapCount_update s.renameMap e.archReg e.prevPhysReg r
    have hc := changedPrev_cons e rest r
    rw [State.places, hh, hc] at hp
    rw [hnew] at hm
    have hfree := addReg_count (s.setEntry e.archReg e.prevPhysReg) e.newPhysReg r
    simp only [hne, ne_eq, not_false_eq_true, true_and] at hp
    change ((s.setEntry e.archReg e.prevPhysReg).addReg e.newPhysReg).freeList.count r + s.held r +
      mapCount (update s.renameMap e.archReg e.prevPhysReg) r + (changedPrev rest).count r = cap r
    rw [hfree]
    change s.freeList.count r + _ + s.held r + _ + _ = cap r
    omega
  · have heq : e.newPhysReg = e.prevPhysReg := by simpa using hne
    refine ⟨h.out, h.ok, fun r => ?_, ?_, h.cleared⟩
    · have hp := h.places r
      rw [State.places, hh, changedPrev_cons] at hp
      simp only [heq, ne_eq, not_true_eq_false, false_and, if_false, Nat.add_zero] at hp
      exact hp
    · have hself : update s.renameMap e.archReg e.prevPhysReg = s.renameMap := by
        rw [← heq, ← hnew, update_eq_self]
      rw [hself] at hrest
      exact hrest

/-- The history loop reads the list it is given, not the field. -/
theorem undoLoop_history (squashed_seq_num : Nat) (l h : List (RenameHistory numRegs))
    (s : State numRegs n) :
    State.undoLoop squashed_seq_num l { s with historyBuffer := h }
      = State.undoLoop squashed_seq_num l s := by
  induction l generalizing s with
  | nil => rfl
  | cons e l ih =>
    have hentry : State.undoEntry { s with historyBuffer := h } e
        = { s.undoEntry e with historyBuffer := h } := by
      unfold State.undoEntry
      split_ifs <;> rfl
    unfold State.undoLoop
    rw [hentry, ih]

theorem setHistory_self {l : List (RenameHistory numRegs)} (hl : s.historyBuffer = l) :
    ({ s with historyBuffer := l } : State numRegs n) = s := by rw [← hl]

/-- The history loop of `doSquash`. -/
theorem Outside.undoLoop (squashed_seq_num : Nat) {l : List (RenameHistory numRegs)}
    (h : Outside cap s) (hl : s.historyBuffer = l) :
    Outside cap (State.undoLoop squashed_seq_num l s) := by
  induction l generalizing s with
  | nil =>
    unfold State.undoLoop
    rw [setHistory_self hl]
    exact h
  | cons e rest ih =>
    unfold State.undoLoop
    split_ifs
    · rw [← undoLoop_history squashed_seq_num rest rest (s.undoEntry e)]
      exact ih (h.undoEntry hl) rfl
    · rw [setHistory_self hl]
      exact h

theorem Outside.doSquash (h : Outside cap s) (squashed_seq_num : Nat) :
    Outside cap (s.doSquash squashed_seq_num) := by
  have hl := h.undoLoop squashed_seq_num rfl
  exact ⟨hl.out, hl.ok, hl.places, hl.unwinds, hl.cleared⟩

/-- The release loop of `removeFromHistory`. -/
theorem foldl_commitEntry (l : List (RenameHistory numRegs)) (s : State numRegs n) :
    ∃ f, l.foldl commitEntry s = s.setFreeList f ∧
      ∀ r, f.count r = s.freeList.count r + (changedPrev l).count r := by
  induction l generalizing s with
  | nil => exact ⟨s.freeList, rfl, fun r => by simp [changedPrev]⟩
  | cons e l ih =>
    obtain ⟨f, hf, hcount⟩ := ih (s.commitEntry e)
    refine ⟨f, ?_, fun r => ?_⟩
    · rw [foldl_cons, hf]
      unfold State.commitEntry
      split_ifs <;> rfl
    · rw [hcount r, changedPrev_cons]
      unfold State.commitEntry
      by_cases hne : e.newPhysReg = e.prevPhysReg
      · simp [hne]
      · simp only [ne_eq, hne, not_false_eq_true, if_true, addReg_count, true_and]
        omega

theorem Outside.removeFromHistory (h : Outside cap s) (inst_seq_num : Nat) :
    Outside cap (s.removeFromHistory inst_seq_num) := by
  unfold State.removeFromHistory
  set p : RenameHistory numRegs → Bool := fun hb_it => hb_it.instSeqNum ≤ inst_seq_num
  obtain ⟨f, hf, hcount⟩ := foldl_commitEntry (s.historyBuffer.reverse.takeWhile p)
    { s with historyBuffer := s.historyBuffer.rdropWhile p }
  rw [hf]
  -- what stays and what is released, oldest entries last
  have hsplit : s.historyBuffer
      = s.historyBuffer.rdropWhile p ++ (s.historyBuffer.reverse.takeWhile p).reverse := by
    rw [rdropWhile, ← reverse_append, takeWhile_append_dropWhile, reverse_reverse]
  have hrev : ∀ r, (changedPrev (s.historyBuffer.reverse.takeWhile p).reverse).count r
      = (changedPrev (s.historyBuffer.reverse.takeWhile p)).count r := fun r => by
    simp [changedPrev, filter_reverse, map_reverse]
  refine ⟨h.out, h.ok, fun r => ?_, ?_, h.cleared⟩
  · have hp := h.places r
    rw [State.places, hsplit, changedPrev_append, count_append, hrev r] at hp
    have hc := hcount r
    change f.count r + s.held r + mapCount s.renameMap r
      + (changedPrev (s.historyBuffer.rdropWhile p)).count r = cap r
    change f.count r = s.freeList.count r + _ at hc
    omega
  · have hu := h.unwinds
    rw [hsplit] at hu
    exact hu.append_left

/-! ## Renaming outside PRE -/

/-- `rename`: a pinned register is kept, otherwise one is taken from the free list. -/
theorem rename_cases {dest : Dest numRegs} {first second : PhysReg}
    (h : s.rename dest = some (first, second, t)) :
    second = s.renameMap dest.reg ∧
    ((first = second ∧ 0 < s.numPinnedWrites second ∧ ∃ k, t = s.setPinned second k) ∨
      (∃ f k, s.freeList.getReg dest.reg.1 = some (first, f) ∧
        t = ((s.setFreeList f).setEntry dest.reg first).setPinned first k)) := by
  unfold State.rename at h
  simp only at h
  split_ifs at h with hpin
  · cases h
    exact ⟨rfl, Or.inl ⟨rfl, hpin, _, rfl⟩⟩
  · split at h
    · cases h
    · rename_i hget
      cases h
      exact ⟨rfl, Or.inr ⟨_, _, hget, rfl⟩⟩

theorem rename_inPRE {dest : Dest numRegs} {first second : PhysReg}
    (h : s.rename dest = some (first, second, t)) : t.inPRE = s.inPRE := by
  obtain ⟨-, ⟨-, -, k, rfl⟩ | ⟨f, k, -, rfl⟩⟩ := rename_cases h <;> rfl

theorem renameDestReg_out (early : Bool) (inst : PreInst) {dest : Dest numRegs}
    {first second : PhysReg} (hout : s.inPRE = false)
    (h : s.rename dest = some (first, second, t)) :
    (renameDestReg early (s, inst) dest).1
      = { t with historyBuffer := ⟨inst.seqNum, dest.reg, first, second⟩ :: t.historyBuffer } := by
  have ht : t.inPRE = false := (rename_inPRE h).trans hout
  unfold State.renameDestReg
  simp only [h]
  rw [if_neg (by simp [ht]), if_neg (by simp [ht])]

theorem Outside.renameDestReg (early : Bool) (hcap : ∀ r, cap r ≤ 1) (h : Outside cap s)
    (inst : PreInst) (dest : Dest numRegs) :
    Outside cap (renameDestReg early (s, inst) dest).1 := by
  cases hren : s.rename dest with
  | none =>
    unfold State.renameDestReg
    simp only [hren]
    exact h
  | some res =>
    obtain ⟨first, second, t⟩ := res
    rw [renameDestReg_out early inst h.out hren]
    obtain ⟨hsecond, ⟨heq, -, k, rfl⟩ | ⟨f, k, hget, rfl⟩⟩ := rename_cases hren
    · -- pinned: an entry that changes nothing
      subst heq
      refine ⟨h.out, h.ok, fun r => ?_, ⟨hsecond.symm, ?_⟩, h.cleared⟩
      · have hp := h.places r
        have hc := changedPrev_cons ⟨inst.seqNum, dest.reg, first, first⟩ s.historyBuffer r
        simp only [ne_eq, not_true_eq_false, false_and, if_false, Nat.add_zero] at hc
        change s.freeList.count r + s.held r + mapCount s.renameMap r
          + (changedPrev (⟨inst.seqNum, dest.reg, first, first⟩ :: s.historyBuffer)).count r = cap r
        rw [hc]
        exact hp
      · have hself : update s.renameMap dest.reg first = s.renameMap := by
          rw [hsecond, update_eq_self]
        change Unwinds (update s.renameMap dest.reg first) s.historyBuffer
        rw [hself]
        exact h.unwinds
    · have hcount := getReg_count hget
      -- the new register was free, the old one is mapped
      have hne : first ≠ second := by
        intro heq
        have hp := h.places first
        have hpos := mapCount_pos s.renameMap dest.reg
        have hf := hcount first
        have hle := hcap first
        rw [← hsecond, ← heq] at hpos
        rw [State.places] at hp
        simp only [if_true] at hf
        omega
      refine ⟨h.out, h.ok, fun r => ?_, ⟨update_self .., ?_⟩, h.cleared⟩
      · have hp := h.places r
        have hm := mapCount_update s.renameMap dest.reg first r
        have hc := changedPrev_cons ⟨inst.seqNum, dest.reg, first, second⟩ s.historyBuffer r
        have hf := hcount r
        rw [← hsecond] at hm
        simp only [ne_eq, hne, not_false_eq_true, true_and] at hc
        rw [State.places] at hp
        change f.count r + s.held r + mapCount (update s.renameMap dest.reg first) r
          + (changedPrev (⟨inst.seqNum, dest.reg, first, second⟩ :: s.historyBuffer)).count r = cap r
        omega
      · change Unwinds (update (update s.renameMap dest.reg first) dest.reg second) s.historyBuffer
        rw [update_idem, hsecond, update_eq_self]
        exact h.unwinds

theorem Outside.renameSrcReg {x : State numRegs n × PreInst} (early : Bool) (h : Outside cap x.1)
    (src : RegId numRegs) : Outside cap (renameSrcReg early x src).1 := by
  cases early with
  | true => exact ⟨h.out, h.ok, h.places, h.unwinds, h.cleared⟩
  | false => exact h

theorem Outside.renameInst (early : Bool) (hcap : ∀ r, cap r ≤ 1) (h : Outside cap s) (seqNum : Nat)
    (srcs : List (RegId numRegs)) (dests : List (Dest numRegs)) :
    Outside cap (s.renameInst early seqNum srcs dests) := by
  unfold State.renameInst
  split_ifs
  · have hsrc : Outside cap (srcs.foldl (State.renameSrcReg early) (s, { seqNum })).1 :=
      List.foldlRecOn (motive := fun x : State numRegs n × PreInst => Outside cap x.1) srcs _ h
        fun _ hx a _ => hx.renameSrcReg early a
    have hdest := List.foldlRecOn (motive := fun x : State numRegs n × PreInst => Outside cap x.1) dests _ hsrc
      fun x hx a _ => hx.renameDestReg early hcap x.2 a
    rw [State.insertInst, if_neg (by rw [hdest.out]; exact Bool.false_ne_true)]
    exact hdest
  · exact h

/-! ## Inside PRE -/

/-- The registers an instruction refers to until it completes. -/
def PreInst.refs (inst : PreInst) : List PhysReg := inst.srcs ++ inst.dests

/-- The live rename map and free list of PRE, with `refs` outstanding and `prevs` in the PRDQ. -/
structure PreInv (early : Bool) (s : State numRegs n) (refs prevs : List PhysReg) : Prop where
  excl : ∀ r, s.freeList.count r + s.held r + mapCount s.renameMap r ≤ 1
  waiting : early = false → ∀ r, s.usableForPRE r = true →
    s.freeList.count r + s.held r + mapCount s.renameMap r + prevs.count r ≤ 1
  busy : early = true → ∀ r, s.usableForPRE r = true → r ∈ refs → s.freeList.count r + s.held r = 0
  mapped : early = true → ∀ r, s.usableForPRE r = true → 0 < mapCount s.renameMap r →
    s.overwritten r = false
  counted : early = true → ∀ r, s.usableForPRE r = true →
    r ∈ refs ∨ 0 < mapCount s.renameMap r → (refs.count r : Int) ≤ s.numRef r

variable {early : Bool} {refs prevs : List PhysReg} {inst : PreInst}

/-- The order in which references are listed does not matter. -/
theorem PreInv.perm {refs' prevs' : List PhysReg} (h : PreInv early s refs prevs)
    (hr : refs.Perm refs') (hp : prevs.Perm prevs') : PreInv early s refs' prevs' := by
  refine ⟨h.excl, fun he r hu => ?_, fun he r hu hm => h.busy he r hu (hr.mem_iff.mpr hm), h.mapped,
    fun he r hu hm => ?_⟩
  · rw [← hp.count_eq]
    exact h.waiting he r hu
  · rw [← hr.count_eq]
    exact h.counted he r hu (hm.imp hr.mem_iff.mpr id)

/-- References and PRDQ entries may be forgotten. -/
theorem PreInv.mono {refs' prevs' : List PhysReg} (h : PreInv early s refs prevs)
    (hr : refs'.Sublist refs) (hp : prevs'.Sublist prevs) : PreInv early s refs' prevs' := by
  refine ⟨h.excl, fun he r hu => ?_, fun he r hu hm => h.busy he r hu (hr.subset hm), h.mapped,
    fun he r hu hm => ?_⟩
  · have hw := h.waiting he r hu
    have hle := hp.count_le r
    omega
  · have hc := h.counted he r hu (hm.imp (fun hmem => hr.subset hmem) id)
    have hle := hr.count_le r
    omega

/-- A source operand: one more reference, counted. -/
theorem PreInv.renameSrcReg (h : PreInv early s refs prevs) (inst : PreInst) (src : RegId numRegs) :
    PreInv early (State.renameSrcReg early (s, inst) src).1 (refs ++ [s.renameMap src]) prevs := by
  have hpos := mapCount_pos s.renameMap src
  have hex := h.excl (s.renameMap src)
  unfold State.renameSrcReg
  cases early with
  | false => exact ⟨h.excl, h.waiting, fun he => (by cases he), fun he => (by cases he),
      fun he => (by cases he)⟩
  | true =>
    refine ⟨h.excl, fun he => (by cases he), fun he r hu hm => ?_, h.mapped, fun he r hu hm => ?_⟩
    · rcases mem_append.mp hm with hm | hm
      · exact h.busy he r hu hm
      · rw [mem_singleton.mp hm]
        change s.freeList.count (s.renameMap src) + s.held (s.renameMap src) = 0
        omega
    · simp only [if_true, setNumRef, update_apply, count_append, count_one]
      by_cases hr : r = s.renameMap src
      · subst hr
        have hc := h.counted rfl (s.renameMap src) hu (Or.inr hpos)
        simp only [if_true]
        omega
      · have hm' : r ∈ refs ∨ 0 < mapCount s.renameMap r := by
          rcases hm with hm | hm
          · exact Or.inl ((mem_append.mp hm).resolve_right fun h1 =>
              hr (mem_singleton.mp h1))
          · exact Or.inr hm
        have hc := h.counted rfl r hu hm'
        simp only [if_neg hr, if_neg (Ne.symm hr)]
        omega

/-- One register of a completed instruction. -/
theorem PreInv.recycleReg (h : PreInv true s (q :: refs) prevs) :
    PreInv true (s.recycleReg q) refs prevs := by
  have htail := h.mono (sublist_cons_self q refs) (Sublist.refl prevs)
  unfold State.recycleReg
  split_ifs with hu
  · have hbusy := h.busy rfl q hu mem_cons_self
    have hq := h.counted rfl q hu (Or.inl mem_cons_self)
    rw [count_cons_self] at hq
    have hcounted : ∀ r, s.usableForPRE r = true → r ∈ refs ∨ 0 < mapCount s.renameMap r →
        (refs.count r : Int) ≤ (s.setNumRef q (s.numRef q - 1)).numRef r := by
      intro r hur hm
      simp only [setNumRef, update_apply]
      split_ifs with hrq
      · subst hrq
        omega
      · exact htail.counted rfl r hur hm
    simp only
    split_ifs with hz
    · -- the last reference to an overwritten register
      obtain ⟨hz, hover⟩ := hz
      have hunmapped : mapCount s.renameMap q = 0 := by
        by_contra hne
        have hf := h.mapped rfl q hu (Nat.pos_of_ne_zero hne)
        rw [show s.overwritten q = true from hover] at hf
        cases hf
      have hgone : q ∉ refs := fun hmem => by
        have hpos := count_pos_iff.mpr hmem
        simp only [setNumRef, update_self] at hz
        omega
      refine ⟨fun r => ?_, fun he => (by cases he), fun _ r hur hm => ?_, h.mapped,
        fun _ => hcounted⟩
      · have hex := h.excl r
        rw [addReg_count]
        change s.freeList.count r + _ + s.held r + mapCount s.renameMap r ≤ 1
        split_ifs with hqr
        · subst hqr
          omega
        · omega
      · have hne : q ≠ r := by
          rintro rfl
          exact hgone hm
        rw [addReg_count, if_neg hne]
        exact htail.busy rfl r hur hm
    · exact ⟨h.excl, fun he => (by cases he), htail.busy, h.mapped, fun _ => hcounted⟩
  · exact htail

/-- The operand loop of a completed instruction. -/
theorem PreInv.foldl_recycleReg {l : List PhysReg} (h : PreInv true s (l ++ refs) prevs) :
    PreInv true (l.foldl State.recycleReg s) refs prevs := by
  induction l generalizing s with
  | nil => exact h
  | cons q l ih => exact ih h.recycleReg

/-- One previous register of an instruction leaving the PRDQ. -/
theorem PreInv.retireDest (h : PreInv early s refs (q :: prevs)) :
    PreInv early (s.retireDest early q) refs prevs := by
  have htail := h.mono (Sublist.refl refs) (sublist_cons_self q prevs)
  unfold State.retireDest
  split_ifs with hcond
  · obtain ⟨hu, he⟩ : s.usableForPRE q = true ∧ early = false := by simpa using hcond
    subst he
    have hq := h.waiting rfl q hu
    rw [count_cons_self] at hq
    refine ⟨fun r => ?_, fun _ r hur => ?_, fun he => (by cases he), fun he => (by cases he),
      fun he => (by cases he)⟩
    · have hex := h.excl r
      rw [addReg_count]
      change s.freeList.count r + _ + s.held r + mapCount s.renameMap r ≤ 1
      split_ifs with hqr
      · subst hqr
        omega
      · omega
    · have hw := h.waiting rfl r hur
      rw [count_cons] at hw
      rw [addReg_count]
      change s.freeList.count r + _ + s.held r + mapCount s.renameMap r + prevs.count r ≤ 1
      simp only [beq_iff_eq] at hw
      omega
  · exact htail

theorem PreInv.foldl_retireDest {l : List PhysReg} (h : PreInv early s refs (l ++ prevs)) :
    PreInv early (l.foldl (State.retireDest early) s) refs prevs := by
  induction l generalizing s with
  | nil => exact h
  | cons q l ih => exact ih h.retireDest

/-! ## Renaming in PRE -/

theorem setOverwritten_of_ne (s : State numRegs n) (b : Bool) {x : PhysReg} (h : x ≠ q) :
    (s.setOverwritten q b).overwritten x = s.overwritten x := update_of_ne h ..

/-- The state right after a fresh register `first` has taken the place of `second` in the map. -/
structure Replaced (s t : State numRegs n) (first second : PhysReg) : Prop where
  free : ∀ r, s.freeList.count r = t.freeList.count r + if first = r then 1 else 0
  held : ∀ r, t.held r = s.held r
  map : ∀ r, mapCount t.renameMap r + (if second = r then 1 else 0)
    = mapCount s.renameMap r + if first = r then 1 else 0
  was : 0 < mapCount s.renameMap second
  usable : t.usableForPRE = s.usableForPRE
  marks : t.overwritten = s.overwritten
  refs : t.numRef = s.numRef

theorem Replaced.ne (hr : Replaced s t r q) (h : PreInv early s refs prevs) : r ≠ q := by
  rintro rfl
  have hf := hr.free r
  have hex := h.excl r
  have hwas := hr.was
  simp only [if_true] at hf
  omega

/-- Without early recycling the old register waits in the PRDQ. -/
theorem Replaced.waiting (hr : Replaced s t r q) (h : PreInv false s refs prevs) :
    PreInv false t (refs ++ [r]) (prevs ++ [q]) := by
  refine ⟨fun x => ?_, fun _ x hu => ?_, fun he => (by cases he), fun he => (by cases he),
    fun he => (by cases he)⟩
  · have hex := h.excl x
    have hf := hr.free x
    have hm := hr.map x
    rw [hr.held]
    omega
  · rw [hr.usable] at hu
    have hw := h.waiting rfl x hu
    have hf := hr.free x
    have hm := hr.map x
    rw [hr.held, count_append, count_one]
    omega

/-- With early recycling the new register starts with its own reference. -/
theorem Replaced.counted (hr : Replaced s t r q) (h : PreInv true s refs prevs) :
    PreInv true ((t.setNumRef r 1).setOverwritten r false) (refs ++ [r]) prevs := by
  have hfree : s.freeList.count r = t.freeList.count r + 1 := by
    have := hr.free r
    rwa [if_pos rfl] at this
  have hexr := h.excl r
  have hnew : ∀ x, s.usableForPRE x = true → x ∈ refs → x ≠ r := by
    rintro x hu hmem rfl
    have := h.busy rfl x hu hmem
    omega
  have hold : ∀ x, x ≠ r → 0 < mapCount t.renameMap x → 0 < mapCount s.renameMap x := by
    intro x hx hpos
    have hm := hr.map x
    rw [if_neg (Ne.symm hx)] at hm
    omega
  refine ⟨fun x => ?_, fun he => (by cases he), fun _ x hu hmem => ?_, fun _ x hu hpos => ?_,
    fun _ x hu hm => ?_⟩
  · have hex := h.excl x
    have hf := hr.free x
    have hm := hr.map x
    change t.freeList.count x + t.held x + mapCount t.renameMap x ≤ 1
    rw [hr.held]
    omega
  · change t.freeList.count x + t.held x = 0
    change t.usableForPRE x = true at hu
    rw [hr.usable] at hu
    rw [hr.held]
    rcases mem_append.mp hmem with hmem | hmem
    · have hb := h.busy rfl x hu hmem
      have hf := hr.free x
      omega
    · rw [mem_singleton.mp hmem]
      omega
  · change t.usableForPRE x = true at hu
    rw [hr.usable] at hu
    simp only [setOverwritten, setNumRef, update_apply]
    split_ifs with hx
    · rfl
    · rw [hr.marks]
      exact h.mapped rfl x hu (hold x hx hpos)
  · change t.usableForPRE x = true at hu
    rw [hr.usable] at hu
    simp only [setOverwritten, setNumRef, update_apply, count_append, count_one]
    by_cases hx : x = r
    · subst hx
      have hz : refs.count x = 0 := count_eq_zero.mpr fun hmem => hnew x hu hmem rfl
      simp [hz]
    · rw [if_neg hx, if_neg (Ne.symm hx), hr.refs]
      have hc := h.counted rfl x hu ?_
      · simpa using hc
      · rcases hm with hm | hm
        · exact Or.inl ((mem_append.mp hm).resolve_right fun h1 => hx (mem_singleton.mp h1))
        · exact Or.inr (hold x hx hm)

/-- ... and the old one goes back at once if nothing refers to it. -/
theorem Replaced.recycle (hr : Replaced s t r q) (h : PreInv true s refs prevs) :
    PreInv true (t.recycleDest r q) (refs ++ [r]) prevs := by
  have hne := hr.ne h
  have hc := hr.counted h
  have hgone : mapCount t.renameMap q = 0 ∧ s.freeList.count q + s.held q = 0 := by
    have hm := hr.map q
    have hex := h.excl q
    rw [if_pos rfl, if_neg hne] at hm
    omega
  have hmapped : ∀ x, t.usableForPRE x = true → 0 < mapCount t.renameMap x →
      (((t.setNumRef r 1).setOverwritten r false).setOverwritten q true).overwritten x = false := by
    intro x hux hpos
    have hxq : x ≠ q := by
      rintro rfl
      omega
    rw [setOverwritten_of_ne _ _ hxq]
    exact hc.mapped rfl x hux hpos
  unfold State.recycleDest
  simp only
  split_ifs with hu hz
  · -- nothing refers to it
    have hus : s.usableForPRE q = true := by rw [← hr.usable]; exact hu
    have hzero : s.numRef q = 0 := by
      rw [← hr.refs]
      simpa [setOverwritten, setNumRef, update_of_ne (Ne.symm hne)] using hz
    have hnot : q ∉ refs ++ [r] := by
      intro hmem
      rcases mem_append.mp hmem with hmem | hmem
      · have hcnt := h.counted rfl q hus (Or.inl hmem)
        have hpos := count_pos_iff.mpr hmem
        omega
      · exact hne (mem_singleton.mp hmem).symm
    refine ⟨fun x => ?_, fun he => (by cases he), fun _ x hux hmem => ?_, fun _ x hux hpos => ?_,
      hc.counted⟩
    · have hex := hc.excl x
      rw [addReg_count]
      change t.freeList.count x + _ + t.held x + mapCount t.renameMap x ≤ 1
      change t.freeList.count x + t.held x + mapCount t.renameMap x ≤ 1 at hex
      split_ifs with hqx
      · subst hqx
        have hf := hr.free q
        have hheld := hr.held q
        omega
      · omega
    · have hqx : q ≠ x := by
        rintro rfl
        exact hnot hmem
      rw [addReg_count, if_neg hqx]
      exact hc.busy rfl x hux hmem
    · exact hmapped x hux hpos
  · exact ⟨hc.excl, fun he => (by cases he), hc.busy, fun _ => hmapped, hc.counted⟩
  · exact hc

/-- With early recycling the PRDQ does not matter. -/
theorem PreInv.anyPrevs (h : PreInv true s refs prevs) (prevs' : List PhysReg) :
    PreInv true s refs prevs' :=
  ⟨h.excl, fun he => (by cases he), h.busy, h.mapped, h.counted⟩

/-- The fields PRE does not touch while it renames, retires and recycles. -/
structure SameFrame (s t : State numRegs n) : Prop where
  inPRE : t.inPRE = s.inPRE
  checkpointRenameMap : t.checkpointRenameMap = s.checkpointRenameMap
  checkpointFreeList : t.checkpointFreeList = s.checkpointFreeList
  historyBuffer : t.historyBuffer = s.historyBuffer
  files : t.helpers.files = s.helpers.files
  prdq : t.prdq = s.prdq
  executing : t.executing = s.executing

namespace SameFrame

theorem refl (s : State numRegs n) : SameFrame s s := ⟨rfl, rfl, rfl, rfl, rfl, rfl, rfl⟩

theorem trans {u : State numRegs n} (h : SameFrame s t) (h' : SameFrame t u) : SameFrame s u :=
  ⟨h'.inPRE.trans h.inPRE, h'.checkpointRenameMap.trans h.checkpointRenameMap,
    h'.checkpointFreeList.trans h.checkpointFreeList, h'.historyBuffer.trans h.historyBuffer,
    h'.files.trans h.files, h'.prdq.trans h.prdq, h'.executing.trans h.executing⟩

end SameFrame

theorem sameFrame_recycleReg (s : State numRegs n) (r : PhysReg) : SameFrame s (s.recycleReg r) := by
  unfold State.recycleReg
  simp only
  split_ifs <;> exact ⟨rfl, rfl, rfl, rfl, rfl, rfl, rfl⟩

theorem sameFrame_retireDest (early : Bool) (s : State numRegs n) (r : PhysReg) :
    SameFrame s (s.retireDest early r) := by
  unfold State.retireDest
  split_ifs <;> exact ⟨rfl, rfl, rfl, rfl, rfl, rfl, rfl⟩

theorem sameFrame_recycleDest (s : State numRegs n) (first second : PhysReg) :
    SameFrame s (s.recycleDest first second) := by
  unfold State.recycleDest
  simp only
  split_ifs <;> exact ⟨rfl, rfl, rfl, rfl, rfl, rfl, rfl⟩

theorem sameFrame_renameSrcReg (early : Bool) (s : State numRegs n) (inst : PreInst)
    (src : RegId numRegs) : SameFrame s (State.renameSrcReg early (s, inst) src).1 := by
  cases early <;> exact ⟨rfl, rfl, rfl, rfl, rfl, rfl, rfl⟩

theorem sameFrame_rename {dest : Dest numRegs} {first second : PhysReg}
    (h : s.rename dest = some (first, second, t)) : SameFrame s t := by
  obtain ⟨-, ⟨-, -, k, rfl⟩ | ⟨f, k, -, rfl⟩⟩ := rename_cases h <;>
    exact ⟨rfl, rfl, rfl, rfl, rfl, rfl, rfl⟩

/-- A destination operand in PRE. -/
theorem renameDestReg_in (early : Bool) (inst : PreInst) {dest : Dest numRegs}
    {first second : PhysReg} (hin : s.inPRE = true)
    (h : s.rename dest = some (first, second, t)) :
    renameDestReg early (s, inst) dest
      = (if early then t.recycleDest first second else t, inst.renameDestReg first second) := by
  have ht : t.inPRE = true := (rename_inPRE h).trans hin
  have hrec := (sameFrame_recycleDest t first second).inPRE
  unfold State.renameDestReg
  simp only [h]
  cases early with
  | true => simp [ht, hrec]
  | false => simp [ht]

/-- The guard on a destination: a pinned mapping is not one PRE may recycle. -/
def unpinned (x : State numRegs n × PreInst) (dest : Dest numRegs) : Prop :=
  ¬ (0 < x.1.numPinnedWrites (x.1.renameMap dest.reg) ∧
    x.1.usableForPRE (x.1.renameMap dest.reg) = true)

/-- A pinned register that is not usable: the invariant says nothing of it, so it may change. -/
theorem PreInv.pinned (h : PreInv early s refs prevs) (hu : s.usableForPRE q = false) (k : Nat) :
    PreInv early (if early then (s.setPinned q k).recycleDest q q else s.setPinned q k)
      (refs ++ [q]) (prevs ++ [q]) := by
  have hne : ∀ r, s.usableForPRE r = true → r ≠ q := by
    rintro r hr rfl
    rw [hu] at hr
    cases hr
  cases early with
  | false =>
    refine ⟨h.excl, fun _ r hr => ?_, fun he => (by cases he), fun he => (by cases he),
      fun he => (by cases he)⟩
    rw [count_append, count_one, if_neg (Ne.symm (hne r hr))]
    exact h.waiting rfl r hr
  | true =>
    have hrec : (s.setPinned q k).recycleDest q q
        = ((s.setPinned q k).setNumRef q 1).setOverwritten q false := by
      unfold State.recycleDest
      rw [if_neg (by rw [show (((s.setPinned q k).setNumRef q 1).setOverwritten q false).usableForPRE q
        = s.usableForPRE q from rfl, hu]; exact Bool.false_ne_true)]
    rw [if_pos rfl, hrec]
    have hmem : ∀ r, s.usableForPRE r = true → r ∈ refs ++ [q] → r ∈ refs := fun r hr hm =>
      (mem_append.mp hm).resolve_right fun h1 => hne r hr (mem_singleton.mp h1)
    refine ⟨h.excl, fun he => (by cases he), fun _ r hr hm => h.busy rfl r hr (hmem r hr hm),
      fun _ r hr hpos => ?_, fun _ r hr hm => ?_⟩
    · rw [setOverwritten_of_ne _ _ (hne r hr)]
      exact h.mapped rfl r hr hpos
    · have hc := h.counted rfl r hr (hm.imp (hmem r hr) id)
      have hnum : (((s.setPinned q k).setNumRef q 1).setOverwritten q false).numRef r = s.numRef r :=
        update_of_ne (hne r hr) ..
      rw [hnum, count_append, count_one, if_neg (Ne.symm (hne r hr))]
      exact hc

theorem PreInv.renameDestReg (h : PreInv early s (refs ++ inst.refs) (prevs ++ inst.prevDests))
    (hin : s.inPRE = true) {dest : Dest numRegs} (hpin : unpinned (s, inst) dest) :
    PreInv early (State.renameDestReg early (s, inst) dest).1
      (refs ++ (State.renameDestReg early (s, inst) dest).2.refs)
      (prevs ++ (State.renameDestReg early (s, inst) dest).2.prevDests) ∧
    SameFrame s (State.renameDestReg early (s, inst) dest).1 := by
  cases hren : s.rename dest with
  | none =>
    have hnone : State.renameDestReg early (s, inst) dest = (s, inst) := by
      unfold State.renameDestReg
      simp only [hren]
    rw [hnone]
    exact ⟨h, .refl s⟩
  | some res =>
    obtain ⟨first, second, t⟩ := res
    rw [renameDestReg_in early inst hin hren]
    have hframe := sameFrame_rename hren
    have hrefs : refs ++ (inst.renameDestReg first second).refs = (refs ++ inst.refs) ++ [first] := by
      simp [PreInst.refs, PreInst.renameDestReg]
    have hprevs : prevs ++ (inst.renameDestReg first second).prevDests
        = (prevs ++ inst.prevDests) ++ [second] := by
      simp [PreInst.renameDestReg]
    simp only [hrefs, hprevs]
    constructor
    · obtain ⟨hsecond, ⟨heq, hpos, k, rfl⟩ | ⟨f, k, hget, rfl⟩⟩ := rename_cases hren
      · subst heq
        have hu : s.usableForPRE first = false := by
          by_contra hne
          rw [hsecond] at hpos hne
          exact hpin ⟨hpos, by simpa using hne⟩
        exact h.pinned hu k
      · have hr : Replaced s (((s.setFreeList f).setEntry dest.reg first).setPinned first k)
            first second := by
          refine ⟨getReg_count hget, fun _ => rfl, fun r => ?_, ?_, rfl, rfl, rfl⟩
          · rw [hsecond]
            exact mapCount_update s.renameMap dest.reg first r
          · rw [hsecond]
            exact mapCount_pos s.renameMap dest.reg
        cases early with
        | true => exact (hr.recycle h).anyPrevs _
        | false => exact hr.waiting h
    · cases early with
      | true => exact hframe.trans (sameFrame_recycleDest t first second)
      | false => exact hframe

end Gem5Dvr.Rename
