/-
  Physical registers stay partitioned, run by run.

  Outside PRE every renameable register is in exactly one place; inside PRE none is free twice or
  free and mapped.  Both are kept by every event of the pipeline, with two exceptions, and the guard
  `settled` names them:

    * `exitPRE` restores the free list as it was at `enterPRE`, whatever the helper files have taken
      or given back since.  A name taken in between is free AND held afterwards, one given back in
      between is nowhere.
    * A pinned destination is not renamed, so its old register is its new one; PRDQ retirement and
      early recycling release the old register without the comparison `removeFromHistory` and
      `doSquash` make.
-/
import Gem5Dvr.RenameInv

namespace Gem5Dvr.Rename

open List Function

open State

variable {numRegs : RegClass → Nat} {n : Nat} {s t : State numRegs n} {r q : PhysReg}
  {cap : PhysReg → Nat} {early : Bool} {w : PhysReg → Nat}

/-! ## Entering and leaving PRE -/

theorem getReg_cons {f : FreeList} {type : RegClass} {rest : List PhysReg}
    (h : f.regs type = r :: rest) :
    ∃ g, f.getReg type = some (r, g) ∧ ∀ c, g.regs c = if c = type then rest else f.regs c := by
  unfold FreeList.getReg
  split
  · rename_i hnil
    rw [h] at hnil
    cases hnil
  · rename_i r' rest' hcons
    rw [h] at hcons
    cases hcons
    exact ⟨_, rfl, fun _ => rfl⟩

/-- A queue holds registers of its own class only. -/
theorem count_regs (f : FreeList) (type : RegClass) (r : PhysReg) :
    (f.regs type).count r = if r.cls = type then f.count r else 0 := by
  split_ifs with h
  · rw [FreeList.count, h]
  · exact count_eq_zero.mpr fun hmem => h (f.classed type r hmem)

/-- What taking `num` registers of a class once round the queue does. -/
structure Rotated (type : RegClass) (num : Nat) (s t : State numRegs n) : Prop where
  renameMap : t.renameMap = s.renameMap
  historyBuffer : t.historyBuffer = s.historyBuffer
  prdq : t.prdq = s.prdq
  executing : t.executing = s.executing
  files : t.helpers.files = s.helpers.files
  checkpointRenameMap : t.checkpointRenameMap = s.checkpointRenameMap
  free : ∀ r, t.freeList.count r = s.freeList.count r
  taken : ∀ r, t.checkpointFreeList.count r
    = s.checkpointFreeList.count r + ((s.freeList.regs type).take num).count r
  usable : ∀ r, s.freeList.count r = 0 → t.usableForPRE r = s.usableForPRE r

theorem rotated_checkpointFree (type : RegClass) (num : Nat) (s : State numRegs n)
    (h : num ≤ (s.freeList.regs type).length) : Rotated type num s (checkpointFree type num s) := by
  induction num generalizing s with
  | zero => exact ⟨rfl, rfl, rfl, rfl, rfl, rfl, fun _ => rfl, fun _ => by simp [checkpointFree],
      fun _ _ => rfl⟩
  | succ num ih =>
    obtain ⟨phys_reg, rest, hcons⟩ := exists_cons_of_length_pos
      (show 0 < (s.freeList.regs type).length by omega)
    obtain ⟨f, hget, hregs⟩ := getReg_cons hcons
    have hcls : phys_reg.cls = type := FreeList.getReg_cls hget
    unfold checkpointFree
    simp only [hget]
    have hqueue : (s.checkpointFreeReg phys_reg f).freeList.regs type = rest ++ [phys_reg] := by
      change (f.addReg phys_reg).regs type = _
      simp [FreeList.addReg, hcls, hregs]
    have hlen : num ≤ rest.length := by
      rw [hcons, length_cons] at h
      omega
    have hfree : ∀ r, (s.checkpointFreeReg phys_reg f).freeList.count r = s.freeList.count r :=
      fun r => by
        rw [getReg_count hget r]
        exact addReg_count (s.setFreeList f) phys_reg r
    have hrot := ih (s.checkpointFreeReg phys_reg f) (by rw [hqueue, length_append]; omega)
    refine ⟨hrot.renameMap, hrot.historyBuffer, hrot.prdq, hrot.executing, hrot.files,
      hrot.checkpointRenameMap, fun r => (hrot.free r).trans (hfree r), fun r => ?_, fun r hr => ?_⟩
    · rw [hrot.taken, hqueue, take_append_of_le_length hlen, hcons, take_succ_cons, count_cons]
      change (s.checkpointFreeList.addReg phys_reg).count r + _ = _
      rw [FreeList.count_addReg, count_one]
      simp only [beq_iff_eq]
      omega
    · rw [hrot.usable r ((hfree r).trans hr)]
      have hne : r ≠ phys_reg := by
        rintro rfl
        have := getReg_count hget r
        rw [if_pos rfl] at this
        omega
      exact update_of_ne hne ..

/-- `enterPRE` after the classes `pre`. -/
structure Entered (s : State numRegs n) (pre : List RegClass) (t : State numRegs n) : Prop where
  renameMap : t.renameMap = s.renameMap
  historyBuffer : t.historyBuffer = s.historyBuffer
  prdq : t.prdq = s.prdq
  executing : t.executing = s.executing
  files : t.helpers.files = s.helpers.files
  free : ∀ r, t.freeList.count r = s.freeList.count r
  saved : ∀ r, t.checkpointFreeList.count r = if r.cls ∈ pre then s.freeList.count r else 0
  mapped : ∀ a, a.1 ∈ pre → t.checkpointRenameMap a = s.renameMap a
  unusable : ∀ a, a.1 ∈ pre → s.freeList.count (s.renameMap a) = 0 →
    t.usableForPRE (s.renameMap a) = false

/-- The map loop of `enterPRE` on one class. -/
structure Saved (s : State numRegs n) (pre : List (RegId numRegs)) (t : State numRegs n) : Prop where
  renameMap : t.renameMap = s.renameMap
  historyBuffer : t.historyBuffer = s.historyBuffer
  prdq : t.prdq = s.prdq
  executing : t.executing = s.executing
  helpers : t.helpers = s.helpers
  checkpointFreeList : t.checkpointFreeList = s.checkpointFreeList
  mapped : ∀ a, t.checkpointRenameMap a = if a ∈ pre then s.renameMap a else s.checkpointRenameMap a
  unusable : ∀ r, t.usableForPRE r = true → s.usableForPRE r = true ∧ ∀ a ∈ pre, s.renameMap a ≠ r

theorem mem_archRegs {type : RegClass} {a : RegId numRegs} :
    a ∈ (archRegs type : List (RegId numRegs)) ↔ a.1 = type := by
  obtain ⟨c, i⟩ := a
  simp only [archRegs, mem_map, mem_finRange, true_and]
  constructor
  · rintro ⟨j, hj⟩
    exact (congrArg Sigma.fst hj).symm
  · rintro rfl
    exact ⟨i, rfl⟩

theorem nodup_archRegs (type : RegClass) : (archRegs type : List (RegId numRegs)).Nodup :=
  (nodup_finRange _).map fun i j hij => by
    cases hij
    rfl

theorem saved_checkpointReg (s : State numRegs n) (type : RegClass) :
    Saved s (archRegs type) ((archRegs type).foldl checkpointReg s) := by
  refine Fold.foldl_prefix (P := Saved s) ⟨rfl, rfl, rfl, rfl, rfl, rfl, by simp, by simp⟩ ?_
    (nodup_archRegs type)
  intro pre a t ha h
  refine ⟨h.renameMap, h.historyBuffer, h.prdq, h.executing, h.helpers, h.checkpointFreeList,
    fun b => ?_, fun r hr => ?_⟩
  · simp only [checkpointReg, update_apply, h.renameMap]
    by_cases hb : b = a
    · simp [hb]
    · rw [if_neg hb, h.mapped]
      simp [hb]
  · simp only [checkpointReg, update_apply, h.renameMap] at hr
    split_ifs at hr with hra
    obtain ⟨h1, h2⟩ := h.unusable r hr
    refine ⟨h1, fun b hb => ?_⟩
    rcases mem_append.mp hb with hb | hb
    · exact h2 b hb
    · rw [mem_singleton.mp hb]
      exact fun he => hra he.symm

theorem entered_regClasses (hclear : ∀ c, s.checkpointFreeList.regs c = []) :
    Entered s regClasses (regClasses.foldl enterClass s) := by
  have hzero : ∀ r, s.checkpointFreeList.count r = 0 := fun r => by
    rw [FreeList.count, hclear]
    rfl
  refine Fold.foldl_prefix (P := Entered s) ⟨rfl, rfl, rfl, rfl, rfl, fun _ => rfl,
    by simpa using hzero, by simp, by simp⟩ ?_ (by decide)
  intro pre type t htype h
  have hsv := saved_checkpointReg t type
  have hfl : ((archRegs type).foldl checkpointReg t).freeList = t.freeList := by
    rw [State.freeList, hsv.helpers]
    rfl
  have hrot := rotated_checkpointFree type (t.freeList.regs type).length
    ((archRegs type).foldl checkpointReg t) (by rw [hfl])
  refine ⟨hrot.renameMap.trans (hsv.renameMap.trans h.renameMap),
    hrot.historyBuffer.trans (hsv.historyBuffer.trans h.historyBuffer),
    hrot.prdq.trans (hsv.prdq.trans h.prdq), hrot.executing.trans (hsv.executing.trans h.executing),
    hrot.files.trans (by rw [hsv.helpers, h.files]), fun r => ?_, fun r => ?_, fun a ha => ?_,
    fun a ha hfree => ?_⟩
  · rw [enterClass, hrot.free, hfl, h.free]
  · rw [enterClass, hrot.taken, hfl, take_length, count_regs, hsv.checkpointFreeList, h.saved,
      h.free]
    by_cases hr : r.cls = type
    · simp [hr, htype]
    · simp [hr]
  · rw [enterClass, hrot.checkpointRenameMap, hsv.mapped, h.renameMap]
    by_cases hat : a.1 = type
    · rw [if_pos (mem_archRegs.mpr hat)]
    · rw [if_neg fun hm => hat (mem_archRegs.mp hm)]
      refine h.mapped a ((mem_append.mp ha).resolve_right fun h1 => hat ?_)
      exact mem_singleton.mp h1
  · rw [enterClass, hrot.usable _ (by rw [hfl, h.free, hfree])]
    by_contra hne
    obtain ⟨hold, hnot⟩ := hsv.unusable (s.renameMap a) (by simpa using hne)
    by_cases hat : a.1 = type
    · exact hnot a (mem_archRegs.mpr hat) (by rw [h.renameMap])
    · have hpre : a.1 ∈ pre := (mem_append.mp ha).resolve_right fun h1 =>
        hat (mem_singleton.mp h1)
      rw [h.unusable a hpre hfree] at hold
      cases hold

/-- `exitPRE` after the classes `pre`. -/
structure Exited (s : State numRegs n) (pre : List RegClass) (t : State numRegs n) : Prop where
  historyBuffer : t.historyBuffer = s.historyBuffer
  files : t.helpers.files = s.helpers.files
  checkpointRenameMap : t.checkpointRenameMap = s.checkpointRenameMap
  mapped : ∀ a, a.1 ∈ pre → t.renameMap a = s.checkpointRenameMap a
  free : ∀ r, r.cls ∈ pre → t.freeList.count r = s.checkpointFreeList.count r
  cleared : ∀ c, t.checkpointFreeList.regs c = if c ∈ pre then [] else s.checkpointFreeList.regs c

theorem drainFree_eq (type : RegClass) (num : Nat) (s : State numRegs n)
    (h : num ≤ (s.freeList.regs type).length) :
    ∃ f, drainFree type num s = s.setFreeList f ∧ f.regs type = (s.freeList.regs type).drop num ∧
      ∀ c, c ≠ type → f.regs c = s.freeList.regs c := by
  induction num generalizing s with
  | zero => exact ⟨s.freeList, rfl, rfl, fun _ _ => rfl⟩
  | succ num ih =>
    obtain ⟨phys_reg, rest, hcons⟩ := exists_cons_of_length_pos
      (show 0 < (s.freeList.regs type).length by omega)
    obtain ⟨g, hget, hregs⟩ := getReg_cons hcons
    have hqueue : (s.setFreeList g).freeList.regs type = rest := (hregs type).trans (if_pos rfl)
    obtain ⟨f, hf, hdrop, hother⟩ := ih (s.setFreeList g) (by
      rw [hqueue]
      rw [hcons, length_cons] at h
      omega)
    refine ⟨f, ?_, ?_, fun c hc => ?_⟩
    · unfold drainFree
      simp only [hget]
      exact hf
    · rw [hdrop, hqueue, hcons, drop_succ_cons]
    · rw [hother c hc]
      exact (hregs c).trans (if_neg hc)

theorem foldl_addReg (l : List PhysReg) (s : State numRegs n) :
    l.foldl State.addReg s = s.setFreeList (s.freeList.addRegs l) := by
  induction l generalizing s with
  | nil => rfl
  | cons r l ih => exact ih (s.addReg r)

/-- The map loop of `exitPRE` on one class. -/
theorem foldl_setEntry (l : List (RegId numRegs)) (s : State numRegs n) :
    ∃ m, l.foldl (fun s rid => s.setEntry rid (s.checkpointRenameMap rid)) s
        = { s with renameMap := m } ∧
      ∀ a, m a = if a ∈ l then s.checkpointRenameMap a else s.renameMap a := by
  induction l generalizing s with
  | nil => exact ⟨s.renameMap, rfl, by simp⟩
  | cons rid l ih =>
    obtain ⟨m, hm, hval⟩ := ih (s.setEntry rid (s.checkpointRenameMap rid))
    refine ⟨m, hm, fun a => ?_⟩
    rw [hval a]
    change (if a ∈ l then s.checkpointRenameMap a
      else update s.renameMap rid (s.checkpointRenameMap rid) a) = _
    by_cases hal : a ∈ l
    · simp [hal]
    · by_cases har : a = rid
      · simp [har]
      · simp [hal, har]

theorem exited_regClasses (s : State numRegs n) :
    Exited s regClasses (regClasses.foldl exitClass s) := by
  refine Fold.foldl_prefix (P := Exited s) ⟨rfl, rfl, rfl, by simp, by simp, by simp⟩ ?_ (by decide)
  intro pre type t htype h
  obtain ⟨m, hm, hval⟩ := foldl_setEntry (archRegs type) t
  obtain ⟨f, hf, hdrop, hother⟩ := drainFree_eq type (t.freeList.regs type).length
    { t with renameMap := m } (le_refl _)
  have hclass : t.exitClass type = { t with
      renameMap := m
      helpers := (t.setFreeList (f.addRegs (t.checkpointFreeList.regs type))).helpers
      checkpointFreeList := t.checkpointFreeList.clear type } := by
    unfold exitClass
    simp only [hm]
    rw [show ({ t with renameMap := m } : State numRegs n).freeList = t.freeList from rfl, hf,
      foldl_addReg]
    rfl
  rw [hclass]
  refine ⟨h.historyBuffer, h.files, h.checkpointRenameMap, fun a ha => ?_, fun r hr => ?_,
    fun c => ?_⟩
  · change m a = _
    rw [hval a, h.checkpointRenameMap]
    by_cases hat : a.1 = type
    · rw [if_pos (mem_archRegs.mpr hat)]
    · rw [if_neg fun hmem => hat (mem_archRegs.mp hmem)]
      exact h.mapped a ((mem_append.mp ha).resolve_right fun h1 =>
        hat (mem_singleton.mp h1))
  · change (f.addRegs (t.checkpointFreeList.regs type)).count r = _
    have hckpt : t.checkpointFreeList.regs type = s.checkpointFreeList.regs type := by
      rw [h.cleared, if_neg htype]
    rw [FreeList.count_addRegs, hckpt, count_regs]
    by_cases hrt : r.cls = type
    · have hnil : f.count r = 0 := by
        rw [FreeList.count, hrt, hdrop]
        change ((t.freeList.regs type).drop (t.freeList.regs type).length).count r = 0
        rw [drop_length]
        rfl
      rw [hnil, if_pos hrt, Nat.zero_add]
    · have hpre : r.cls ∈ pre := (mem_append.mp hr).resolve_right fun h1 =>
        hrt (mem_singleton.mp h1)
      rw [if_neg hrt, Nat.add_zero, ← h.free r hpre, FreeList.count, hother _ hrt]
      rfl
  · change (t.checkpointFreeList.clear type).regs c = _
    simp only [FreeList.clear, h.cleared]
    by_cases hct : c = type
    · simp [hct]
    · simp [hct]

/-! ## The invariant of a run -/

/-- In PRE: the checkpoint is a partition together with the names `w` the helpers held when PRE was
    entered, and the live state is as `PreInv` says. -/
structure Inside (early : Bool) (cap : PhysReg → Nat) (s : State numRegs n) (w : PhysReg → Nat) :
    Prop where
  inside : s.inPRE = true
  ok : s.helpers.Ok
  checkpoint : ∀ r, s.checkpointFreeList.count r + w r + mapCount s.checkpointRenameMap r
    + (changedPrev s.historyBuffer).count r = cap r
  unwinds : Unwinds s.checkpointRenameMap s.historyBuffer
  live : PreInv early s (s.executing.flatMap PreInst.refs) (s.prdq.flatMap (·.prevDests))

/-- `Ok` is about the helper files only. -/
theorem ok_of_files {S T : HelperRegs.System n} (h : S.Ok) (hf : T.files = S.files) : T.Ok := by
  intro i
  refine ⟨by rw [hf, (h i).1], fun p hp => ?_⟩
  change ((T.files i).physical p).book = {}
  change (T.files i).allocated p = false at hp
  rw [hf] at hp ⊢
  exact (h i).2 p hp

theorem held_congr (h : t.helpers.files = s.helpers.files) (r : PhysReg) : t.held r = s.held r := by
  simp only [State.held, HelperRegs.System.held, h]

theorem Entered.setInPRE {pre : List RegClass} (h : Entered s pre t) (b : Bool) :
    Entered s pre { t with inPRE := b } :=
  ⟨h.renameMap, h.historyBuffer, h.prdq, h.executing, h.files, h.free, h.saved, h.mapped, h.unusable⟩

theorem Exited.setInPRE {pre : List RegClass} (h : Exited s pre t) (b : Bool) :
    Exited s pre { t with inPRE := b } :=
  ⟨h.historyBuffer, h.files, h.checkpointRenameMap, h.mapped, h.free, h.cleared⟩

theorem entered_enterPRE (hclear : ∀ c, s.checkpointFreeList.regs c = []) :
    Entered s regClasses s.enterPRE := (entered_regClasses hclear).setInPRE true

theorem exited_exitPRE (s : State numRegs n) : Exited s regClasses s.exitPRE :=
  (exited_regClasses s).setInPRE false

theorem Outside.enterPRE (hcap : ∀ r, cap r ≤ 1) (h : Outside cap s) (hp : s.prdq = [])
    (he : s.executing = []) : Inside early cap s.enterPRE s.held := by
  have hent := entered_enterPRE h.cleared
  have hmap : s.enterPRE.checkpointRenameMap = s.renameMap :=
    funext fun a => hent.mapped a (mem_regClasses _)
  have hheld := held_congr hent.files
  have hle : ∀ r, s.freeList.count r + s.held r + mapCount s.renameMap r ≤ 1 := fun r => by
    have hpl := h.places r
    have hc := hcap r
    rw [State.places] at hpl
    omega
  -- a mapped register is not free, so it stays marked
  have hun : ∀ r, s.enterPRE.usableForPRE r = true → mapCount s.renameMap r = 0 := by
    intro r hu
    by_contra hne
    obtain ⟨a, rfl⟩ := exists_of_mapCount_pos (Nat.pos_of_ne_zero hne)
    have hz : s.freeList.count (s.renameMap a) = 0 := by
      have := hle (s.renameMap a)
      omega
    rw [hent.unusable a (mem_regClasses _) hz] at hu
    cases hu
  refine ⟨rfl, ok_of_files h.ok hent.files, fun r => ?_, ?_, ?_⟩
  · rw [hent.saved, if_pos (mem_regClasses _), hmap, hent.historyBuffer]
    exact h.places r
  · rw [hmap, hent.historyBuffer]
    exact h.unwinds
  · rw [hent.prdq, hent.executing, hp, he]
    refine ⟨fun r => ?_, fun _ r _ => ?_, fun _ r _ hm => absurd hm not_mem_nil,
      fun _ r hu hpos => ?_, fun _ r hu hm => ?_⟩
    · rw [hent.free, hheld, hent.renameMap]
      exact hle r
    · rw [hent.free, hheld, hent.renameMap]
      exact hle r
    · rw [hent.renameMap] at hpos
      have := hun r hu
      omega
    · rw [hent.renameMap] at hm
      have hz := hun r hu
      rcases hm with hm | hm
      · exact absurd hm not_mem_nil
      · omega

/-- After `exitPRE` a register is in one place more for every time a helper holds it and did not
    when PRE was entered, and in one less for every time it is the other way round. -/
theorem Inside.places_exitPRE (h : Inside early cap s w) (r : PhysReg) :
    s.exitPRE.places r + w r = cap r + s.held r := by
  have hex := exited_exitPRE s
  have hmap : s.exitPRE.renameMap = s.checkpointRenameMap :=
    funext fun a => hex.mapped a (mem_regClasses _)
  have hck := h.checkpoint r
  rw [State.places, held_congr hex.files, hex.free r (mem_regClasses _), hmap, hex.historyBuffer]
  omega

theorem Inside.exitPRE (h : Inside early cap s w) (hheld : ∀ r, s.held r = w r) :
    Outside cap s.exitPRE := by
  have hex := exited_exitPRE s
  have hmap : s.exitPRE.renameMap = s.checkpointRenameMap :=
    funext fun a => hex.mapped a (mem_regClasses _)
  refine ⟨rfl, ok_of_files h.ok hex.files, fun r => ?_, ?_, fun c => ?_⟩
  · have hback := h.places_exitPRE r
    rw [hheld r] at hback
    omega
  · rw [hmap, hex.historyBuffer]
    exact h.unwinds
  · rw [hex.cleared, if_pos (mem_regClasses _)]

/-! ## Events inside PRE -/

/-- The checkpoint is not touched by what goes on inside PRE. -/
theorem Inside.frame (h : Inside early cap s w) (hi : t.inPRE = s.inPRE)
    (hm : t.checkpointRenameMap = s.checkpointRenameMap)
    (hf : t.checkpointFreeList = s.checkpointFreeList) (hh : t.historyBuffer = s.historyBuffer)
    (hok : t.helpers.Ok)
    (hlive : PreInv early t (t.executing.flatMap PreInst.refs) (t.prdq.flatMap (·.prevDests))) :
    Inside early cap t w := by
  refine ⟨hi.trans h.inside, hok, fun r => ?_, ?_, hlive⟩
  · rw [hm, hf, hh]
    exact h.checkpoint r
  · rw [hm, hh]
    exact h.unwinds

/-- What holds while one instruction is being renamed. -/
structure Renaming (early : Bool) (s : State numRegs n) (x : State numRegs n × PreInst) : Prop where
  live : PreInv early x.1 (s.executing.flatMap PreInst.refs ++ x.2.refs)
    (s.prdq.flatMap (·.prevDests) ++ x.2.prevDests)
  frame : SameFrame s x.1

theorem Renaming.src {x : State numRegs n × PreInst} (h : Renaming early s x) (src : RegId numRegs) :
    Renaming early s (State.renameSrcReg early x src) := by
  refine ⟨?_, h.frame.trans (sameFrame_renameSrcReg early x.1 x.2 src)⟩
  have hsrc := h.live.renameSrcReg x.2 src
  refine hsrc.perm ?_ (Perm.refl _)
  rw [append_assoc]
  refine Perm.append_left _ ?_
  change (x.2.srcs ++ x.2.dests ++ [x.1.renameMap src]).Perm
    (x.2.srcs ++ [x.1.renameMap src] ++ x.2.dests)
  rw [append_assoc, append_assoc]
  exact Perm.append_left _ perm_append_comm

theorem Renaming.dest {x : State numRegs n × PreInst} (h : Renaming early s x)
    (hin : s.inPRE = true) {dest : Dest numRegs} (hpin : unpinned x dest) :
    Renaming early s (State.renameDestReg early x dest) := by
  obtain ⟨h1, h2⟩ := h.live.renameDestReg (h.frame.inPRE.trans hin) hpin
  exact ⟨h1, h.frame.trans h2⟩

/-- The destinations of a PRE instruction meet no pinned register that PRE may recycle. -/
def destsUnpinned (early : Bool) (s : State numRegs n) (seqNum : Nat) (srcs : List (RegId numRegs))
    (dests : List (Dest numRegs)) : Prop :=
  Trace.Admits unpinned (State.renameDestReg early)
    (srcs.foldl (State.renameSrcReg early) (s, { seqNum })) dests

theorem Inside.insertInst {x : State numRegs n × PreInst} (h : Inside early cap s w)
    (hx : Renaming early s x) : Inside early cap (State.insertInst x) w := by
  obtain ⟨hlive, hfr⟩ := hx
  have hlists : ∀ (l : List PreInst) (f : PreInst → List PhysReg),
      (l ++ [x.2]).flatMap f = l.flatMap f ++ f x.2 := fun l f => by simp
  rw [State.insertInst, if_pos (hfr.inPRE.trans h.inside)]
  refine h.frame hfr.inPRE hfr.checkpointRenameMap hfr.checkpointFreeList hfr.historyBuffer
    (ok_of_files h.ok hfr.files) ?_
  simp only [hlists, hfr.executing, hfr.prdq]
  exact ⟨hlive.excl, hlive.waiting, hlive.busy, hlive.mapped, hlive.counted⟩

theorem Inside.renameInst (h : Inside early cap s w) {seqNum : Nat} {srcs : List (RegId numRegs)}
    {dests : List (Dest numRegs)} (hpin : destsUnpinned early s seqNum srcs dests) :
    Inside early cap (s.renameInst early seqNum srcs dests) w := by
  unfold State.renameInst
  split_ifs
  · have h0 : Renaming early s (s, { seqNum }) := ⟨by simpa [PreInst.refs] using h.live, .refl s⟩
    have hsrc : Renaming early s (srcs.foldl (State.renameSrcReg early) (s, { seqNum })) :=
      List.foldlRecOn (motive := Renaming early s) srcs _ h0 fun _ hx a _ => hx.src a
    exact h.insertInst (Trace.Admits.invariant (Renaming early s)
      (fun x d hx hd => hx.dest h.inside hd) hsrc hpin)
  · exact h

/-- A squash inside PRE is younger than every history entry: it only shortens the PRDQ. -/
theorem Inside.doSquash (h : Inside early cap s w) {squashed_seq_num : Nat}
    (hyoung : ∀ hb_it ∈ s.historyBuffer, hb_it.instSeqNum ≤ squashed_seq_num) :
    Inside early cap (s.doSquash squashed_seq_num) w := by
  have hundo : State.undoLoop squashed_seq_num s.historyBuffer s = s := by
    cases hh : s.historyBuffer with
    | nil =>
      exact setHistory_self hh
    | cons e rest =>
      have he := hyoung e (by rw [hh]; exact mem_cons_self)
      unfold State.undoLoop
      rw [if_neg (by omega)]
      exact setHistory_self hh
  unfold State.doSquash
  simp only [hundo]
  have hsub := ( rdropWhile_prefix (l := s.prdq)
    (fun inst : PreInst => decide (inst.seqNum > squashed_seq_num))).sublist.flatMap (·.prevDests)
  have hlive := h.live.mono (Sublist.refl _) hsub
  exact h.frame rfl rfl rfl rfl h.ok
    ⟨hlive.excl, hlive.waiting, hlive.busy, hlive.mapped, hlive.counted⟩

theorem Inside.retirePRDQ (h : Inside early cap s w) : Inside early cap (s.retirePRDQ early) w := by
  unfold State.retirePRDQ
  rw [if_pos h.inside]
  cases hp : s.prdq with
  | nil => exact h
  | cons inst rest =>
    simp only
    split_ifs
    · have hlive := h.live
      rw [hp, flatMap_cons] at hlive
      have hret := hlive.foldl_retireDest
      have hfr : SameFrame s (inst.prevDests.foldl (State.retireDest early) s) :=
        List.foldlRecOn (motive := SameFrame s) _ _ (.refl s) fun t ht r _ =>
          ht.trans (sameFrame_retireDest early t r)
      refine h.frame hfr.inPRE hfr.checkpointRenameMap hfr.checkpointFreeList hfr.historyBuffer
        (ok_of_files h.ok hfr.files) ?_
      simp only [hfr.executing]
      exact ⟨hret.excl, hret.waiting, hret.busy, hret.mapped, hret.counted⟩
    · exact h

/-- Marking instructions complete does not change what they hold. -/
theorem flatMap_markReady (l : List PreInst) (seqNum : Nat) :
    (l.map fun e => if e.seqNum = seqNum then { e with readyToCommit := true } else e).flatMap
      (·.prevDests) = l.flatMap (·.prevDests) := by
  rw [flatMap_map]
  refine congrArg (fun f => l.flatMap f) (funext fun e => ?_)
  split_ifs <;> rfl

theorem Inside.complete (h : Inside early cap s w) (i : Nat) :
    Inside early cap (s.complete early i) w := by
  unfold State.complete
  cases hi : s.executing[i]? with
  | none => exact h
  | some inst =>
    simp only
    rw [if_pos h.inside]
    obtain ⟨hlt, hget⟩ := List.getElem?_eq_some_iff.mp hi
    have hperm : (s.executing.flatMap PreInst.refs).Perm
        (inst.refs ++ (s.executing.eraseIdx i).flatMap PreInst.refs) := by
      have hp := (getElem_cons_eraseIdx_perm hlt).symm.flatMap_right PreInst.refs
      rw [hget, flatMap_cons] at hp
      exact hp
    have hlive := h.live.perm hperm (Perm.refl _)
    have hprdq := flatMap_markReady s.prdq inst.seqNum
    generalize (s.prdq.map fun e =>
      if e.seqNum = inst.seqNum then { e with readyToCommit := true } else e) = prdq at hprdq ⊢
    rw [← hprdq] at hlive
    cases early with
    | true =>
      -- the completed instruction gives up its references one by one
      have hmid : PreInv true { s with executing := s.executing.eraseIdx i, prdq }
          (inst.refs ++ (s.executing.eraseIdx i).flatMap PreInst.refs) (prdq.flatMap (·.prevDests)) :=
        ⟨hlive.excl, hlive.waiting, hlive.busy, hlive.mapped, hlive.counted⟩
      have hfr : SameFrame { s with executing := s.executing.eraseIdx i, prdq }
          (inst.refs.foldl State.recycleReg { s with executing := s.executing.eraseIdx i, prdq }) :=
        List.foldlRecOn (motive := SameFrame { s with executing := s.executing.eraseIdx i, prdq }) _ _
          (.refl _) fun t ht r _ => ht.trans (sameFrame_recycleReg t r)
      have hdone := hmid.foldl_recycleReg
      refine h.frame hfr.inPRE hfr.checkpointRenameMap hfr.checkpointFreeList hfr.historyBuffer
        (ok_of_files h.ok hfr.files) ?_
      change PreInv true (inst.refs.foldl State.recycleReg _)
        ((inst.refs.foldl State.recycleReg _).executing.flatMap _)
        ((inst.refs.foldl State.recycleReg _).prdq.flatMap _)
      rw [hfr.executing, hfr.prdq]
      exact hdone
    | false =>
      have hrest := hlive.mono (sublist_append_right inst.refs _) (Sublist.refl _)
      exact h.frame rfl rfl rfl rfl h.ok
        ⟨hrest.excl, hrest.waiting, hrest.busy, hrest.mapped, hrest.counted⟩

theorem Inside.squashExecuting (h : Inside early cap s w) (i : Nat) :
    Inside early cap { s with executing := s.executing.eraseIdx i } w := by
  have hsub : ((s.executing.eraseIdx i).flatMap PreInst.refs).Sublist
      (s.executing.flatMap PreInst.refs) := (eraseIdx_sublist s.executing i).flatMap _
  have hlive := h.live.mono hsub (Sublist.refl _)
  exact h.frame rfl rfl rfl rfl h.ok
    ⟨hlive.excl, hlive.waiting, hlive.busy, hlive.mapped, hlive.counted⟩

/-- A helper call moves names between the free list and the helpers. -/
theorem free_add_held (h : s.helpers.Ok) (op : HelperRegs.SystemOp n) (r : PhysReg) :
    (s.helpers.step op).bank.freeList.count r + (s.helpers.step op).held.count r
      = s.freeList.count r + s.held r := by
  have htot := (HelperRegs.System.step_ok h op).2 r
  rw [HelperRegs.System.total, HelperRegs.System.total, ← HelperRegs.System.count_held,
    ← HelperRegs.System.count_held] at htot
  exact htot

theorem Inside.helper (h : Inside early cap s w) (op : HelperRegs.SystemOp n) :
    Inside early cap { s with helpers := s.helpers.step op } w := by
  have hsum := free_add_held h.ok op
  refine h.frame rfl rfl rfl rfl (HelperRegs.System.step_ok h.ok op).1
    ⟨fun r => ?_, fun he r hu => ?_, fun he r hu hm => ?_, h.live.mapped, h.live.counted⟩
  · have hex := h.live.excl r
    rw [← hsum r] at hex
    exact hex
  · have hw := h.live.waiting he r hu
    rw [← hsum r] at hw
    exact hw
  · have hb := h.live.busy he r hu hm
    rw [← hsum r] at hb
    exact hb

/-! ## Events outside PRE -/

theorem Outside.helper (h : Outside cap s) (op : HelperRegs.SystemOp n) :
    Outside cap { s with helpers := s.helpers.step op } := by
  refine ⟨h.out, (HelperRegs.System.step_ok h.ok op).1, fun r => ?_, h.unwinds, h.cleared⟩
  have hp := h.places r
  rw [State.places, ← free_add_held h.ok op r] at hp
  exact hp

/-- The PRE bookkeeping does nothing to the registers outside PRE. -/
theorem Outside.complete (h : Outside cap s) (i : Nat) : Outside cap (s.complete early i) := by
  unfold State.complete
  cases s.executing[i]? with
  | none => exact h
  | some inst =>
    simp only
    rw [if_neg (by rw [h.out]; exact Bool.false_ne_true)]
    exact ⟨h.out, h.ok, h.places, h.unwinds, h.cleared⟩

theorem Outside.retirePRDQ (h : Outside cap s) : Outside cap (s.retirePRDQ early) := by
  unfold State.retirePRDQ
  rw [if_neg (by rw [h.out]; exact Bool.false_ne_true)]
  exact h

/-! ## Runs -/

/-- A run together with the names the helpers held when PRE was last entered. -/
def watch (early : Bool) (x : State numRegs n × (PhysReg → Nat)) (e : Event numRegs n) :
    State numRegs n × (PhysReg → Nat) :=
  (step early x.1 e, match e with
    | .enterPRE => x.1.held
    | _ => x.2)

/-- The two things that go wrong do not happen: in PRE no destination is pinned to a register that
    PRE may recycle, and at `exitPRE` the helpers hold what they held at `enterPRE`. -/
def settled (early : Bool) (x : State numRegs n × (PhysReg → Nat)) : Event numRegs n → Prop
  | .rename seqNum srcs dests => x.1.inPRE = true → destsUnpinned early x.1 seqNum srcs dests
  | .exitPRE => ∀ r, x.1.held r = x.2 r
  | _ => True

/-- The invariant of a run. -/
def Partitioned (early : Bool) (cap : PhysReg → Nat) (x : State numRegs n × (PhysReg → Nat)) : Prop :=
  Outside cap x.1 ∨ Inside early cap x.1 x.2

theorem Outside.step (hcap : ∀ r, cap r ≤ 1) (h : Outside cap s) {e : Event numRegs n}
    (hl : legal s e) : Partitioned early cap (watch early (s, w) e) := by
  cases e with
  | rename seqNum srcs dests => exact Or.inl (h.renameInst early hcap seqNum srcs dests)
  | removeFromHistory inst_seq_num => exact Or.inl (h.removeFromHistory inst_seq_num)
  | doSquash squashed_seq_num => exact Or.inl (h.doSquash squashed_seq_num)
  | enterPRE => exact Or.inr (h.enterPRE hcap hl.2.1 hl.2.2)
  | exitPRE =>
    have hin : s.inPRE = true := hl
    rw [h.out] at hin
    cases hin
  | retirePRDQ => exact Or.inl h.retirePRDQ
  | complete i => exact Or.inl (h.complete i)
  | squashExecuting i => exact Or.inl ⟨h.out, h.ok, h.places, h.unwinds, h.cleared⟩
  | incrNumPinnedWrites r => exact Or.inl ⟨h.out, h.ok, h.places, h.unwinds, h.cleared⟩
  | helper op => exact Or.inl (h.helper op)

theorem Inside.step (h : Inside early cap s w) {e : Event numRegs n} (hl : legal s e)
    (hs : settled early (s, w) e) : Partitioned early cap (watch early (s, w) e) := by
  have hnot : s.inPRE ≠ false := by
    rw [h.inside]
    exact Bool.true_eq_false_eq_False
  cases e with
  | rename seqNum srcs dests => exact Or.inr (h.renameInst (hs h.inside))
  | removeFromHistory inst_seq_num => exact absurd hl hnot
  | doSquash squashed_seq_num => exact Or.inr (h.doSquash (hl h.inside))
  | enterPRE => exact absurd hl.1 hnot
  | exitPRE => exact Or.inl (h.exitPRE hs)
  | retirePRDQ => exact Or.inr h.retirePRDQ
  | complete i => exact Or.inr (h.complete i)
  | squashExecuting i => exact Or.inr (h.squashExecuting i)
  | incrNumPinnedWrites r =>
    exact Or.inr (h.frame rfl rfl rfl rfl h.ok
      ⟨h.live.excl, h.live.waiting, h.live.busy, h.live.mapped, h.live.counted⟩)
  | helper op => exact Or.inr (h.helper op)

/-! ## The start of a run -/

/-- One for the registers the CPU is built with. -/
def builtWith (cfg : Config) (r : PhysReg) : Nat := if r.index < cfg.numPhys r.cls then 1 else 0

theorem builtWith_le (cfg : Config) (r : PhysReg) : builtWith cfg r ≤ 1 := by
  unfold builtWith
  split_ifs <;> omega

section Start

variable (cfg : Config) (regFile : PhysReg → RegVal) (usableForPRE overwritten : PhysReg → Bool)
  (numRef : PhysReg → Int)

theorem count_free_start (r : PhysReg) :
    (start cfg n regFile usableForPRE overwritten numRef).freeList.count r
      = if cfg.numRegs r.cls ≤ r.index ∧ r.index < cfg.numPhys r.cls then 1 else 0 := by
  change ((range' (cfg.numRegs r.cls) (cfg.numPhys r.cls - cfg.numRegs r.cls)).map
    (PhysReg.mk r.cls)).count (PhysReg.mk r.cls r.index) = _
  have hinj : Injective (PhysReg.mk r.cls) := fun a b hab => (PhysReg.mk.inj hab).2
  rw [count_map_of_injective _ _ hinj]
  split_ifs with h
  · refine count_eq_one_of_mem nodup_range' ?_
    rw [mem_range'_1]
    omega
  · refine count_eq_zero.mpr fun hmem => h ?_
    rw [mem_range'_1] at hmem
    omega

theorem mapCount_start (r : PhysReg) :
    mapCount (start cfg n regFile usableForPRE overwritten numRef).renameMap r
      = if r.index < cfg.numRegs r.cls then 1 else 0 := by
  change (∑ a : RegId cfg.numRegs, if PhysReg.mk a.1 a.2 = r then 1 else 0) = _
  split_ifs with h
  · rw [Finset.sum_eq_single (⟨r.cls, ⟨r.index, h⟩⟩ : RegId cfg.numRegs)]
    · simp
    · rintro ⟨c, i⟩ - hne
      refine if_neg fun heq => hne ?_
      subst heq
      rfl
    · intro hnot
      exact absurd (Finset.mem_univ _) hnot
  · refine Finset.sum_eq_zero fun a _ => if_neg fun heq => h ?_
    rw [← heq]
    exact a.2.isLt

theorem outside_start :
    Outside (builtWith cfg) (start cfg n regFile usableForPRE overwritten numRef) := by
  refine ⟨rfl, fun i => ⟨rfl, fun _ _ => rfl⟩, fun r => ?_, trivial, fun c => rfl⟩
  have hheld : (start cfg n regFile usableForPRE overwritten numRef).held r = 0 := by
    rw [State.held, HelperRegs.System.count_held]
    exact Finset.sum_eq_zero fun i _ => Finset.sum_eq_zero fun p _ => rfl
  have henough := cfg.enough r.cls
  rw [State.places, count_free_start, mapCount_start, hheld, builtWith]
  change _ + 0 + _ + 0 = _
  split_ifs <;> omega

end Start

theorem foldl_watch (early : Bool) (es : List (Event numRegs n)) (x : State numRegs n × (PhysReg → Nat)) :
    (es.foldl (watch early) x).1 = es.foldl (step early) x.1 := by
  induction es generalizing x with
  | nil => rfl
  | cons e es ih => exact ih (watch early x e)

/-- PHYSICAL REGISTERS STAY PARTITIONED.  In every run from the CPU's construction that keeps to the
    order `Commit::tick` arranges and meets neither of the two exceptions: outside PRE each register
    the CPU is built with is in exactly one place, and only allocated helper entries hold one; inside
    PRE no register is free twice, or free and mapped. -/
theorem registers_partitioned (early : Bool) (cfg : Config) (n : Nat) (regFile : PhysReg → RegVal)
    (usableForPRE overwritten : PhysReg → Bool) (numRef : PhysReg → Int)
    (es : List (Event cfg.numRegs n))
    (h : Trace.Admits (fun x e => legal x.1 e ∧ settled early x e) (watch early)
      (start cfg n regFile usableForPRE overwritten numRef, fun _ => 0) es)
    (s : State cfg.numRegs n)
    (hs : s = es.foldl (step early) (start cfg n regFile usableForPRE overwritten numRef)) :
    (s.inPRE = false → ∀ r, r.index < cfg.numPhys r.cls →
      s.freeList.count r + s.helpers.held.count r + mapCount s.renameMap r
        + (changedPrev s.historyBuffer).count r = 1) ∧
    (s.inPRE = true → ∀ r, s.freeList.count r ≤ 1 ∧
      (0 < s.freeList.count r → ∀ a, s.renameMap a ≠ r)) ∧
    (∀ i p r, r ∈ ((s.helpers.files i).physical p).names →
      (s.helpers.files i).allocated p = true) := by
  have hrun : Partitioned early (builtWith cfg) (es.foldl (watch early)
      (start cfg n regFile usableForPRE overwritten numRef, fun _ => 0)) := by
    refine h.invariant (Partitioned early (builtWith cfg)) (fun x e hx he => ?_)
      (Or.inl (outside_start cfg regFile usableForPRE overwritten numRef))
    rcases hx with hx | hx
    · exact hx.step (builtWith_le cfg) he.1
    · exact hx.step he.1 he.2
  have hfold := foldl_watch early es
    (start cfg n regFile usableForPRE overwritten numRef, fun _ => 0)
  rw [← hs] at hfold
  have hok : s.helpers.Ok := by
    rw [← hfold]
    exact hrun.elim (fun hx => hx.ok) (fun hx => hx.ok)
  refine ⟨fun hout r hr => ?_, fun hin r => ?_, fun i p r hmem => ?_⟩
  · rcases hrun with hx | hx
    · have hp := hx.places r
      rw [hfold, builtWith, if_pos hr] at hp
      exact hp
    · have hi := hx.inside
      rw [hfold, hout] at hi
      cases hi
  · rcases hrun with hx | hx
    · have ho := hx.out
      rw [hfold, hin] at ho
      cases ho
    · have hex := hx.live.excl r
      rw [hfold] at hex
      refine ⟨by omega, fun hpos a ha => ?_⟩
      have hmap := mapCount_pos s.renameMap a
      rw [ha] at hmap
      omega
  · by_contra ha
    have hnil := (hok i).2.names (p := p) (by simpa [HelperRegs.System.state] using ha)
    rw [show ((s.helpers.files i).physical p).names = [] from hnil] at hmem
    cases hmem

/-- One architectural and four physical integer registers. -/
def roomy : Config where
  numRegs c := if c = .Int then 1 else 0
  numPhys c := if c = .Int then 4 else 0
  enough c := by split_ifs <;> omega

/-- The CPU of `roomy` with one helper file. -/
def roomyStart : State roomy.numRegs 1 :=
  start roomy 1 (fun _ => 0) (fun _ => false) (fun _ => false) (fun _ => 0)

/-- The one architectural register renamed outside PRE, inside it with a squash, and outside it again
    with a squash, after a helper has taken a register. -/
def roomyEvents : List (Event roomy.numRegs 1) :=
  let x0 : RegId roomy.numRegs := ⟨.Int, ⟨0, by decide⟩⟩
  [.rename 1 [x0] [⟨x0, 0⟩], .enterPRE, .rename 2 [x0] [⟨x0, 0⟩], .doSquash 1, .exitPRE,
    .helper (.call ⟨0, Nat.one_pos⟩ .allocateScalar), .rename 3 [x0] [⟨x0, 0⟩], .doSquash 1]

def roomyRun : State roomy.numRegs 1 := roomyEvents.foldl (step false) roomyStart

theorem roomy_settled : Trace.Admits (fun x e => legal x.1 e ∧ settled false x e) (watch false)
    (roomyStart, fun _ => 0) roomyEvents := by
  -- no helper call between `enterPRE` and `exitPRE`
  have hheld : ((roomyEvents.take 4).foldl (step false) roomyStart).helpers.held =
      ((roomyEvents.take 1).foldl (step false) roomyStart).helpers.held := by decide +kernel
  simp only [roomyEvents, List.take_succ_cons, List.take_zero, foldl_cons, foldl_nil] at hheld
  simp only [roomyEvents, Trace.admits_cons, Trace.admits_nil, legal, settled, watch, true_and,
    and_true]
  refine ⟨fun h => absurd h Bool.false_ne_true, ⟨rfl, rfl, rfl⟩,
    fun _ => ⟨fun h => Nat.lt_irrefl 0 h.1, trivial⟩, fun _ hb hmem => ?_, ⟨rfl, fun r => ?_⟩, ?_⟩
  · obtain rfl := mem_singleton.mp hmem
    exact Nat.le_refl 1
  · exact congrArg (count r) hheld
  · exact ⟨fun h => absurd h (by decide +kernel), fun h => absurd h (by decide +kernel)⟩

/-- At the end one register is free, one is held, one is mapped and one waits in the history buffer. -/
theorem registers_partitioned_roomy : roomyRun.freeList.regs .Int = [⟨.Int, 3⟩] ∧
    roomyRun.helpers.held = [⟨.Int, 2⟩] ∧ ∀ i < 4,
      roomyRun.freeList.count ⟨.Int, i⟩ + roomyRun.helpers.held.count ⟨.Int, i⟩
        + mapCount roomyRun.renameMap ⟨.Int, i⟩
        + (changedPrev roomyRun.historyBuffer).count ⟨.Int, i⟩ = 1 := by
  have hparts := (registers_partitioned false roomy 1 (fun _ => 0) (fun _ => false) (fun _ => false)
    (fun _ => 0) roomyEvents roomy_settled roomyRun rfl).1 (by decide +kernel)
  exact ⟨by decide +kernel, by decide +kernel, fun i hi => hparts ⟨.Int, i⟩ hi⟩

/-! ## A name taken inside PRE -/

/-- One architectural and two physical integer registers. -/
def tiny : Config where
  numRegs c := if c = .Int then 1 else 0
  numPhys c := if c = .Int then 2 else 0
  enough c := by split_ifs <;> omega

/-- The CPU of `tiny` with one helper file. -/
def tinyStart : State tiny.numRegs 1 :=
  start tiny 1 (fun _ => 0) (fun _ => false) (fun _ => false) (fun _ => 0)

/-- The register a helper takes is the front of the integer queue. -/
theorem freeList_allocateScalar {u v : HelperRegs.State} {f : FreeList} {p : HelperRegs.Phys}
    (hs : u.file.shared = true) (hget : u.bank.freeList.getReg .Int = some (r, f))
    (h : u.allocateScalar = (some p, v)) : v.bank.freeList = f := by
  unfold HelperRegs.State.allocateScalar at h
  split at h
  · cases h
  · cases h
    simp only [HelperRegs.State.takeScalar, hs, if_true, HelperRegs.State.takeScalarName, hget]
    rfl

/-- A free register taken by a helper inside PRE is in two places after `exitPRE`. -/
theorem places_of_take (hcap : ∀ r, cap r ≤ 1) (h : Outside cap s) (hp : s.prdq = [])
    (he : s.executing = []) {op : HelperRegs.SystemOp n} (hfree : s.freeList.count r = 1)
    (htaken : (s.enterPRE.helpers.step op).bank.freeList.count r = 0) :
    State.places ([.enterPRE, .helper op, .exitPRE].foldl (step early) s) r = 2 := by
  have hin : Inside early cap s.enterPRE s.held := h.enterPRE hcap hp he
  have hent := entered_enterPRE h.cleared
  have hsum := free_add_held hin.ok op r
  rw [htaken, hent.free, held_congr hent.files] at hsum
  have hpl := h.places r
  have hle := hcap r
  rw [State.places] at hpl
  have hback := (hin.helper op).places_exitPRE r
  simp only [foldl_cons, foldl_nil, step]
  change _ + s.held r = cap r + (s.enterPRE.helpers.step op).held.count r at hback
  omega

/-- Nothing is held, and the one free register is taken. -/
theorem count_allocateScalar_tiny :
    (tinyStart.enterPRE.helpers.step (.call 0 .allocateScalar)).bank.freeList.count ⟨.Int, 1⟩ = 0 := by
  have hent : Entered tinyStart regClasses tinyStart.enterPRE := entered_enterPRE fun _ => rfl
  have hfile : tinyStart.enterPRE.helpers.files 0 = { shared := true } := by
    rfl
  have hone : ∀ q, tinyStart.enterPRE.freeList.count q = if q = ⟨.Int, 1⟩ then 1 else 0 := by
    rintro ⟨c, i⟩
    rw [hent.free]
    refine (count_free_start tiny _ _ _ _ ⟨c, i⟩).trans ?_
    cases c <;> simp [tiny]
    exact if_congr ⟨fun hi => by omega, fun hi => by omega⟩ rfl rfl
  generalize tinyStart.enterPRE = s at hfile hone ⊢
  have hq := hone ⟨.Int, 1⟩
  rw [if_pos rfl] at hq
  cases hget : s.freeList.getReg .Int with
  | none =>
    cases hregs : s.freeList.regs .Int with
    | nil =>
      rw [FreeList.count, hregs] at hq
      cases hq
    | cons r rest =>
      obtain ⟨g, hg, -⟩ := getReg_cons hregs
      rw [hg] at hget
      cases hget
  | some res =>
    obtain ⟨r, f⟩ := res
    have hr := getReg_count hget r
    have hcount := getReg_count hget ⟨.Int, 1⟩
    have hval := hone r
    rw [if_pos rfl] at hr
    have hreg : r = ⟨.Int, 1⟩ := by
      by_contra hne
      rw [if_neg hne] at hval
      omega
    have hal : ∀ p : HelperRegs.Phys, (s.helpers.state 0).file.allocated p = decide (p.val < 0) := by
      intro p
      change (s.helpers.files 0).allocated p = _
      rw [hfile]
      simp
    obtain ⟨t, ht⟩ := HelperRegs.allocateScalar_first (by omega) hal
    have hfree := freeList_allocateScalar (show (s.helpers.files 0).shared = true by rw [hfile])
      hget ht
    change ((s.helpers.state 0).allocateScalar.2).bank.freeList.count ⟨.Int, 1⟩ = 0
    rw [ht, hfree]
    omega

/-- A helper takes the free register inside PRE; at `exitPRE` it is both held and free. -/
theorem helper_take_in_PRE_duplicates : Trace.Admits legal (step false) tinyStart
      [.enterPRE, .helper (.call 0 .allocateScalar), .exitPRE] ∧
    State.places ([.enterPRE, .helper (.call 0 .allocateScalar), .exitPRE].foldl (step false)
      tinyStart) ⟨.Int, 1⟩ = 2 := by
  constructor
  · simp only [Trace.admits_cons, Trace.admits_nil, legal, step, and_true, true_and]
    exact ⟨⟨rfl, rfl, rfl⟩, rfl⟩
  · refine places_of_take (builtWith_le tiny) (outside_start tiny _ _ _ _) rfl rfl ?_
      count_allocateScalar_tiny
    exact count_free_start tiny _ _ _ _ ⟨.Int, 1⟩

end Gem5Dvr.Rename
