/-
  Which lines the tracker holds prefetched, and how it counts the unused ones
  (`cpu/o3/dvr_quality.cc` 114-186 behind `mem/cache/base.cc` 651-758 and 1637-1844).

  Provenance lives twice: in the flag `_dvrPrefetched` of a block of the tags, and in the map
  `prefetched` of the tracker.  The two are written by different events:

    * a fill of the tags sets or clears the flag, and its Fill enters or erases the line;
    * an eviction reports a Remove, and again names the line as a VICTIM of the Fill that follows;
    * the temporary block, never flagged, reports Removes and no Fill.

  1. **The books (`Books`)** — the use that the tracker has for a line is what its stay says: a stay
     that a DVR fill began and no other fill took over.  The victims of a Fill have left before it
     is reported, so that the second report finds nothing.

  2. **The crux (`Upgrading`)** — a DVR fill of a block that is THERE would flag a stay that another
     request began.  It cannot happen: the MSHR of a resident line leads with a target that needs a
     writable block, and DVR requests are reads.

  A stay that a demand write takes over by an upgrade is no longer the prefetcher's: its end is not
  counted, used or not (`upgraded_not_counted`).
-/
import Gem5Dvr.L1Outstanding

namespace Gem5Dvr.L1

open List Function

open Quality (Line Time RequestId FillOrigin Geometry Tracker)

variable {g : Geometry}

/-! ## The tracker's prefetched lines -/

/-- Whether a prefetched line was used; `none` for a line that is not prefetched. -/
def useOf (t : Tracker g) (line : Line) : Option Bool := (t.prefetched.lookup line).map (·.used)

/-- A report that touches no prefetched line. -/
def SameUse (t t' : Tracker g) : Prop :=
  useOf t' = useOf t ∧ t'.counts.unusedEvictions = t.counts.unusedEvictions

theorem SameUse.trans {t t' t'' : Tracker g} (h : SameUse t t') (h' : SameUse t' t'') :
    SameUse t t'' := ⟨h'.1.trans h.1, h'.2.trans h.2⟩

section tracker

variable (t : Tracker g)

theorem useOf_erase {prefetched : AList (fun _ : Line => Quality.PrefetchedLine)} (line : Line)
    (h : prefetched = t.prefetched.erase line) (l : Line) :
    (prefetched.lookup l).map (·.used) = update (useOf t) line none l := by
  subst h
  by_cases hl : l = line
  · subst hl
    rw [AList.lookup_erase, update_self]
    rfl
  · rw [AList.lookup_erase_ne hl, update_of_ne hl]
    rfl

theorem useOf_insert {prefetched : AList (fun _ : Line => Quality.PrefetchedLine)} (line : Line)
    {p : Quality.PrefetchedLine} (h : prefetched = t.prefetched.insert line p) (l : Line) :
    (prefetched.lookup l).map (·.used) = update (useOf t) line (some p.used) l := by
  subst h
  by_cases hl : l = line
  · subst hl
    rw [AList.lookup_insert, update_self]
    rfl
  · rw [AList.lookup_insert_ne hl, update_of_ne hl]
    rfl

/-- A line that leaves is counted when it was prefetched and not used. -/
theorem leave_spec (line : Line) : useOf (t.leave line) = update (useOf t) line none ∧
      (t.leave line).counts.unusedEvictions =
        t.counts.unusedEvictions + if useOf t line = some false then 1 else 0 := by
  unfold Tracker.leave
  cases hl : t.prefetched.lookup line with
  | none =>
    have hnone : useOf t line = none := by
      unfold useOf
      rw [hl]
      rfl
    refine ⟨?_, by rw [hnone]; rfl⟩
    rw [← hnone, update_eq_self]
  | some p =>
    have hsome : useOf t line = some p.used := by
      unfold useOf
      rw [hl]
      rfl
    refine ⟨funext fun l => useOf_erase t line rfl l, ?_⟩
    rw [hsome]
    show (if p.used = true then _ else _) = _
    cases p.used <;> rfl

/-- A line that is not prefetched leaves nothing behind. -/
theorem leave_same {line : Line} (h : useOf t line = none) : SameUse t (t.leave line) := by
  obtain ⟨huse, hcount⟩ := leave_spec t line
  refine ⟨?_, ?_⟩
  · rw [huse, ← h, update_eq_self]
  · rw [hcount, h]
    rfl

theorem cacheRemove_spec (line : Line) (origin : FillOrigin) :
    SameUse (if origin = .DVR then t.leave line else t) (t.cacheRemove line origin) :=
  ⟨rfl, rfl⟩

theorem evict_same (origin : FillOrigin) {victim : Line} (victim_origin : FillOrigin)
    (h : useOf t victim = none) :
    SameUse t (t.evict origin victim victim_origin) ∧
      (t.evict origin victim victim_origin).lateReported = t.lateReported := by
  have hleave := leave_same t h
  have hlate : (t.leave victim).lateReported = t.lateReported := by
    unfold Tracker.leave
    cases t.prefetched.lookup victim <;> rfl
  unfold Tracker.evict
  dsimp only
  split_ifs
  · exact ⟨hleave, hlate⟩
  · exact ⟨hleave, hlate⟩

/-- What the tracker has for a line after a fill. -/
def useAfterFill (line : Line) : FillOrigin → Option Bool
  | .DVR => some ((useOf t line).getD (decide (line ∈ t.lateReported)))
  | .Demand => none

theorem install_spec (line : Line) (origin : FillOrigin) (now : Time) :
    useOf (t.install line origin now) = update (useOf t) line (useAfterFill t line origin) ∧
      (t.install line origin now).counts.unusedEvictions = t.counts.unusedEvictions := by
  cases origin with
  | Demand => exact ⟨funext fun l => useOf_erase t line rfl l, rfl⟩
  | DVR =>
    unfold Tracker.install useAfterFill
    dsimp only
    cases hl : t.prefetched.lookup line with
    | none =>
      have hnone : useOf t line = none := by
        unfold useOf
        rw [hl]
        rfl
      rw [hnone]
      have hno : ¬ (AList.lookup line t.prefetched).isSome = true := by
        rw [hl]
        exact Bool.noConfusion
      split_ifs with hsome
      · exact absurd hsome hno
      · exact ⟨funext fun l => useOf_insert t line rfl l, rfl⟩
    | some p =>
      have hsome : useOf t line = some p.used := by
        unfold useOf
        rw [hl]
        rfl
      have hyes : (AList.lookup line t.prefetched).isSome = true := by
        rw [hl]
        rfl
      rw [hsome, Option.getD_some, ← hsome, update_eq_self]
      split_ifs with hno
      · exact ⟨rfl, rfl⟩
      · exact absurd hyes hno

theorem charge_same (line : Line) (hit shadow_hit : Bool) :
    SameUse t (t.charge line hit shadow_hit) := by
  unfold Tracker.charge
  split_ifs
  · exact ⟨rfl, rfl⟩
  · exact ⟨rfl, rfl⟩

/-- What the tracker has for a line after a demand lookup. -/
def useAfterLookup (line : Line) (hit : Bool) : Option Bool :=
  (useOf t line).map fun used => used || hit

/-- A demand lookup that hits marks a prefetched line used; the rest of it counts. -/
theorem credit_spec (line : Line) (hit shadow_hit : Bool) (now : Time) :
    useOf (t.credit line hit shadow_hit now) = update (useOf t) line (useAfterLookup t line hit) ∧
      (t.credit line hit shadow_hit now).counts.unusedEvictions = t.counts.unusedEvictions := by
  -- a late prefetch is counted and remembered, and nothing more
  have hlate : ∀ c : Bool, SameUse t (if c = true then
      { t with lateReported := insert line t.lateReported }.count fun c =>
        { c with usefulLate := c.usefulLate + 1 } else t) := by
    intro c
    cases c
    · exact ⟨rfl, rfl⟩
    · exact ⟨rfl, rfl⟩
  have hstay : useAfterLookup t line hit = useOf t line →
      update (useOf t) line (useAfterLookup t line hit) = useOf t := by
    intro h
    rw [h, update_eq_self]
  unfold Tracker.credit
  cases hl : t.prefetched.lookup line with
  | none =>
    have hnone : useOf t line = none := by
      unfold useOf
      rw [hl]
      rfl
    rw [hstay (by rw [useAfterLookup, hnone]; rfl)]
    exact hlate _
  | some p =>
    have hsome : useOf t line = some p.used := by
      unfold useOf
      rw [hl]
      rfl
    have hafter : useAfterLookup t line hit = some (p.used || hit) := by
      rw [useAfterLookup, hsome]
      rfl
    dsimp only
    by_cases huse : (hit && !p.used) = true
    · rw [if_pos huse]
      rw [Bool.and_eq_true] at huse
      rw [hafter, huse.1, Bool.or_true]
      exact ⟨funext fun l => useOf_insert t line rfl l, rfl⟩
    · rw [if_neg huse]
      have hsame : (p.used || hit) = p.used := by
        cases hu : p.used with
        | true => rfl
        | false => simpa [hu] using huse
      rw [hstay (by rw [hafter, hsame, hsome])]
      exact hlate _

theorem demandLookup_spec (line : Line) (hit : Bool) (now : Time) :
    useOf (t.demandLookup line hit now) = update (useOf t) line (useAfterLookup t line hit) ∧
      (t.demandLookup line hit now).counts.unusedEvictions = t.counts.unusedEvictions := by
  have hcredit := credit_spec (t.look line hit).1 line hit (t.look line hit).2 now
  have hcharge := charge_same ((t.look line hit).1.credit line hit (t.look line hit).2 now) line hit
    (t.look line hit).2
  exact ⟨hcharge.1.trans hcredit.1, hcharge.2.trans hcredit.2⟩

theorem issued_same (id : RequestId) (line : Line) (bytes : BitVec 64) (now : Time) :
    SameUse t (t.issued id line bytes now).1 := by
  unfold Tracker.issued
  split_ifs
  · exact ⟨rfl, rfl⟩
  · exact ⟨rfl, rfl⟩

theorem completedAll_same (ids : List RequestId) : SameUse t (t.completedAll ids).1 := by
  induction ids generalizing t with
  | nil => exact ⟨rfl, rfl⟩
  | cons id ids ih =>
    have hone : SameUse t (t.completed id).1 := by
      unfold Tracker.completed
      cases t.outstanding.lookup id <;> exact ⟨rfl, rfl⟩
    rw [Tracker.completedAll]
    cases hc : t.completed id with
    | mk t' thrown =>
      rw [hc] at hone
      cases thrown with
      | none => exact hone.trans (ih t')
      | some e => exact hone

end tracker

/-! ## The books -/

/-- The stay is the prefetcher's: a DVR fill began it and no other fill took it over. -/
def Residence.owned (r : Residence) : Bool := r.dvr && !r.refilled

/-- What the tracker has for the line of a stay. -/
def Residence.due (r : Residence) : Option Bool := if r.owned then some r.touched else none

/-- The stay is counted when it ends. -/
def Residence.unused (r : Residence) : Bool := r.owned && !r.touched

theorem Residence.due_eq (r : Residence) : r.due = some false ↔ r.unused = true := by
  unfold due unused
  cases r.owned <;> simp

/-- The tracker, the flags of the blocks and the stays tell the same. -/
structure Books (s : System g) : Prop where
  used : ∀ line, useOf s.audit.tracker line = (s.residence line).bind Residence.due
  flags : ∀ line, (s.tags line).map CacheBlk.dvrPrefetched = (s.residence line).map Residence.owned
  temp : ∀ b, s.tempBlock = some b → b.dvrPrefetched = false
  counted : s.audit.tracker.counts.unusedEvictions = s.past.countP Residence.unused

namespace Books

variable {s : System g}

/-- A report that touches no prefetched line. -/
theorem of_sameUse (h : Books s) {a : Quality.Audit g}
    (ha : SameUse s.audit.tracker a.tracker) : Books { s with audit := a } where
  used := fun line => by rw [← h.used line]; exact congrFun ha.1 line
  flags := h.flags
  temp := h.temp
  counted := ha.2.trans h.counted

theorem flag_eq (h : Books s) {line : Line} {b : CacheBlk} (hb : s.tags line = some b) :
    ∃ r, s.residence line = some r ∧ r.owned = b.dvrPrefetched := by
  have hflags := h.flags line
  rw [hb] at hflags
  obtain ⟨r, hr, howned⟩ := Option.map_eq_some_iff.mp hflags.symm
  exact ⟨r, hr, howned⟩

theorem residence_none (h : Books s) {line : Line} (hb : s.tags line = none) :
    s.residence line = none := by
  have hflags := h.flags line
  rw [hb] at hflags
  exact Option.map_eq_none_iff.mp hflags.symm

theorem used_none (h : Books s) {line : Line} (hb : s.tags line = none) :
    useOf s.audit.tracker line = none := by
  rw [h.used, h.residence_none hb]
  rfl

/-- A change of a block that keeps its flag. -/
theorem mapBlk (h : Books s) (p : Place) {f : CacheBlk → CacheBlk}
    (hf : ∀ b, (f b).dvrPrefetched = b.dvrPrefetched) : Books (s.mapBlk p f) := by
  have hmap : ∀ o : Option CacheBlk,
      (o.map f).map CacheBlk.dvrPrefetched = o.map CacheBlk.dvrPrefetched := by
    intro o
    cases o with
    | none => rfl
    | some b => exact congrArg some (hf b)
  unfold System.mapBlk System.setBlk System.blk
  split_ifs
  · refine ⟨h.used, h.flags, fun b hb => ?_, h.counted⟩
    obtain ⟨b', hb', rfl⟩ := Option.map_eq_some_iff.mp hb
    rw [hf]
    exact h.temp b' hb'
  · refine ⟨h.used, fun line => ?_, h.temp, h.counted⟩
    rw [← h.flags line]
    by_cases hl : line = p.line
    · subst hl
      show (update s.tags p.line _ p.line).map _ = _
      rw [update_self]
      exact hmap _
    · show (update s.tags p.line _ line).map _ = _
      rw [update_of_ne hl]

end Books

theorem tracker_remove (s : System g) (now : Time) (line : Line) (origin : Origin) :
    (s.notify now (.Remove line origin)).audit.tracker =
      s.audit.tracker.cacheRemove line (toFillOrigin origin) :=
  tracker_step s.audit (.cacheRemove line (toFillOrigin origin))

theorem CacheBlk.toFillOrigin_origin (b : CacheBlk) :
    toFillOrigin b.origin = .DVR ↔ b.dvrPrefetched = true := by
  unfold CacheBlk.origin
  cases b.dvrPrefetched <;> cases b.prefetched <;> simp [toFillOrigin]

/-- What leaves is the line's stay, whoever reports it. -/
theorem cacheRemove_leaves (t : Tracker g) (line : Line) (origin : FillOrigin)
    (h : origin ≠ .DVR → useOf t line = none) :
    SameUse (t.leave line) (t.cacheRemove line origin) := by
  have hremove := cacheRemove_spec t line origin
  by_cases ho : origin = .DVR
  · rw [if_pos ho] at hremove
    exact hremove
  · rw [if_neg ho] at hremove
    obtain ⟨huse, hcount⟩ := leave_same t (h ho)
    exact ⟨hremove.1.trans huse.symm, hremove.2.trans hcount.symm⟩

theorem invalidateBlock_temp {s : System g} (now : Time) (line : Line) {b : CacheBlk}
    (hb : s.tempBlock = some b) :
    s.invalidateBlock now ⟨line, true⟩ =
      { s.notify now (.Remove line b.origin) with tempBlock := none } := by
  have hblk : s.blk ⟨line, true⟩ = some b := hb
  unfold System.invalidateBlock
  rw [hblk]
  rfl

theorem invalidateBlock_tags {s : System g} (now : Time) (line : Line) {b : CacheBlk}
    {r : Residence} (hb : s.tags line = some b) (hr : s.residence line = some r) :
    s.invalidateBlock now ⟨line, false⟩ = { s.notify now (.Remove line b.origin) with
        tags := update s.tags line none
        residence := update s.residence line none
        past := r :: s.past } := by
  have hblk : s.blk ⟨line, false⟩ = some b := hb
  unfold System.invalidateBlock System.endResidence
  rw [hblk]
  simp only [Bool.false_eq_true, if_false, System.residence_setBlk, System.residence_notify, hr]
  rfl

/-- The end of a stay: the block, the stay and the tracker's entry go, and an unused stay is
    counted. -/
theorem Books.invalidateBlock {s : System g} (h : Books s) (now : Time) (p : Place) :
    Books (s.invalidateBlock now p) := by
  obtain ⟨line, temp⟩ := p
  cases temp with
  | true =>
    cases hb : s.tempBlock with
    | none =>
      have hblk : s.blk ⟨line, true⟩ = none := hb
      unfold System.invalidateBlock
      rw [hblk]
      exact h
    | some b =>
      -- the temporary block is not flagged, and the tags are as they were
      have hflag : ¬ toFillOrigin b.origin = .DVR := by
        rw [CacheBlk.toFillOrigin_origin, h.temp b hb]
        exact Bool.false_ne_true
      have hsame := cacheRemove_spec s.audit.tracker line (toFillOrigin b.origin)
      rw [if_neg hflag, ← tracker_remove s now] at hsame
      have hafter := h.of_sameUse hsame
      rw [invalidateBlock_temp now line hb]
      exact ⟨hafter.used, hafter.flags, fun b hb => absurd hb (by simp), hafter.counted⟩
  | false =>
    cases hb : s.tags line with
    | none =>
      have hblk : s.blk ⟨line, false⟩ = none := hb
      unfold System.invalidateBlock
      rw [hblk]
      exact h
    | some b =>
      obtain ⟨r, hr, howned⟩ := h.flag_eq hb
      have hline : useOf s.audit.tracker line = r.due := by
        rw [h.used, hr]
        rfl
      have hleaves : SameUse (s.audit.tracker.leave line)
          (s.audit.tracker.cacheRemove line (toFillOrigin b.origin)) := by
        apply cacheRemove_leaves
        intro ho
        rw [hline, Residence.due, howned, if_neg]
        exact fun hdvr => ho (b.toFillOrigin_origin.mpr hdvr)
      rw [← tracker_remove s now] at hleaves
      obtain ⟨huse, hcount⟩ := leave_spec s.audit.tracker line
      rw [invalidateBlock_tags now line hb hr]
      refine ⟨fun l => ?_, fun l => ?_, h.temp, ?_⟩
      · show useOf (s.notify now (.Remove line b.origin)).audit.tracker l = _
        rw [hleaves.1, huse]
        by_cases hl : l = line
        · subst hl
          simp only [update_self]
          rfl
        · simp only [update_of_ne hl]
          exact h.used l
      · by_cases hl : l = line
        · subst hl
          simp only [update_self]
          rfl
        · simp only [update_of_ne hl]
          exact h.flags l
      · show (s.notify now (.Remove line b.origin)).audit.tracker.counts.unusedEvictions = _
        rw [hleaves.2, hcount, h.counted, hline, countP_cons]
        simp only [Residence.due_eq]

theorem Books.evictAll {s : System g} (h : Books s) (now : Time) (victims : List Line) :
    Books (s.evictAll now victims) :=
  List.foldlRecOn victims _ h fun _ h' _ _ => h'.invalidateBlock now _

/-- Every victim is gone. -/
theorem tags_evictAll_of_mem {s : System g} (now : Time) {line : Line} {victims : List Line}
    (h : line ∈ victims) : (s.evictAll now victims).tags line = none := by
  induction victims generalizing s with
  | nil => exact absurd h not_mem_nil
  | cons v vs ih =>
    show ((s.invalidateBlock now { line := v }).evictAll now vs).tags line = none
    rcases mem_cons.mp h with rfl | hvs
    · apply System.tags_evictAll_of_none
      rw [System.tags_invalidateBlock, update_self]
    · exact ih hvs

/-! ### Fills -/

/-- The report of a further victim, which has left. -/
theorem removes_same (victims : List Victim) (a : Quality.Audit g)
    (h : ∀ v ∈ victims, useOf a.tracker v.line = none) :
    SameUse a.tracker ((victims.map fun v =>
      Quality.Event.cacheRemove v.line (toFillOrigin v.origin)).foldl Quality.step a).tracker := by
  induction victims generalizing a with
  | nil => exact ⟨rfl, rfl⟩
  | cons v vs ih =>
    have hnone := h v mem_cons_self
    have hone : SameUse a.tracker
        (Quality.step a (.cacheRemove v.line (toFillOrigin v.origin))).tracker := by
      exact (leave_same a.tracker hnone).trans
        (cacheRemove_leaves a.tracker v.line (toFillOrigin v.origin) fun _ => hnone)
    refine hone.trans (ih _ fun w hw => ?_)
    rw [congrFun hone.1]
    exact h w (mem_cons_of_mem v hw)

theorem fill_victim_spec (t : Tracker g) (line : Line) (origin : FillOrigin) (now : Time)
    {victim : Line} (victim_origin : FillOrigin) (h : useOf t victim = none) :
    useOf (t.cacheFill line origin now (some victim) (some victim_origin)).1 =
        update (useOf t) line (useAfterFill t line origin) ∧
      (t.cacheFill line origin now (some victim) (some victim_origin)).1.counts.unusedEvictions =
        t.counts.unusedEvictions := by
  obtain ⟨hevict, hlate⟩ := evict_same t origin victim_origin h
  obtain ⟨huse, hcount⟩ := install_spec (t.evict origin victim victim_origin) line origin now
  have hafter : useAfterFill (t.evict origin victim victim_origin) line origin =
      useAfterFill t line origin := by
    cases origin with
    | Demand => rfl
    | DVR => rw [useAfterFill, useAfterFill, hevict.1, hlate]
  rw [hafter, hevict.1] at huse
  exact ⟨huse, hcount.trans hevict.2⟩

/-- The Fill of a line whose victims have left. -/
theorem fillEvent_spec (s : System g) (now : Time) (line : Line) (origin : Origin)
    {victims : List Victim} (hgone : ∀ v ∈ victims, useOf s.audit.tracker v.line = none)
    (hother : ∀ v ∈ victims, v.line ≠ line) :
    useOf (s.notify now (.Fill line origin victims)).audit.tracker =
        update (useOf s.audit.tracker) line
          (useAfterFill s.audit.tracker line (toFillOrigin origin)) ∧
      (s.notify now (.Fill line origin victims)).audit.tracker.counts.unusedEvictions =
        s.audit.tracker.counts.unusedEvictions := by
  -- the completion of the line's requests, at the end
  have hend : ∀ a : Quality.Audit g, SameUse a.tracker
      ((if origin = Origin.DVR then [Quality.Event.completedLine line] else []).foldl
        Quality.step a).tracker := by
    intro a
    split_ifs
    · rw [foldl_cons, foldl_nil, tracker_step]
      exact completedAll_same a.tracker _
    · exact ⟨rfl, rfl⟩
  unfold System.notify System.reports
  cases victims with
  | nil =>
    have hinstall := install_spec s.audit.tracker line (toFillOrigin origin) now
    have hlast := hend (Quality.step s.audit (.cacheFill line (toFillOrigin origin) now none none))
    exact ⟨hlast.1.trans hinstall.1, hlast.2.trans hinstall.2⟩
  | cons v vs =>
    have hfill := fill_victim_spec s.audit.tracker line (toFillOrigin origin) now
      (toFillOrigin v.origin) (hgone v mem_cons_self)
    have hrest : ∀ w ∈ vs, useOf (Quality.step s.audit (.cacheFill line (toFillOrigin origin) now
        (some v.line) (some (toFillOrigin v.origin)))).tracker w.line = none := by
      intro w hw
      have hmem := mem_cons_of_mem v hw
      refine (congrFun hfill.1 w.line).trans ?_
      rw [update_of_ne (hother w hmem)]
      exact hgone w hmem
    have hlast := (removes_same vs _ hrest).trans (hend _)
    rw [foldl_append, foldl_cons]
    exact ⟨hlast.1.trans hfill.1, hlast.2.trans hfill.2⟩

/-- The victims of a Fill have left, and the filled line is none of them. -/
theorem Books.victims_gone {s : System g} (h : Books s) (now : Time) (line : Line)
    (r : Response) {v : Victim} (hv : v ∈ s.dvrFillVictims (s.fillEvicts line r)) :
    useOf (s.evictAll now (s.fillEvicts line r)).audit.tracker v.line = none ∧ v.line ≠ line := by
  obtain ⟨l, hl, hvl⟩ := mem_filterMap.mp hv
  obtain ⟨b, hb, rfl⟩ := Option.map_eq_some_iff.mp hvl
  refine ⟨(h.evictAll now _).used_none (tags_evictAll_of_mem now hl), ?_⟩
  rintro rfl
  unfold System.fillEvicts at hl
  rw [hb] at hl
  exact absurd hl not_mem_nil

/-- The stay of a line after a fill is the prefetcher's just when the fill was, and the tracker has
    for it what it should. -/
theorem Books.recorded {s : System g} (h : Books s) (line : Line) {origin : Origin}
    (hnew : origin = .DVR → s.tags line = none) :
    ∃ r, (s.recordFill line origin).residence = update s.residence line (some r) ∧
      r.owned = (origin == .DVR) ∧
      r.due = useAfterFill s.audit.tracker line (toFillOrigin origin) := by
  refine ⟨_, rfl, ?_⟩
  by_cases ho : origin = .DVR
  · subst ho
    have hnone := h.residence_none (hnew rfl)
    have huse := h.used_none (hnew rfl)
    simp only [hnone]
    refine ⟨rfl, ?_⟩
    show some (decide _) = some ((useOf s.audit.tracker line).getD _)
    rw [huse]
    rfl
  · have hno : (origin == .DVR) = false := beq_eq_false_iff_ne.mpr ho
    have hdemand : toFillOrigin origin = .Demand := by
      cases origin with
      | DVR => exact absurd rfl ho
      | Demand => rfl
      | OtherPrefetch => rfl
    rw [hdemand, hno]
    cases s.residence line with
    | none => exact ⟨rfl, rfl⟩
    | some r =>
      have howned : Residence.owned { r with refilled := r.refilled || !false } = false := by
        simp [Residence.owned]
      exact ⟨howned, by rw [Residence.due, howned]; rfl⟩

/-- A fill of the tags: a new stay, or one that goes on; a DVR fill only begins stays. -/
theorem Books.fillTags {s : System g} (h : Books s) (now : Time) (line : Line) {origin : Origin}
    (r : Response) (hnew : origin = .DVR → s.tags line = none) :
    Books (s.fillTags now line origin r) := by
  have hevicted := h.evictAll now (s.fillEvicts line r)
  have hnew' : origin = .DVR → (s.evictAll now (s.fillEvicts line r)).tags line = none := by
    intro ho
    rw [s.tags_fillEvicts]
    exact hnew ho
  obtain ⟨stay, hstay, howned, hdue⟩ := hevicted.recorded line hnew'
  obtain ⟨huse, hcount⟩ := fillEvent_spec
    (((s.evictAll now (s.fillEvicts line r)).setBlk ⟨line, false⟩
      (some { System.filled r ((s.tags line).getD {}) with dvrPrefetched := origin == .DVR })
      ).recordFill line origin) now line origin
    (fun v hv => (h.victims_gone now line r hv).1) (fun v hv => (h.victims_gone now line r hv).2)
  have hresidence : (s.fillTags now line origin r).residence = update
      (s.evictAll now (s.fillEvicts line r)).residence line (some stay) := hstay
  refine ⟨fun l => ?_, fun l => ?_, hevicted.temp, hcount.trans hevicted.counted⟩
  · rw [hresidence]
    refine (congrFun huse l).trans ?_
    by_cases hl : l = line
    · subst hl
      simp only [update_self, Option.bind_some]
      exact hdue.symm
    · simp only [update_of_ne hl]
      exact hevicted.used l
  · rw [hresidence]
    show (update (s.evictAll now (s.fillEvicts line r)).tags line _ l).map _ = _
    by_cases hl : l = line
    · subst hl
      simp only [update_self, Option.map_some, howned]
    · simp only [update_of_ne hl]
      exact hevicted.flags l

/-- A fill of the temporary block leaves the books alone. -/
theorem Books.fill {s : System g} (h : Books s) (now : Time) (line : Line) {origin : Origin}
    (r : Response) (hnew : origin = .DVR → s.tags line = none) :
    Books (s.fill now line origin r) := by
  unfold System.fill
  split_ifs
  · refine ⟨h.used, h.flags, fun b hb => ?_, h.counted⟩
    rw [← Option.some.inj hb]
    rfl
  · exact h.fillTags now line r hnew

/-! ### Requests, snoops and the service of targets -/

section parts

variable {s : System g} (now : Time)

theorem Books.setMSHR (h : Books s) (line : Line) (m : Option MSHR) : Books (s.setMSHR line m) :=
  ⟨h.used, h.flags, h.temp, h.counted⟩

theorem Books.snoopBlk (h : Books s) (p : Place) (snoop : Snoop) :
    Books (s.snoopBlk now p snoop) := by
  unfold System.snoopBlk
  split_ifs
  · exact h.invalidateBlock now p
  · exact h
  · exact h.mapBlk p fun _ => rfl

theorem Books.serveSnoops (h : Books s) (p : Place) (served : List Target) :
    Books (System.serveSnoops now p served s) := by
  induction served generalizing s with
  | nil => exact h
  | cons t ts ih =>
    cases t with
    | FromCPU pkt => exact ih h
    | FromPrefetcher => exact ih h
    | FromSnoop snoop => exact ih (h.snoopBlk now p snoop)

theorem Books.serviceMSHRTargets (h : Books s) (p : Place) (cmd : RespCmd) (m : MSHR)
    (served : List Target) : Books (s.serviceMSHRTargets now p cmd m served) := by
  have hmarked : Books ((System.serveSnoops now p served s).markPrefetched p served) := by
    unfold System.markPrefetched
    split_ifs
    · exact (h.serveSnoops now p served).mapBlk p fun _ => rfl
    · exact h.serveSnoops now p served
  unfold System.serviceMSHRTargets System.settle
  split_ifs
  · exact hmarked.invalidateBlock now p
  · exact hmarked.mapBlk p fun _ => rfl
  · exact hmarked

theorem Books.finishMSHR (h : Books s) (line : Line) (p : Place) (left : List Target) :
    Books (s.finishMSHR line p left) := by
  unfold System.finishMSHR
  split_ifs
  · exact h.setMSHR line none
  · have hmap : Books (s.mapBlk p fun b => { b with readable := false }) := h.mapBlk p fun _ => rfl
    exact hmap.setMSHR line _

/-- A response keeps the books when it fills no resident block for a DVR request. -/
theorem Books.recvTimingResp (h : Books s) (line : Line) {m : MSHR} (r : Response)
    (hnew : m.origin = .DVR → s.tags line = none) : Books (s.recvTimingResp now line m r) := by
  have hfilled : Books (s.fillStep now line m r) := by
    unfold System.fillStep
    split_ifs
    · exact h.fill now line r hnew
    · exact h
  have hserved : Books (s.serve now line m r) := hfilled.serviceMSHRTargets now _ _ _ _
  unfold System.recvTimingResp
  dsimp only
  split_ifs
  · exact (hserved.finishMSHR line _ _).invalidateBlock now _
  · exact hserved.finishMSHR line _ _

theorem tracker_lookup (s : System g) (line : Line) (hit : Bool) :
    (s.notify now (.DemandLookup line hit)).audit.tracker =
      s.audit.tracker.demandLookup line hit now :=
  tracker_step s.audit (.demandLookup line hit now)

theorem Books.lookup_miss (h : Books s) (line : Line) :
    Books (s.notify now (.DemandLookup line false)) := by
  apply h.of_sameUse
  obtain ⟨huse, hcount⟩ := demandLookup_spec s.audit.tracker line false now
  have hsame : useAfterLookup s.audit.tracker line false = useOf s.audit.tracker line := by
    unfold useAfterLookup
    cases useOf s.audit.tracker line <;> simp
  rw [hsame, update_eq_self] at huse
  have htracker := tracker_lookup now s line false
  exact ⟨(congrArg useOf htracker).trans huse,
    (congrArg (·.counts.unusedEvictions) htracker).trans hcount⟩

/-- A demand lookup that hits touches the stay of the line. -/
theorem Books.lookup_hit (h : Books s) (line : Line) :
    Books ((s.notify now (.DemandLookup line true)).touch line) := by
  obtain ⟨huse, hcount⟩ := demandLookup_spec s.audit.tracker line true now
  rw [← tracker_lookup now s] at huse hcount
  refine ⟨fun l => ?_, fun l => ?_, h.temp, hcount.trans h.counted⟩
  · show useOf (s.notify now (.DemandLookup line true)).audit.tracker l =
      (update s.residence line _ l).bind Residence.due
    rw [huse]
    by_cases hl : l = line
    · subst hl
      simp only [update_self, useAfterLookup, h.used, System.residence_notify]
      cases s.residence l with
      | none => rfl
      | some r =>
        show r.due.map _ = Residence.due { r with touched := true }
        unfold Residence.due Residence.owned
        split_ifs
        · exact congrArg some (Bool.or_true _)
        · rfl
    · simp only [update_of_ne hl]
      exact h.used l
  · show (s.tags l).map _ = (update s.residence line _ l).map Residence.owned
    rw [h.flags]
    by_cases hl : l = line
    · subst hl
      rw [update_self, System.residence_notify]
      cases s.residence l <;> rfl
    · rw [update_of_ne hl]

/-- The reports about requests touch no line. -/
theorem Books.issue (h : Books s) (line : Line) : Books (s.notify now (.Issue line)) := by
  have hsame := issued_same s.audit.tracker s.nextRequestId line 0 now
  exact ⟨fun l => (congrFun hsame.1 l).trans (h.used l), h.flags, h.temp, hsame.2.trans h.counted⟩

theorem Books.complete (h : Books s) (line : Line) : Books (s.notify now (.Complete line)) := by
  have hsame := completedAll_same s.audit.tracker
    ((s.audit.tracker.outstandingByLine.filter (·.1 == line)).map (·.2))
  exact ⟨fun l => (congrFun hsame.1 l).trans (h.used l), h.flags, h.temp, hsame.2.trans h.counted⟩

theorem Books.handleTimingReqMiss (h : Books s) (pkt : Packet) :
    Books (s.handleTimingReqMiss pkt) := by
  unfold System.handleTimingReqMiss
  by_cases hu : pkt.uncacheable = true
  · rw [if_pos hu]
    split_ifs
    · exact h
    · exact ⟨h.used, h.flags, h.temp, h.counted⟩
  · rw [if_neg hu]
    cases s.mshrs pkt.line with
    | some m =>
      split_ifs
      · exact h
      · exact h.setMSHR pkt.line _
    | none =>
      have hmap : Books (s.mapBlk { line := pkt.line } fun b => { b with readable := false }) :=
        h.mapBlk _ fun _ => rfl
      exact hmap.setMSHR pkt.line _

/-- A part of a step that is taken or not. -/
theorem Books.optional (h : Books s) {c : Prop} [Decidable c] {s' : System g} (h' : Books s') :
    Books (if c then s' else s) := by
  split_ifs
  · exact h'
  · exact h

theorem Books.recvTimingReq (h : Books s) (prefetcher : Bool) (pkt : Packet) :
    Books (s.recvTimingReq prefetcher now pkt) := by
  have hissued := h.optional (c := pkt.isDVRPrefetch = true) (h.issue now pkt.line)
  have hflushed := hissued.optional (c := pkt.uncacheable = true)
    (hissued.invalidateBlock now { line := pkt.line })
  unfold System.recvTimingReq
  by_cases hit : s.satisfied pkt = true
  · rw [if_pos hit]
    have hcompleted := hflushed.optional (c := pkt.isDVRPrefetch = true)
      (hflushed.complete now pkt.line)
    have hlooked := hcompleted.optional (c := pkt.kind = .demand)
      (hcompleted.lookup_hit now pkt.line)
    exact hlooked.optional (hlooked.mapBlk _ fun _ => rfl)
  · rw [if_neg hit]
    exact (hflushed.optional (hflushed.lookup_miss now pkt.line)).handleTimingReqMiss pkt

theorem Books.recvTimingSnoopReq (h : Books s) (line : Line) (snoop : Snoop) :
    Books (s.recvTimingSnoopReq now line snoop) := by
  unfold System.recvTimingSnoopReq
  split
  · exact h.snoopBlk now _ snoop
  · dsimp only
    split_ifs
    · exact h.setMSHR line _
    · exact (h.setMSHR line _).snoopBlk now _ snoop

end parts

/-! ## The MSHR of a resident line -/

/-- The first target needs a writable block. -/
def leads (targets : List Target) : Bool := targets.head?.any Target.needsWritable

theorem leads_append {targets : List Target} (h : leads targets = true) (ts : List Target) :
    leads (targets ++ ts) = true := by
  cases targets with
  | nil => exact Bool.noConfusion h
  | cons t rest => exact h

/-- What holds of an MSHR; `resident` says that a block of the tags is there.  Targets are deferred
    behind one that needs a writable block, or the block will be gone. -/
structure MSHR.Upgrades (m : MSHR) (resident : Bool) : Prop where
  first : resident = true → leads m.targets = true
  deferred : m.deferredTargets ≠ [] →
    m.inService = true ∧ (m.postInvalidate = true ∨ leads m.deferredTargets = true)

namespace MSHR.Upgrades

variable {m : MSHR} {resident resident' : Bool}

theorem thin (h : m.Upgrades resident) (hthin : resident' = true → resident = true) :
    m.Upgrades resident' :=
  ⟨fun hr => h.first (hthin hr), h.deferred⟩

theorem not_dvr (h : m.Upgrades true) : m.origin ≠ .DVR := by
  have hfirst := h.first rfl
  unfold MSHR.origin
  unfold leads at hfirst
  cases htargets : m.targets.head? with
  | none =>
    rw [htargets] at hfirst
    exact Bool.noConfusion hfirst
  | some t =>
    rw [htargets] at hfirst
    intro hdvr
    cases t with
    | FromCPU pkt =>
      have hkind : pkt.isDVRPrefetch = true := by
        change pkt.kind.origin = .DVR at hdvr
        unfold Packet.isDVRPrefetch
        cases hk : pkt.kind <;> rw [hk] at hdvr <;> first | rfl | exact Origin.noConfusion hdvr
      have hno := Packet.not_writable_of_dvr hkind
      change pkt.cmd.needsWritable = true at hfirst
      rw [hno] at hfirst
      exact Bool.noConfusion hfirst
    | FromPrefetcher => exact Bool.noConfusion hfirst
    | FromSnoop snoop => exact Bool.noConfusion hfirst

theorem allocateTarget (h : m.Upgrades resident) (pkt : Packet) :
    (m.allocateTarget pkt).Upgrades resident := by
  unfold MSHR.allocateTarget
  split_ifs with hdefers
  · refine ⟨h.first, fun _ => ?_⟩
    cases hd : m.deferredTargets with
    | cons t rest =>
      obtain ⟨hin, hpost⟩ := h.deferred (by rw [hd]; exact cons_ne_nil t rest)
      rw [hd] at hpost
      exact ⟨hin, hpost.imp id fun hlead => leads_append hlead _⟩
    | nil =>
      unfold MSHR.defers at hdefers
      simp only [hd, isEmpty_nil, Bool.not_true, Bool.false_or, Bool.and_eq_true,
        Bool.or_eq_true] at hdefers
      exact ⟨hdefers.1, hdefers.2.imp id fun hw => hw.1⟩
  · refine ⟨fun hr => leads_append (h.first hr) _, fun hne => ?_⟩
    exact h.deferred hne

theorem markInService (h : m.Upgrades resident) (hidle : m.inService = false)
    (pendingModifiedResp wholeLine : Bool) :
    (m.markInService pendingModifiedResp wholeLine).Upgrades resident := by
  refine ⟨h.first, fun hne => ?_⟩
  have hin := (h.deferred hne).1
  rw [hidle] at hin
  exact Bool.noConfusion hin

theorem handleSnoop (h : m.Upgrades resident) (snoop : Snoop) :
    (m.handleSnoop snoop).1.Upgrades resident := by
  unfold MSHR.handleSnoop
  split_ifs with hidle hpost hsnoop
  · exact h
  · exact h
  · refine ⟨fun hr => leads_append (h.first hr) _, fun hne => ?_⟩
    obtain ⟨hin, hlead⟩ := h.deferred hne
    exact ⟨hin, .inr (hlead.resolve_left hpost)⟩
  · refine ⟨h.first, fun hne => ?_⟩
    obtain ⟨hin, hlead⟩ := h.deferred hne
    exact ⟨hin, .inr (hlead.resolve_left hpost)⟩

/-- What a response leaves behind, where it leaves the block, is led by a target that needs a
    writable block. -/
theorem leads_leftover (h : m.Upgrades resident) {cmd : RespCmd} (granted : Bool)
    (hwhole : (cmd == .InvalidateResp) = m.wasWholeLineWrite)
    (hstays : System.takesAway cmd m = false) (hne : m.leftover granted cmd ≠ []) :
    leads (m.leftover granted cmd) = true := by
  unfold System.takesAway at hstays
  rw [Bool.or_eq_false_iff] at hstays
  obtain ⟨hinvalidate, hpost⟩ := hstays
  have hcmd : cmd ≠ .ReadRespWithInvalidate := by
    rintro rfl
    rw [← hwhole] at hinvalidate
    exact Bool.noConfusion hinvalidate
  -- only deferred targets are left
  have hextract : ∀ m' : MSHR, (m'.extractServiceableTargets cmd).2 = [] := by
    intro m'
    unfold MSHR.extractServiceableTargets
    split
    · exact absurd rfl hcmd
    · rfl
  unfold MSHR.leftover at hne ⊢
  dsimp only at hne ⊢
  rw [hextract, nil_append] at hne ⊢
  cases granted with
  | false => exact (h.deferred hne).2.resolve_left (by rw [hpost]; exact Bool.false_ne_true)
  | true =>
    simp only [if_true] at hne ⊢
    unfold MSHR.promoteWritable at hne ⊢
    split_ifs at hne ⊢
    · exact absurd rfl hne
    · exact (h.deferred hne).2.resolve_left (by rw [hpost]; exact Bool.false_ne_true)

end MSHR.Upgrades

/-! ### Which blocks are there -/

/-- The blocks of the tags after a part of a step were there before. -/
def Thins (s s' : System g) : Prop :=
  ∀ line, (s'.tags line).isSome = true → (s.tags line).isSome = true

theorem Thins.refl (s : System g) : Thins s s := fun _ h => h

theorem Thins.trans {s s' s'' : System g} (h : Thins s s') (h' : Thins s' s'') : Thins s s'' :=
  fun line hl => h line (h' line hl)

theorem Thins.none {s s' : System g} (h : Thins s s') {line : Line} (hb : s.tags line = none) :
    s'.tags line = none := by
  cases hb' : s'.tags line with
  | none => rfl
  | some b =>
    have hsome := h line (by rw [hb']; rfl)
    rw [hb] at hsome
    exact Bool.noConfusion hsome

section thins

variable (s : System g) (now : Time)

theorem thins_invalidateBlock (p : Place) : Thins s (s.invalidateBlock now p) := by
  obtain ⟨line, temp⟩ := p
  intro l
  cases temp with
  | false =>
    rw [s.tags_invalidateBlock now line, update_apply]
    split_ifs
    · exact fun h => Bool.noConfusion h
    · exact id
  | true =>
    unfold System.invalidateBlock
    cases s.blk ⟨line, true⟩ <;> exact id

theorem thins_mapBlk (p : Place) (f : CacheBlk → CacheBlk) : Thins s (s.mapBlk p f) := by
  intro l
  unfold System.mapBlk System.setBlk System.blk
  split_ifs
  · exact id
  · dsimp only
    rw [update_apply]
    split_ifs with hl
    · rw [hl, Option.isSome_map]
      exact id
    · exact id

theorem thins_snoopBlk (p : Place) (snoop : Snoop) : Thins s (s.snoopBlk now p snoop) := by
  unfold System.snoopBlk
  split_ifs
  · exact thins_invalidateBlock s now p
  · exact Thins.refl s
  · exact thins_mapBlk s p _

theorem thins_serveSnoops (p : Place) (served : List Target) :
    Thins s (System.serveSnoops now p served s) := by
  induction served generalizing s with
  | nil => exact Thins.refl s
  | cons t ts ih =>
    cases t with
    | FromCPU pkt => exact ih s
    | FromPrefetcher => exact ih s
    | FromSnoop snoop => exact (thins_snoopBlk s now p snoop).trans (ih _)

theorem thins_serviceMSHRTargets (p : Place) (cmd : RespCmd) (m : MSHR) (served : List Target) :
    Thins s (s.serviceMSHRTargets now p cmd m served) := by
  have hmarked : Thins s ((System.serveSnoops now p served s).markPrefetched p served) := by
    unfold System.markPrefetched
    split_ifs
    · exact (thins_serveSnoops s now p served).trans (thins_mapBlk _ p _)
    · exact thins_serveSnoops s now p served
  unfold System.serviceMSHRTargets System.settle
  split_ifs
  · exact hmarked.trans (thins_invalidateBlock _ now p)
  · exact hmarked.trans (thins_mapBlk _ p _)
  · exact hmarked

/-- A response that takes the block away leaves none. -/
theorem serviceMSHRTargets_takes (line : Line) {cmd : RespCmd} {m : MSHR} (served : List Target)
    (h : System.takesAway cmd m = true) :
    (s.serviceMSHRTargets now ⟨line, false⟩ cmd m served).tags line = none := by
  unfold System.serviceMSHRTargets System.settle
  rw [if_pos h, System.tags_invalidateBlock, update_self]

theorem thins_flush (pkt : Packet) : Thins s (s.flush now pkt) := by
  unfold System.flush
  split_ifs
  · exact thins_invalidateBlock s now _
  · exact Thins.refl s

theorem thins_finishMSHR (line : Line) (p : Place) (left : List Target) :
    Thins s (s.finishMSHR line p left) := by
  unfold System.finishMSHR
  split_ifs
  · exact Thins.refl s
  · exact thins_mapBlk s p _

theorem thins_evictAll (victims : List Line) : Thins s (s.evictAll now victims) :=
  List.foldlRecOn victims _ (Thins.refl s) fun _ h _ _ => h.trans (thins_invalidateBlock _ now _)

/-- A fill brings its own line and no other. -/
theorem fillStep_other {line l : Line} (m : MSHR) (r : Response) (hl : l ≠ line)
    (h : ((s.fillStep now line m r).tags l).isSome = true) : (s.tags l).isSome = true := by
  unfold System.fillStep System.fill at h
  split_ifs at h
  · exact h
  · unfold System.fillTags at h
    apply thins_evictAll s now (s.fillEvicts line r)
    change (update (s.evictAll now (s.fillEvicts line r)).tags line _ l).isSome = true at h
    rw [update_of_ne hl] at h
    exact h
  · exact h

/-- A fill of the temporary block finds no block and brings none. -/
theorem fillStep_temp {line : Line} {m : MSHR} {r : Response}
    (h : (s.place line m r).temp = true) : (s.fillStep now line m r).tags line = none := by
  unfold System.place at h
  rw [Bool.and_eq_true] at h
  obtain ⟨hfill, htemp⟩ := h
  unfold System.fillStep System.fill
  rw [if_pos hfill, if_pos htemp, System.tags_setBlk_temp]
  unfold System.usesTemp at htemp
  rw [Bool.and_eq_true] at htemp
  exact Option.isNone_iff_eq_none.mp htemp.1

end thins

theorem takesAway_promoted (s : System g) (p : Place) (cmd : RespCmd) (m : MSHR) :
    System.takesAway cmd (s.promoted p m) = System.takesAway cmd m := by
  unfold System.promoted MSHR.promoteWritable
  split_ifs <;> rfl

/-- A part of a step that leaves the MSHRs alone and brings no block. -/
structure Below (s s' : System g) : Prop where
  mshrs : s'.mshrs = s.mshrs
  thins : Thins s s'

theorem Below.refl (s : System g) : Below s s := ⟨rfl, Thins.refl s⟩

theorem Below.trans {s s' s'' : System g} (h : Below s s') (h' : Below s' s'') : Below s s'' :=
  ⟨h'.mshrs.trans h.mshrs, h.thins.trans h'.thins⟩

theorem Below.optional {s s' s'' : System g} (h : Below s s') {c : Prop} [Decidable c]
    (h' : Below s' s'') : Below s (if c then s'' else s') := by
  split_ifs
  · exact h.trans h'
  · exact h

/-- Every MSHR is as its line's block wants it. -/
def Upgrading (s : System g) : Prop :=
  ∀ line m, s.mshrs line = some m → m.Upgrades (s.tags line).isSome

namespace Upgrading

variable {s : System g}

theorem below (h : Upgrading s) {s' : System g} (hbelow : Below s s') : Upgrading s' := by
  intro line m hm
  rw [hbelow.mshrs] at hm
  exact (h line m hm).thin (hbelow.thins line)

theorem setMSHR (h : Upgrading s) (line : Line) {m : Option MSHR}
    (hm : ∀ m', m = some m' → m'.Upgrades (s.tags line).isSome) :
    Upgrading (s.setMSHR line m) := by
  intro l m' hm'
  change update s.mshrs line m l = some m' at hm'
  by_cases hl : l = line
  · subst hl
    rw [update_self] at hm'
    exact hm m' hm'
  · rw [update_of_ne hl] at hm'
    exact h l m' hm'

/-- A DVR request fills no resident block. -/
theorem not_resident (h : Upgrading s) {line : Line} {m : MSHR} (hm : s.mshrs line = some m)
    (ho : m.origin = .DVR) : s.tags line = none := by
  cases hb : s.tags line with
  | none => rfl
  | some b =>
    have hup := h line m hm
    rw [hb] at hup
    exact absurd ho hup.not_dvr

/-- After a response the block is gone, or what is left is led by a target that needs it
    writable. -/
theorem response_leads (h : Upgrading s) (now : Time) {line : Line} {m : MSHR}
    (hm : s.mshrs line = some m) {r : Response} (hans : s.answers line m r = true)
    (hb : ((s.recvTimingResp now line m r).tags line).isSome = true)
    (hne : m.leftover (s.granted line m r) r.cmd ≠ []) :
    leads (m.leftover (s.granted line m r) r.cmd) = true := by
  have hwhole : (r.cmd == .InvalidateResp) = m.wasWholeLineWrite := by
    unfold System.answers at hans
    simp only [Bool.and_eq_true, beq_iff_eq] at hans
    exact hans.1.2
  apply (h line m hm).leads_leftover _ hwhole _ hne
  by_contra htakes
  rw [Bool.not_eq_false] at htakes
  -- the block is gone once the targets are served
  have hgone : (s.serve now line m r).tags line = none := by
    unfold System.serve
    cases htemp : (s.place line m r).temp with
    | true =>
      exact (thins_serviceMSHRTargets _ now _ _ _ _).none (fillStep_temp s now htemp)
    | false =>
      have hplace : s.place line m r = ⟨line, false⟩ := by rw [← htemp]; rfl
      rw [hplace]
      exact serviceMSHRTargets_takes _ now line _ (by rw [takesAway_promoted]; exact htakes)
  have hend : Thins (s.serve now line m r) (s.recvTimingResp now line m r) := by
    unfold System.recvTimingResp
    dsimp only
    split_ifs
    · exact (thins_finishMSHR _ line _ _).trans (thins_invalidateBlock _ now _)
    · exact thins_finishMSHR _ line _ _
  rw [hend.none hgone] at hb
  exact Bool.noConfusion hb

theorem response (h : Upgrading s) (now : Time) {line : Line} {m : MSHR}
    (hm : s.mshrs line = some m) {r : Response} (hans : s.answers line m r = true)
    (hr : Quality.Requests s.audit) : Upgrading (s.recvTimingResp now line m r) := by
  obtain ⟨-, -, -, -, hmshrs⟩ := s.recvTimingResp_spec now line m r hr
  intro l m' hm'
  rw [hmshrs] at hm'
  by_cases hl : l = line
  · subst hl
    rw [update_self, System.nextMSHR] at hm'
    split_ifs at hm' with hempty
    · rw [← Option.some.inj hm']
      refine ⟨fun hb => ?_, fun hne => absurd rfl hne⟩
      exact h.response_leads now hm hans hb (fun hnil => hempty (by rw [hnil]; rfl))
  · rw [update_of_ne hl] at hm'
    refine (h l m' hm').thin fun hb => ?_
    -- another line: the fill may evict it, nothing brings it
    apply fillStep_other s now m r hl
    have hserve : Thins (s.fillStep now line m r) (s.recvTimingResp now line m r) := by
      unfold System.recvTimingResp
      dsimp only
      split_ifs
      · exact ((thins_serviceMSHRTargets _ now _ _ _ _).trans (thins_finishMSHR _ line _ _)).trans
          (thins_invalidateBlock _ now _)
      · exact (thins_serviceMSHRTargets _ now _ _ _ _).trans (thins_finishMSHR _ line _ _)
    exact hserve l hb

theorem handleTimingReqMiss (h : Upgrading s) {pkt : Packet}
    (hneeds : pkt.uncacheable = false → (s.mshrs pkt.line).isSome = false →
      (s.tags pkt.line).isSome = true → pkt.cmd.needsWritable = true) :
    Upgrading (s.handleTimingReqMiss pkt) := by
  unfold System.handleTimingReqMiss
  by_cases hu : pkt.uncacheable = true
  · rw [if_pos hu]
    split_ifs
    · exact h
    · exact h
  · rw [if_neg hu]
    rw [Bool.not_eq_true] at hu
    cases hm : s.mshrs pkt.line with
    | some m =>
      split_ifs
      · exact h
      · refine h.setMSHR pkt.line fun m' hm' => ?_
        rw [← Option.some.inj hm']
        exact (h pkt.line m hm).allocateTarget pkt
    | none =>
      have hmap : Upgrading (s.mapBlk { line := pkt.line } fun b => { b with readable := false }) :=
        h.below ⟨s.mshrs_setBlk _ _, thins_mapBlk s _ _⟩
      refine hmap.setMSHR pkt.line fun m' hm' => ?_
      rw [← Option.some.inj hm']
      refine ⟨fun hb => ?_, fun hne => absurd rfl hne⟩
      exact hneeds hu (by rw [hm]; rfl) (thins_mapBlk s _ _ pkt.line hb)

theorem request (h : Upgrading s) (prefetcher : Bool) (now : Time) {pkt : Packet}
    (hok : s.asserts pkt = true) : Upgrading (s.recvTimingReq prefetcher now pkt) := by
  have hissued : Below s (if pkt.isDVRPrefetch then s.notify now (.Issue pkt.line) else s) :=
    (Below.refl s).optional ⟨rfl, Thins.refl _⟩
  have hflushed := hissued.trans ⟨(System.quiet_flush _ now pkt).mshrs, thins_flush _ now pkt⟩
  unfold System.recvTimingReq
  by_cases hit : s.satisfied pkt = true
  · rw [if_pos hit]
    apply h.below
    refine Below.optional ?_ ⟨System.mshrs_setBlk _ _ _, thins_mapBlk _ _ _⟩
    refine Below.optional ?_ ⟨rfl, Thins.refl _⟩
    exact hflushed.optional ⟨rfl, Thins.refl _⟩
  · rw [if_neg hit]
    have hlookup : ∀ s' : System g, Below s' (s'.notify now (.DemandLookup pkt.line false)) :=
      fun s' => ⟨rfl, Thins.refl s'⟩
    have hlooked := hflushed.optional (c := pkt.kind = .demand) (hlookup _)
    apply (h.below hlooked).handleTimingReqMiss
    intro hu hm hb
    rw [hlooked.mshrs] at hm
    have hb' := hlooked.thins pkt.line hb
    unfold System.asserts at hok
    simp only [hu, hit, hm, Bool.and_eq_true, Bool.or_eq_true, Bool.false_eq_true, false_or] at hok
    refine hok.1.resolve_left ?_
    rw [or_false, Option.isNone_iff_eq_none]
    intro hnone
    rw [hnone] at hb'
    exact Bool.noConfusion hb'

theorem snoop (h : Upgrading s) (now : Time) (line : Line) (snoop : Snoop) :
    Upgrading (s.recvTimingSnoopReq now line snoop) := by
  unfold System.recvTimingSnoopReq
  cases hm : s.mshrs line with
  | none => exact h.below ⟨(s.quiet_snoopBlk now _ snoop).mshrs, thins_snoopBlk s now _ snoop⟩
  | some m =>
    have hset : Upgrading (s.setMSHR line (some (m.handleSnoop snoop).1)) := by
      refine h.setMSHR line fun m' hm' => ?_
      rw [← Option.some.inj hm']
      exact (h line m hm).handleSnoop snoop
    dsimp only
    split_ifs
    · exact hset
    · exact hset.below ⟨(System.quiet_snoopBlk _ now _ snoop).mshrs, thins_snoopBlk _ now _ snoop⟩

end Upgrading

/-! ## Runs -/

/-- What every step keeps. -/
structure Sound (s : System g) : Prop where
  requests : Quality.Requests s.audit
  books : Books s
  upgrading : Upgrading s

theorem sound_start : Sound ({} : System g) where
  requests := ⟨rfl, rfl, rfl⟩
  books := ⟨fun _ => rfl, fun _ => rfl, fun _ h => absurd h (by simp), rfl⟩
  upgrading := fun _ _ h => absurd h (by simp)

theorem Sound.step {s : System g} (h : Sound s) (prefetcher : Bool) (e : Event) :
    Sound (step prefetcher s e) := by
  have hrequests := s.requests_step prefetcher e h.requests
  cases e with
  | request now pkt =>
    unfold L1.step at hrequests ⊢
    dsimp only at hrequests ⊢
    split_ifs at hrequests ⊢ with hok
    · exact ⟨hrequests, h.books.recvTimingReq now prefetcher pkt,
        h.upgrading.request prefetcher now hok⟩
    · exact h
  | prefetch line =>
    unfold L1.step at hrequests ⊢
    dsimp only at hrequests ⊢
    split_ifs at hrequests ⊢ with hfree
    · refine ⟨hrequests, h.books.setMSHR line _, h.upgrading.setMSHR line fun m hm => ?_⟩
      rw [Bool.and_eq_true, Option.isNone_iff_eq_none] at hfree
      rw [← Option.some.inj hm, hfree.1]
      exact ⟨fun hb => Bool.noConfusion hb, fun hne => absurd rfl hne⟩
    · exact h
  | send line pendingModifiedResp wholeLine =>
    unfold L1.step at hrequests ⊢
    dsimp only at hrequests ⊢
    cases hm : s.mshrs line with
    | none => exact h
    | some m =>
      rw [hm] at hrequests
      dsimp only at hrequests ⊢
      split_ifs at hrequests ⊢ with hin
      · exact h
      · refine ⟨hrequests, h.books.setMSHR line _, h.upgrading.setMSHR line fun m' hm' => ?_⟩
        rw [← Option.some.inj hm']
        exact (h.upgrading line m hm).markInService (Bool.eq_false_iff.mpr hin) _ _
  | response now line r =>
    unfold L1.step at hrequests ⊢
    dsimp only at hrequests ⊢
    cases hm : s.mshrs line with
    | none => exact h
    | some m =>
      rw [hm] at hrequests
      dsimp only at hrequests ⊢
      split_ifs at hrequests ⊢ with hans
      · exact ⟨hrequests, h.books.recvTimingResp now line r (h.upgrading.not_resident hm),
          h.upgrading.response now hm hans h.requests⟩
      · exact h
  | uncachedResponse index => exact ⟨hrequests, ⟨h.books.1, h.books.2, h.books.3, h.books.4⟩,
      h.upgrading⟩
  | snoop now line snoop =>
    exact ⟨hrequests, h.books.recvTimingSnoopReq now line snoop, h.upgrading.snoop now line snoop⟩

/-- In every reachable state the keys of `prefetched` are the flagged lines of the tags, and
    `unusedEvictions` counts the past stays that a DVR fill began, no other fill took over and no
    demand hit touched. -/
theorem prefetched_lines_owned (g : Geometry) (prefetcher : Bool) (es : List Event) :
    let s : System g := es.foldl (step prefetcher) {}
    (∀ line, line ∈ s.audit.tracker.prefetched ↔
      ∃ b, s.tags line = some b ∧ b.dvrPrefetched = true) ∧
    s.audit.tracker.counts.unusedEvictions =
      s.past.countP fun r => r.dvr && !r.refilled && !r.touched := by
  intro s
  have hsound : Sound s := List.foldlRecOn es _ sound_start fun _ h e _ => h.step prefetcher e
  refine ⟨fun line => ?_, hsound.books.counted⟩
  have hused := hsound.books.used line
  have hflags := hsound.books.flags line
  have hstay : line ∈ s.audit.tracker.prefetched ↔
      ∃ r, s.residence line = some r ∧ r.owned = true := by
    have hsome : line ∈ s.audit.tracker.prefetched ↔
        (useOf s.audit.tracker line).isSome = true := by
      rw [← AList.lookup_isSome, useOf, Option.isSome_map]
    rw [hsome, hused]
    cases s.residence line with
    | none => simp
    | some r =>
      unfold Residence.due
      cases r.owned <;> simp
  rw [hstay]
  constructor
  · rintro ⟨r, hr, howned⟩
    rw [hr, Option.map_some, howned] at hflags
    obtain ⟨b, hb, hdvr⟩ := Option.map_eq_some_iff.mp hflags
    exact ⟨b, hb, hdvr⟩
  · rintro ⟨b, hb, hdvr⟩
    obtain ⟨r, hr, howned⟩ := hsound.books.flag_eq hb
    exact ⟨r, hr, by rw [howned, hdvr]⟩

theorem source_reads : Kind.isDVRPrefetch .dvrSource = true →
    Cmd.ReadReq = .ReadReq ∨ Cmd.ReadReq = .SoftPFReq := fun _ => .inl rfl

/-- A DVR read fills line 0x40, a demand write misses on it for want of a writable block, the
    upgrade is granted and a snoop takes the block away. -/
def upgraded : System smallGeometry :=
  [Event.request 1 { line := 0x40, cmd := .ReadReq, kind := .dvrSource, dvr_reads := source_reads },
   .send 0x40 false false, .response 2 0x40 { cmd := .ReadResp, hasSharers := true },
   .request 3 { line := 0x40, cmd := .WriteReq, kind := .demand },
   .send 0x40 false false, .response 4 0x40 { cmd := .UpgradeResp },
   .snoop 5 0x40 { invalidate := true }].foldl (step false) {}

/-- The one stay of `upgraded` began with a DVR fill and no lookup hit it, and it is not counted. -/
theorem upgraded_not_counted : upgraded.past.countP (fun r => r.dvr && !r.touched) = 1 ∧
      upgraded.audit.tracker.counts.unusedEvictions = 0 := by
  decide

end Gem5Dvr.L1
