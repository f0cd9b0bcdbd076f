/-
  Which DVR requests the tracker holds outstanding (`cpu/o3/dvr_quality.cc` 57-140 behind
  `mem/cache/base.cc` 460-758).

  The cache reports an Issue for EVERY DVR request it accepts.  That the request is over the tracker
  only infers: from the hit of a DVR request, or from a fill of the tags whose first target is a DVR
  request, and then for all requests of the line at once.  A DVR request that ends otherwise stays
  in `outstandingByLine`:

    * it joined the MSHR of a demand request (or of an upgrade), whose fill is a demand fill;
    * it was a software prefetch that found an MSHR and was not kept at all;
    * its fill went to the temporary block, its response was an error, it was uncacheable;

  and one that still waits is forgotten when another one of its line hits or fills.

  `Kept` says for each step, by what comes in and by the state before, that none of this happens;
  `tracked_iff`: the tracker's outstanding lines are the lines with a DVR target after every prefix
  of a run JUST WHEN every step of the run is `Kept`.
-/
import Gem5Dvr.L1Cache
import Gem5Dvr.Lib.Trace

namespace Gem5Dvr.L1

open List Function

open Quality (Line Time RequestId Geometry Tracker Audit Requests SameRequests)

variable {g : Geometry}

/-! ## The tracker's outstanding requests -/

section tracker

variable {t : Tracker g}

/-- The ids of `outstandingByLine` are distinct and each is outstanding for the line it is listed
    under. -/
structure ByLine (t : Tracker g) : Prop where
  nodup : t.outstandingByLine.Nodup
  listed : ∀ x ∈ t.outstandingByLine, ∃ r, t.outstanding.lookup x.2 = some r ∧ r.line = x.1

theorem ByLine.of_requests {a : Audit g} (h : Requests a) : ByLine a.tracker := by
  have hperm := h.perm
  constructor
  · have hkeys : (a.tracker.outstandingByLine.map Prod.snd).Nodup := by
      have hsnd := hperm.map Prod.snd
      rw [map_map] at hsnd
      exact hsnd.nodup_iff.mpr a.tracker.outstanding.keys_nodup
    exact Nodup.of_map Prod.snd hkeys
  · intro x hx
    obtain ⟨e, he, rfl⟩ := mem_map.mp (hperm.mem_iff.mp hx)
    exact ⟨e.2, mem_dlookup a.tracker.outstanding.nodupKeys he, rfl⟩

variable {id : RequestId} {r : Quality.Request}

theorem completed_eq (h : t.outstanding.lookup id = some r) : (t.completed id).2 = none ∧
      (t.completed id).1.outstandingByLine = t.outstandingByLine.erase (r.line, id) ∧
      (t.completed id).1.outstanding = t.outstanding.erase id := by
  simp only [Tracker.completed, h]
  exact ⟨trivial, rfl, rfl⟩

/-- An entry with the id of an outstanding request is that request's. -/
theorem ByLine.eq_of_id (h : ByLine t)
    (hid : t.outstanding.lookup id = some r) {x : Line × RequestId}
    (hx : x ∈ t.outstandingByLine) (hxid : x.2 = id) : x = (r.line, id) := by
  obtain ⟨r', hr', hline⟩ := h.listed x hx
  rw [hxid, hid] at hr'
  have heq : r = r' := Option.some.inj hr'
  exact Prod.ext (by rw [← hline, heq]) hxid

theorem ByLine.mem_completed (h : ByLine t)
    (hid : t.outstanding.lookup id = some r) (x : Line × RequestId) :
    x ∈ (t.completed id).1.outstandingByLine ↔ x ∈ t.outstandingByLine ∧ x.2 ≠ id := by
  rw [(completed_eq hid).2.1, h.nodup.mem_erase_iff]
  constructor
  · rintro ⟨hne, hx⟩
    exact ⟨hx, fun hxid => hne (h.eq_of_id hid hx hxid)⟩
  · rintro ⟨hx, hxid⟩
    exact ⟨fun heq => hxid (by rw [heq]), hx⟩

theorem ByLine.completed (h : ByLine t) {id : RequestId} {r : Quality.Request}
    (hid : t.outstanding.lookup id = some r) : ByLine (t.completed id).1 := by
  constructor
  · rw [(completed_eq hid).2.1]
    exact h.nodup.erase _
  · intro x hx
    obtain ⟨hmem, hne⟩ := (h.mem_completed hid x).mp hx
    obtain ⟨r', hr', hline⟩ := h.listed x hmem
    refine ⟨r', ?_, hline⟩
    rw [(completed_eq hid).2.2, AList.lookup_erase_ne hne]
    exact hr'

theorem ByLine.mem_completedAll (h : ByLine t) {ids : List RequestId} (hnd : ids.Nodup)
    (hin : ∀ id ∈ ids, (t.outstanding.lookup id).isSome) (x : Line × RequestId) :
    x ∈ (t.completedAll ids).1.outstandingByLine ↔ x ∈ t.outstandingByLine ∧ x.2 ∉ ids := by
  induction ids generalizing t with
  | nil => simp [Tracker.completedAll]
  | cons id ids ih =>
    obtain ⟨r, hid⟩ := Option.isSome_iff_exists.mp (hin id mem_cons_self)
    obtain ⟨hnot, hnd'⟩ := nodup_cons.mp hnd
    have hstep : t.completedAll (id :: ids) = (t.completed id).1.completedAll ids := by
      have hnone := (completed_eq hid).1
      rw [Tracker.completedAll]
      cases hc : t.completed id with
      | mk t' thrown =>
        rw [hc] at hnone
        have hthrown : thrown = none := hnone
        subst hthrown
        rfl
    have hrest : ∀ id' ∈ ids, ((t.completed id).1.outstanding.lookup id').isSome := by
      intro id' hid'
      have hne : id' ≠ id := fun heq => hnot (heq ▸ hid')
      rw [(completed_eq hid).2.2, AList.lookup_erase_ne hne]
      exact hin id' (mem_cons_of_mem id hid')
    rw [hstep, ih (h.completed hid) hnd' hrest, h.mem_completed hid, mem_cons, not_or]
    exact and_assoc

/-- `completedLine` takes out the requests of the line and no others. -/
theorem mem_completedLine {a : Audit g} (h : Requests a) (line : Line) (x : Line × RequestId) :
    x ∈ (a.tracker.completedLine line).1.outstandingByLine ↔
      x ∈ a.tracker.outstandingByLine ∧ x.1 ≠ line := by
  have hby := ByLine.of_requests h
  have hids : ∀ id, id ∈ (a.tracker.outstandingByLine.filter (·.1 == line)).map (·.2) ↔
      (line, id) ∈ a.tracker.outstandingByLine := by
    intro id
    simp only [mem_map, mem_filter, beq_iff_eq]
    constructor
    · rintro ⟨y, ⟨hy, hline⟩, rfl⟩
      rw [← hline]
      exact hy
    · intro hy
      exact ⟨(line, id), ⟨hy, rfl⟩, rfl⟩
  have hnd : ((a.tracker.outstandingByLine.filter (·.1 == line)).map (·.2)).Nodup := by
    apply Nodup.map_on
    · intro x hx y hy hxy
      simp only [mem_filter, beq_iff_eq] at hx hy
      exact Prod.ext (hx.2.trans hy.2.symm) hxy
    · exact hby.nodup.filter _
  have hin : ∀ id ∈ (a.tracker.outstandingByLine.filter (·.1 == line)).map (·.2),
      (a.tracker.outstanding.lookup id).isSome := by
    intro id hid
    obtain ⟨r, hr, -⟩ := hby.listed _ ((hids id).mp hid)
    exact Option.isSome_iff_exists.mpr ⟨r, hr⟩
  rw [Tracker.completedLine, hby.mem_completedAll hnd hin, hids]
  refine and_congr_right fun hx => not_congr ?_
  constructor
  · intro hmem
    obtain ⟨r, hr, hline⟩ := hby.listed _ hmem
    have heq := hby.eq_of_id hr hx rfl
    rw [heq]
    exact hline
  · intro hline
    rw [← hline]
    exact hx

end tracker

theorem tracker_step (a : Audit g) (e : Quality.Event) :
    (Quality.step a e).tracker = (Quality.report a.tracker e).1 := by
  unfold Quality.step
  cases Quality.drops a.tracker e <;> rfl

/-! ### Reports that do not count a late prefetch -/

section late

variable (t : Tracker g)

theorem late_leave (line : Line) : (t.leave line).counts.usefulLate = t.counts.usefulLate := by
  unfold Tracker.leave
  cases t.prefetched.lookup line <;> rfl

theorem late_evict (origin : Quality.FillOrigin) (victim : Line)
    (victim_origin : Quality.FillOrigin) :
    (t.evict origin victim victim_origin).counts.usefulLate = t.counts.usefulLate := by
  unfold Tracker.evict
  simp only
  split_ifs
  · exact late_leave t victim
  · exact late_leave t victim

theorem late_install (line : Line) (origin : Quality.FillOrigin) (now : Time) :
    (t.install line origin now).counts.usefulLate = t.counts.usefulLate := by
  unfold Tracker.install
  cases origin with
  | Demand => rfl
  | DVR =>
    simp only
    split_ifs <;> rfl

theorem late_cacheFill (line : Line) (origin : Quality.FillOrigin) (now : Time)
    (victim : Option Line) (victim_origin : Option Quality.FillOrigin) :
    (t.cacheFill line origin now victim victim_origin).1.counts.usefulLate =
      t.counts.usefulLate := by
  unfold Tracker.cacheFill
  cases victim <;> cases victim_origin
  · exact late_install t line origin now
  · rfl
  · rfl
  · exact (late_install _ line origin now).trans (late_evict t origin _ _)

theorem late_cacheRemove (line : Line) (origin : Quality.FillOrigin) :
    (t.cacheRemove line origin).counts.usefulLate = t.counts.usefulLate := by
  unfold Tracker.cacheRemove
  simp only
  split_ifs
  · exact late_leave t line
  · rfl

theorem late_issued (id : RequestId) (line : Line) (bytes : BitVec 64) (now : Time) :
    (t.issued id line bytes now).1.counts.usefulLate = t.counts.usefulLate := by
  unfold Tracker.issued
  split_ifs <;> rfl

variable {t}

theorem late_completedAll (ids : List RequestId) :
    (t.completedAll ids).1.counts.usefulLate = t.counts.usefulLate := by
  induction ids generalizing t with
  | nil => rfl
  | cons id ids ih =>
    have hone : (t.completed id).1.counts.usefulLate = t.counts.usefulLate := by
      unfold Tracker.completed
      cases t.outstanding.lookup id <;> rfl
    rw [Tracker.completedAll]
    cases hc : t.completed id with
    | mk t' thrown =>
      rw [hc] at hone
      cases thrown with
      | none => exact ih.trans hone
      | some e => exact hone

theorem late_credit {line : Line} {hit : Bool} (shadow_hit : Bool) (now : Time)
    (h : ¬ (hit = false ∧ t.outstandingByLine.any (·.1 == line) = true)) :
    (t.credit line hit shadow_hit now).counts.usefulLate = t.counts.usefulLate := by
  have hcond : ¬ (!hit && t.outstandingByLine.any (·.1 == line) &&
      !decide (line ∈ t.lateReported)) = true := by
    intro hall
    apply h
    simp only [Bool.and_eq_true, Bool.not_eq_true'] at hall
    exact hall.1
  unfold Tracker.credit
  cases t.prefetched.lookup line with
  | none => simp only [if_neg hcond]
  | some useful =>
    simp only
    by_cases huse : (hit && !useful.used) = true
    · rw [if_pos huse]
      rfl
    · rw [if_neg huse, if_neg hcond]

theorem late_charge (line : Line) (hit shadow_hit : Bool) :
    (t.charge line hit shadow_hit).counts.usefulLate = t.counts.usefulLate := by
  unfold Tracker.charge
  simp only
  split_ifs <;> rfl

/-- A late prefetch is counted for a demand miss on a line with an outstanding request. -/
theorem late_demandLookup {line : Line} {hit : Bool} {now : Time}
    (h : (t.demandLookup line hit now).counts.usefulLate ≠ t.counts.usefulLate) :
    hit = false ∧ t.outstandingByLine.any (·.1 == line) = true := by
  by_contra hno
  apply h
  unfold Tracker.demandLookup
  rw [late_charge]
  exact late_credit (t := (t.look line hit).1) (t.look line hit).2 now hno

end late

/-! ## What a step of the cache does to the outstanding lines -/

namespace System

variable (s : System g)

/-- The tracker has an entry for the line in `outstandingByLine`. -/
def has (line : Line) : Bool := s.audit.tracker.outstandingByLine.any (·.1 == line)

/-- A DVR request for the line is a target of an MSHR. -/
def waiting (line : Line) : Bool := (s.mshrs line).any MSHR.hasDVR ||
    s.uncached.any fun pkt => pkt.line == line && pkt.isDVRPrefetch

def usefulLate : Nat := s.audit.tracker.counts.usefulLate

end System

/-- A part of a step that leaves the MSHRs alone and takes the lines of `gone` out of the
    tracker. -/
structure Clears (gone : Line → Bool) (s s' : System g) : Prop where
  requests : Requests s.audit → Requests s'.audit
  has : Requests s.audit → ∀ line, s'.has line = (s.has line && !gone line)
  late : s'.usefulLate = s.usefulLate
  mshrs : s'.mshrs = s.mshrs
  uncached : s'.uncached = s.uncached

/-- No line is taken out. -/
def Quiet (s s' : System g) : Prop := Clears (fun _ => false) s s'

namespace Clears

variable {s s' s'' : System g} {gone : Line → Bool}

theorem refl (s : System g) : Quiet s s := ⟨id, fun _ _ => by simp, rfl, rfl, rfl⟩

theorem then_quiet (h : Clears gone s s') (h' : Quiet s' s'') : Clears gone s s'' where
  requests := fun hr => h'.requests (h.requests hr)
  has := fun hr line => by
    rw [h'.has (h.requests hr), h.has hr]
    simp
  late := h'.late.trans h.late
  mshrs := h'.mshrs.trans h.mshrs
  uncached := h'.uncached.trans h.uncached

theorem quiet_then (h : Quiet s s') (h' : Clears gone s' s'') : Clears gone s s'' where
  requests := fun hr => h'.requests (h.requests hr)
  has := fun hr line => by
    rw [h'.has (h.requests hr), h.has hr]
    simp
  late := h'.late.trans h.late
  mshrs := h'.mshrs.trans h.mshrs
  uncached := h'.uncached.trans h.uncached

/-- A change outside the tracker and the MSHRs. -/
theorem of_same (haudit : s'.audit = s.audit) (hmshrs : s'.mshrs = s.mshrs)
    (huncached : s'.uncached = s.uncached) : Quiet s s' where
  requests := fun hr => by rw [haudit]; exact hr
  has := fun _ line => by simp [System.has, haudit]
  late := by simp [System.usefulLate, haudit]
  mshrs := hmshrs
  uncached := huncached

end Clears

namespace System

variable (s : System g) (now : Time)

theorem quiet_setBlk (p : Place) (b : Option CacheBlk) : Quiet s (s.setBlk p b) := by
  unfold setBlk
  split_ifs
  · exact Clears.of_same rfl rfl rfl
  · exact Clears.of_same rfl rfl rfl

theorem quiet_mapBlk (p : Place) (f : CacheBlk → CacheBlk) : Quiet s (s.mapBlk p f) :=
  s.quiet_setBlk p _

theorem quiet_endResidence (line : Line) : Quiet s (s.endResidence line) := by
  unfold endResidence
  cases s.residence line with
  | none => exact Clears.refl s
  | some r => exact Clears.of_same rfl rfl rfl

theorem requests_notify (e : QualityEvent) (h : Requests s.audit) :
    Requests (s.notify now e).audit :=
  List.foldlRecOn _ _ h fun _ h' e' _ => h'.step e'

theorem quiet_remove (line : Line) (origin : Origin) :
    Quiet s (s.notify now (.Remove line origin)) := by
  have hsame := Quality.sameRequests_cacheRemove s.audit.tracker line (toFillOrigin origin)
  have hlate := late_cacheRemove s.audit.tracker line (toFillOrigin origin)
  refine ⟨s.requests_notify now _, fun _ l => ?_, hlate, rfl, rfl⟩
  show any _ _ = (any _ _ && !false)
  rw [Bool.not_false, Bool.and_true]
  exact congrArg (fun xs => any xs (·.1 == l)) hsame.2.1

theorem quiet_invalidateBlock (p : Place) : Quiet s (s.invalidateBlock now p) := by
  unfold invalidateBlock
  cases s.blk p with
  | none => exact Clears.refl s
  | some b =>
    have hgone := (s.quiet_remove now p.line b.origin).then_quiet (quiet_setBlk _ p none)
    simp only
    split_ifs
    · exact hgone
    · exact hgone.then_quiet (quiet_endResidence _ p.line)

theorem quiet_evictAll (victims : List Line) : Quiet s (s.evictAll now victims) := by
  unfold evictAll
  induction victims generalizing s with
  | nil => exact Clears.refl s
  | cons v vs ih => exact (s.quiet_invalidateBlock now { line := v }).then_quiet (ih _)

theorem quiet_recordFill (line : Line) (origin : Origin) : Quiet s (s.recordFill line origin) :=
  Clears.of_same rfl rfl rfl

end System

/-- A report about fills and removals. -/
def CacheReport : Quality.Event → Prop
  | .cacheFill _ _ _ _ _ | .cacheRemove _ _ => True
  | _ => False

theorem still_cacheReports {es : List Quality.Event} (h : ∀ e ∈ es, CacheReport e) (a : Audit g) :
    (es.foldl Quality.step a).tracker.outstandingByLine = a.tracker.outstandingByLine ∧
      (es.foldl Quality.step a).tracker.counts.usefulLate = a.tracker.counts.usefulLate := by
  induction es generalizing a with
  | nil => exact ⟨rfl, rfl⟩
  | cons e es ih =>
    obtain ⟨hby, hlate⟩ := ih (fun e' he' => h e' (mem_cons_of_mem e he')) (Quality.step a e)
    have he := h e mem_cons_self
    rw [foldl_cons, hby, hlate, tracker_step]
    cases e with
    | cacheFill line origin now victim victim_origin =>
      exact ⟨(Quality.sameRequests_cacheFill _ line origin now victim victim_origin).2.1,
        late_cacheFill _ line origin now victim victim_origin⟩
    | cacheRemove line origin =>
      exact ⟨(Quality.sameRequests_cacheRemove _ line origin).2.1, late_cacheRemove _ line origin⟩
    | _ => exact absurd he id

theorem any_completedLine {a : Audit g} (h : Requests a) (line l : Line) :
    (a.tracker.completedLine line).1.outstandingByLine.any (·.1 == l) =
      (a.tracker.outstandingByLine.any (·.1 == l) && !(l == line)) := by
  rw [Bool.eq_iff_iff, Bool.and_eq_true, any_eq_true, any_eq_true]
  simp only [beq_iff_eq, Bool.not_eq_true', beq_eq_false_iff_ne]
  constructor
  · rintro ⟨x, hx, rfl⟩
    obtain ⟨hmem, hne⟩ := (mem_completedLine h line x).mp hx
    exact ⟨⟨x, hmem, rfl⟩, hne⟩
  · rintro ⟨⟨x, hx, rfl⟩, hne⟩
    exact ⟨x, (mem_completedLine h line x).mpr ⟨hx, hne⟩, rfl⟩

namespace System

variable (s : System g) (now : Time)

theorem clears_complete (line : Line) :
    Clears (fun l => l == line) s (s.notify now (.Complete line)) where
  requests := s.requests_notify now _
  has := fun hr l => any_completedLine hr line l
  late := late_completedAll _
  mshrs := rfl
  uncached := rfl

/-- The Fill of a DVR request completes every request of its line. -/
theorem clears_fillEvent (line : Line) (origin : Origin) (victims : List Victim) :
    Clears (fun l => origin == .DVR && l == line) s (s.notify now (.Fill line origin victims)) := by
  obtain ⟨es, hes, hreports⟩ : ∃ es : List Quality.Event, (∀ e ∈ es, CacheReport e) ∧
      s.reports now (.Fill line origin victims) =
        es ++ (if origin = Origin.DVR then [Quality.Event.completedLine line] else []) := by
    cases victims with
    | nil => exact ⟨[_], by simp [CacheReport], rfl⟩
    | cons primary rest =>
      refine ⟨_, ?_, rfl⟩
      intro e he
      rcases mem_cons.mp he with rfl | hmap
      · exact trivial
      · obtain ⟨v, -, rfl⟩ := mem_map.mp hmap
        exact trivial
  obtain ⟨hby, hlate⟩ := still_cacheReports hes s.audit
  have haudit : (s.notify now (.Fill line origin victims)).audit =
      (es ++ (if origin = Origin.DVR then [Quality.Event.completedLine line] else [])).foldl
        Quality.step s.audit :=
    congrArg (fun es => es.foldl Quality.step s.audit) hreports
  by_cases ho : origin = .DVR
  · subst ho
    have hafter : (s.notify now (.Fill line .DVR victims)).audit =
        Quality.step (es.foldl Quality.step s.audit) (.completedLine line) := by
      rw [haudit, if_pos rfl, foldl_append]
      rfl
    refine ⟨s.requests_notify now _, fun hr l => ?_, ?_, rfl, rfl⟩
    · have hmid : Requests (es.foldl Quality.step s.audit) :=
        List.foldlRecOn _ _ hr fun _ h' e' _ => h'.step e'
      unfold has
      rw [hafter, tracker_step]
      exact (any_completedLine hmid line l).trans (by rw [hby]; rfl)
    · unfold usefulLate
      rw [hafter, tracker_step]
      exact (late_completedAll _).trans hlate
  · rw [if_neg ho, append_nil] at haudit
    have hno : (origin == .DVR) = false := beq_eq_false_iff_ne.mpr ho
    refine ⟨s.requests_notify now _, fun _ l => ?_, ?_, rfl, rfl⟩
    · unfold has
      rw [haudit, hby, hno]
      simp
    · unfold usefulLate
      rw [haudit]
      exact hlate

/-- A fill of the tags for a DVR request completes the line; no other fill completes anything. -/
theorem clears_fill (line : Line) (origin : Origin) (r : Response) :
    Clears (fun l => (!s.usesTemp line r && origin == .DVR) && l == line) s
      (s.fill now line origin r) := by
  unfold fill
  by_cases ht : s.usesTemp line r = true
  · rw [if_pos ht]
    simp only [ht, Bool.not_true, Bool.false_and]
    exact s.quiet_setBlk _ _
  · rw [if_neg ht]
    rw [Bool.not_eq_true] at ht
    simp only [ht, Bool.not_false, Bool.true_and]
    unfold fillTags
    refine Clears.quiet_then ?_ (clears_fillEvent _ now line origin _)
    exact ((quiet_evictAll _ now _).then_quiet (quiet_setBlk _ _ _)).then_quiet
      (quiet_recordFill _ line origin)

theorem quiet_snoopBlk (p : Place) (snoop : Snoop) : Quiet s (s.snoopBlk now p snoop) := by
  unfold snoopBlk
  split_ifs
  · exact s.quiet_invalidateBlock now p
  · exact Clears.refl s
  · exact s.quiet_mapBlk p _

theorem quiet_serveSnoops (p : Place) (served : List Target) :
    Quiet s (serveSnoops now p served s) := by
  induction served generalizing s with
  | nil => exact Clears.refl s
  | cons t ts ih =>
    cases t with
    | FromCPU pkt => exact ih s
    | FromPrefetcher => exact ih s
    | FromSnoop snoop => exact (s.quiet_snoopBlk now p snoop).then_quiet (ih _)

theorem quiet_serviceMSHRTargets (p : Place) (cmd : RespCmd) (m : MSHR) (served : List Target) :
    Quiet s (s.serviceMSHRTargets now p cmd m served) := by
  have hmarked : ∀ s : System g, Quiet s (s.markPrefetched p served) := by
    intro s
    unfold markPrefetched
    split_ifs
    · exact s.quiet_mapBlk p _
    · exact Clears.refl s
  have hsettled : ∀ s : System g, Quiet s (s.settle now p cmd m) := by
    intro s
    unfold settle
    split_ifs
    · exact s.quiet_invalidateBlock now p
    · exact s.quiet_mapBlk p _
    · exact Clears.refl s
  exact ((s.quiet_serveSnoops now p served).then_quiet (hmarked _)).then_quiet (hsettled _)

end System

/-! ## When a step keeps the two together -/

/-- The targets that an MSHR still has after a response; `granted` says that the block is writable
    by then. -/
def MSHR.leftover (m : MSHR) (granted : Bool) (cmd : RespCmd) : List Target :=
  let m := if granted then m.promoteWritable else m
  (m.extractServiceableTargets cmd).2 ++ m.deferredTargets

namespace System

variable (s : System g)

/-- The block of the line is writable once the response has filled it. -/
def granted (line : Line) (m : MSHR) (r : Response) : Bool :=
  (s.tags line).any CacheBlk.writable || isFill m r.cmd && !r.hasSharers

/-- The response fills a block of the tags for a DVR request. -/
def fillsForDVR (line : Line) (m : MSHR) (r : Response) : Bool :=
  isFill m r.cmd && !s.usesTemp line r && m.origin == .DVR

/-- An uncacheable DVR read of the line is out. -/
def uncachedDVR (line : Line) : Bool :=
  s.uncached.any fun pkt => pkt.line == line && pkt.isDVRPrefetch

/-- A DVR request that is satisfied finds no other DVR request waiting; one that finds an MSHR and
    is not kept, because it is a software prefetch, finds another DVR request among its targets. -/
def KeptRequest (pkt : Packet) : Prop := pkt.isDVRPrefetch = true → pkt.uncacheable = false →
    (s.satisfied pkt = true → s.waiting pkt.line = false) ∧
    (s.satisfied pkt = false → pkt.cmd.isSWPrefetch = true → (s.mshrs pkt.line).isSome = true →
      s.waiting pkt.line = true)

/-- A response that fills the tags for a DVR request leaves no DVR request of the line waiting; one
    that does not, though a DVR request was a target, leaves some. -/
def KeptResponse (line : Line) (m : MSHR) (r : Response) : Prop :=
  if s.fillsForDVR line m r = true then
    (m.leftover (s.granted line m r) r.cmd).any Target.isDVR = false ∧ s.uncachedDVR line = false
  else m.hasDVR = true →
    (m.leftover (s.granted line m r) r.cmd).any Target.isDVR = true ∨ s.uncachedDVR line = true

/-- An uncacheable DVR read is not the last DVR request of its line. -/
def KeptUncached (index : Nat) : Prop :=
  ∀ pkt, s.uncached[index]? = some pkt → pkt.isDVRPrefetch = true →
    (s.mshrs pkt.line).any MSHR.hasDVR = true ∨
      (s.uncached.eraseIdx index).any (fun p => p.line == pkt.line && p.isDVRPrefetch) = true

end System

/-- The step ends, or forgets, no DVR request behind the tracker's back. -/
def Kept (s : System g) : Event → Prop
  | .request _ pkt => s.asserts pkt = true → s.KeptRequest pkt
  | .response _ line r =>
    ∀ m, s.mshrs line = some m → s.answers line m r = true → s.KeptResponse line m r
  | .uncachedResponse index => s.KeptUncached index
  | _ => True

/-! ### Responses -/

namespace System

variable (s : System g) (now : Time) (line : Line) (m : MSHR) (r : Response)

theorem clears_fillStep :
    Clears (fun l => s.fillsForDVR line m r && l == line) s (s.fillStep now line m r) := by
  unfold fillStep fillsForDVR
  cases hf : isFill m r.cmd with
  | false =>
    simp only [Bool.false_and, Bool.false_eq_true, if_false]
    exact Clears.refl s
  | true =>
    simp only [Bool.true_and, if_true]
    exact s.clears_fill now line m.origin r

theorem granted_fillStep :
    ((s.fillStep now line m r).blk (s.place line m r)).any CacheBlk.writable =
      s.granted line m r := by
  unfold fillStep place granted
  cases hf : isFill m r.cmd with
  | false => simp [blk]
  | true =>
    simp only [Bool.true_and, if_true]
    unfold fill
    cases ht : s.usesTemp line r with
    | true =>
      have hnone : s.tags line = none := by
        unfold usesTemp at ht
        simp only [Bool.and_eq_true, Option.isNone_iff_eq_none] at ht
        exact ht.1
      simp [hnone, filled]
    | false =>
      unfold fillTags recordFill
      simp only [Bool.false_eq_true, if_false, blk, tags_notify, tags_setBlk, update_self]
      cases s.tags line <;> simp [filled]

/-- Whether the block is writable by then decides which targets are left. -/
theorem left_eq : s.left now line m r = m.leftover (s.granted line m r) r.cmd := by
  unfold left promoted MSHR.leftover
  rw [granted_fillStep]

theorem clears_serve :
    Clears (fun l => s.fillsForDVR line m r && l == line) s (s.serve now line m r) :=
  (s.clears_fillStep now line m r).then_quiet (quiet_serviceMSHRTargets _ now _ _ _ _)

/-- An MSHR for what is left, or none. -/
def nextMSHR (left : List Target) : Option MSHR :=
  if left.isEmpty then none else some { targets := left }

theorem finishMSHR_spec (p : Place) (left : List Target) :
    (s.finishMSHR line p left).audit = s.audit ∧ (s.finishMSHR line p left).uncached = s.uncached ∧
      (s.finishMSHR line p left).mshrs = update s.mshrs line (nextMSHR left) := by
  unfold finishMSHR nextMSHR
  split_ifs
  · exact ⟨rfl, rfl, rfl⟩
  · simp [setMSHR, mapBlk]

theorem recvTimingResp_spec (hr : Requests s.audit) :
    Requests (s.recvTimingResp now line m r).audit ∧ (∀ l, (s.recvTimingResp now line m r).has l =
        (s.has l && !(s.fillsForDVR line m r && l == line))) ∧
      (s.recvTimingResp now line m r).usefulLate = s.usefulLate ∧
      (s.recvTimingResp now line m r).uncached = s.uncached ∧
      (s.recvTimingResp now line m r).mshrs =
        update s.mshrs line (nextMSHR (m.leftover (s.granted line m r) r.cmd)) := by
  have hclears := s.clears_serve now line m r
  obtain ⟨haudit, huncached, hmshrs⟩ :=
    (s.serve now line m r).finishMSHR_spec line (s.place line m r) (s.left now line m r)
  have hend : Quiet ((s.serve now line m r).finishMSHR line (s.place line m r)
      (s.left now line m r)) (s.recvTimingResp now line m r) := by
    unfold recvTimingResp
    dsimp only
    split_ifs
    · exact quiet_invalidateBlock _ now _
    · exact Clears.refl _
  have hreq := hclears.requests hr
  rw [← haudit] at hreq
  refine ⟨hend.requests hreq, fun l => ?_, ?_, ?_, ?_⟩
  · rw [hend.has hreq, ← hclears.has hr l]
    simp [has, haudit]
  · rw [hend.late, ← hclears.late]
    simp [usefulLate, haudit]
  · rw [hend.uncached, huncached, hclears.uncached]
  · rw [hend.mshrs, hmshrs, hclears.mshrs, left_eq]

end System

/-! ### Requests -/

theorem MSHR.hasDVR_allocateTarget (m : MSHR) (pkt : Packet) :
    (m.allocateTarget pkt).hasDVR = (m.hasDVR || pkt.isDVRPrefetch) := by
  unfold MSHR.allocateTarget MSHR.hasDVR
  split_ifs
  · simp [any_append, Target.isDVR, Bool.or_assoc]
  · simp [any_append, Target.isDVR, Bool.or_assoc, Bool.or_comm]

/-- A DVR request is a read. -/
theorem Packet.not_write_of_dvr {pkt : Packet} (h : pkt.isDVRPrefetch = true) :
    pkt.cmd.isWrite = false := by
  rcases pkt.dvr_reads h with hcmd | hcmd <;> rw [hcmd] <;> rfl

/-- A DVR request needs no writable block. -/
theorem Packet.not_writable_of_dvr {pkt : Packet} (h : pkt.isDVRPrefetch = true) :
    pkt.cmd.needsWritable = false := by
  rcases pkt.dvr_reads h with hcmd | hcmd <;> rw [hcmd] <;> rfl

theorem Packet.not_demand_of_dvr {pkt : Packet} (h : pkt.isDVRPrefetch = true) :
    pkt.kind ≠ .demand := by
  intro hk
  simp [Packet.isDVRPrefetch, hk, Kind.isDVRPrefetch] at h

namespace System

variable (s : System g) (now : Time) (pkt : Packet)

/-- A request that misses becomes a target: all but a software prefetch that finds an MSHR. -/
def joins : Bool := pkt.uncacheable || !(pkt.cmd.isSWPrefetch && (s.mshrs pkt.line).isSome)

theorem audit_handleTimingReqMiss : (s.handleTimingReqMiss pkt).audit = s.audit := by
  unfold handleTimingReqMiss
  by_cases hu : pkt.uncacheable = true
  · rw [if_pos hu]
    split_ifs <;> rfl
  · rw [if_neg hu]
    cases s.mshrs pkt.line with
    | some m =>
      simp only
      split_ifs <;> rfl
    | none => simp [setMSHR, mapBlk]

theorem waiting_setMSHR (line : Line) (m : Option MSHR) (l : Line) : (s.setMSHR line m).waiting l =
      ((if l = line then m else s.mshrs l).any MSHR.hasDVR || s.uncachedDVR l) := by
  unfold waiting setMSHR uncachedDVR
  simp only [update_apply]

theorem waiting_handleTimingReqMiss (l : Line) : (s.handleTimingReqMiss pkt).waiting l =
      (s.waiting l || (pkt.isDVRPrefetch && s.joins pkt && pkt.line == l)) := by
  unfold handleTimingReqMiss joins
  by_cases hu : pkt.uncacheable = true
  · rw [if_pos hu, hu, Bool.true_or, Bool.and_true]
    split_ifs with hw
    · -- an uncacheable write goes to the write buffer
      have hno : pkt.isDVRPrefetch = false := by
        by_contra hdvr
        rw [Bool.not_eq_false] at hdvr
        rw [Packet.not_write_of_dvr hdvr] at hw
        exact Bool.noConfusion hw
      simp [hno]
    · unfold waiting
      simp only [any_cons]
      cases pkt.line == l <;> cases pkt.isDVRPrefetch <;> simp
  · rw [if_neg hu]
    rw [Bool.not_eq_true] at hu
    rw [hu, Bool.false_or]
    cases hm : s.mshrs pkt.line with
    | some m =>
      simp only [Option.isSome_some, Bool.and_true]
      by_cases hsw : pkt.cmd.isSWPrefetch = true
      · simp [hsw]
      · rw [Bool.not_eq_true] at hsw
        simp only [hsw, Bool.false_eq_true, if_false, waiting_setMSHR, Bool.not_false,
          Bool.and_true]
        by_cases hl : l = pkt.line
        · subst hl
          simp only [if_true, Option.any_some, MSHR.hasDVR_allocateTarget, beq_self_eq_true,
            Bool.and_true, waiting, hm, uncachedDVR]
          cases m.hasDVR <;> cases pkt.isDVRPrefetch <;> simp
        · have hne : (pkt.line == l) = false := beq_eq_false_iff_ne.mpr (fun h => hl h.symm)
          simp [hl, hne, waiting, uncachedDVR]
    | none =>
      simp only [Option.isSome_none, Bool.and_false, Bool.not_false, Bool.and_true, waiting_setMSHR]
      by_cases hl : l = pkt.line
      · subst hl
        simp [waiting, uncachedDVR, mapBlk, hm, MSHR.hasDVR, Target.isDVR, Bool.or_comm]
      · have hne : (pkt.line == l) = false := beq_eq_false_iff_ne.mpr (fun h => hl h.symm)
        simp [hl, hne, waiting, uncachedDVR, mapBlk]

theorem quiet_flush : Quiet s (s.flush now pkt) := by
  unfold flush
  split_ifs
  · exact s.quiet_invalidateBlock now _
  · exact Clears.refl s

/-- A demand lookup changes nothing outstanding; a hit counts no late prefetch. -/
theorem lookup_spec (line : Line) (hit : Bool) :
    (Requests s.audit → Requests (s.notify now (.DemandLookup line hit)).audit) ∧
      (∀ l, (s.notify now (.DemandLookup line hit)).has l = s.has l) ∧
      ((s.notify now (.DemandLookup line hit)).usefulLate ≠ s.usefulLate →
        hit = false ∧ s.has line = true) := by
  have hsame := Quality.sameRequests_demandLookup s.audit.tracker line hit now
  refine ⟨s.requests_notify now _, fun l => ?_, fun h => ?_⟩
  · exact congrArg (fun xs => any xs (·.1 == l)) hsame.2.1
  · exact late_demandLookup h

/-- The last thing a hit does. -/
theorem quiet_clearPrefetched (prefetcher : Bool) (line : Line) : Quiet s (if prefetcher = true then
      s.mapBlk { line := line } fun b => { b with prefetched := false } else s) := by
  split_ifs
  · exact s.quiet_mapBlk _ _
  · exact Clears.refl s

theorem waiting_of_quiet {s' : System g} (h : Quiet s s') (l : Line) :
    s'.waiting l = s.waiting l := by
  simp [waiting, h.mshrs, h.uncached]

/-- The Issue of a DVR request whose id is free. -/
theorem issue_spec (line : Line) (hfree : s.audit.tracker.outstanding.lookup s.nextRequestId = none)
    (hr : Requests s.audit) :
    Requests (s.notify now (.Issue line)).audit ∧
      (∀ l, (s.notify now (.Issue line)).has l = (line == l || s.has l)) ∧
      (s.notify now (.Issue line)).usefulLate = s.usefulLate := by
  refine ⟨s.requests_notify now _ hr, fun l => ?_, late_issued _ _ _ _ _⟩
  have hno : ¬ (s.audit.tracker.outstanding.lookup s.nextRequestId).isSome = true := by
    simp [hfree]
  show any (s.audit.tracker.issued s.nextRequestId line 0 now).1.outstandingByLine _ = _
  simp only [Tracker.issued, if_neg hno]
  rfl

/-- What a DVR request does: a hit clears its line, a miss enters it. -/
theorem request_of_dvr (prefetcher : Bool) (hd : pkt.isDVRPrefetch = true)
    (hfree : s.audit.tracker.outstanding.lookup s.nextRequestId = none) (hr : Requests s.audit) :
    Requests (s.recvTimingReq prefetcher now pkt).audit ∧
      (s.recvTimingReq prefetcher now pkt).usefulLate = s.usefulLate ∧
      (∀ l, (s.recvTimingReq prefetcher now pkt).has l =
        if s.satisfied pkt then s.has l && !(l == pkt.line) else pkt.line == l || s.has l) ∧
      (∀ l, (s.recvTimingReq prefetcher now pkt).waiting l =
        if s.satisfied pkt then s.waiting l
        else s.waiting l || (s.joins pkt && pkt.line == l)) := by
  obtain ⟨hr1, hhas1, hlate1⟩ := s.issue_spec now pkt.line hfree hr
  have hflush := quiet_flush (s.notify now (.Issue pkt.line)) now pkt
  have hkind := Packet.not_demand_of_dvr hd
  unfold recvTimingReq
  simp only [hd, if_true, if_neg hkind]
  by_cases hit : s.satisfied pkt = true
  · simp only [hit, if_true]
    have hcomplete := (Clears.quiet_then hflush (clears_complete _ now pkt.line)).then_quiet
      (quiet_clearPrefetched _ prefetcher pkt.line)
    refine ⟨hcomplete.requests hr1, hcomplete.late.trans hlate1, fun l => ?_, fun l => ?_⟩
    · rw [hcomplete.has hr1, hhas1]
      by_cases hl : l = pkt.line
      · simp [hl]
      · have hne : (pkt.line == l) = false := beq_eq_false_iff_ne.mpr (fun h => hl h.symm)
        simp [hne]
    · simp only [waiting, hcomplete.mshrs, hcomplete.uncached]
      rfl
  · simp only [hit, Bool.false_eq_true, if_false]
    have haudit := audit_handleTimingReqMiss ((s.notify now (.Issue pkt.line)).flush now pkt) pkt
    refine ⟨?_, ?_, fun l => ?_, fun l => ?_⟩
    · rw [haudit]
      exact hflush.requests hr1
    · rw [← hlate1, ← hflush.late]
      simp [usefulLate, haudit]
    · rw [← hhas1]
      have hsame := hflush.has hr1 l
      simp only [Bool.not_false, Bool.and_true] at hsame
      rw [← hsame]
      simp [has, haudit]
    · have hjoins : ((s.notify now (.Issue pkt.line)).flush now pkt).joins pkt = s.joins pkt := by
        simp only [joins, hflush.mshrs]
        rfl
      rw [waiting_handleTimingReqMiss, hjoins, waiting_of_quiet _ hflush, hd, Bool.true_and]
      rfl

/-- What any other request does: nothing, but that a late prefetch may be counted. -/
theorem request_of_other (prefetcher : Bool) (hd : pkt.isDVRPrefetch = false)
    (hr : Requests s.audit) :
    Requests (s.recvTimingReq prefetcher now pkt).audit ∧
      (∀ l, (s.recvTimingReq prefetcher now pkt).has l = s.has l) ∧
      (∀ l, (s.recvTimingReq prefetcher now pkt).waiting l = s.waiting l) ∧
      ((s.recvTimingReq prefetcher now pkt).usefulLate ≠ s.usefulLate →
        pkt.kind = .demand ∧ s.satisfied pkt = false ∧ s.has pkt.line = true) := by
  have hflush := s.quiet_flush now pkt
  have hr1 := hflush.requests hr
  have hhas1 : ∀ l, (s.flush now pkt).has l = s.has l := fun l => by
    rw [hflush.has hr l]
    simp
  have hwait1 : ∀ l, (s.flush now pkt).waiting l = s.waiting l := waiting_of_quiet _ hflush
  obtain ⟨hreq, hlook, hlate⟩ := lookup_spec (s.flush now pkt) now pkt.line (s.satisfied pkt)
  unfold recvTimingReq
  simp only [hd, Bool.false_eq_true, if_false]
  by_cases hit : s.satisfied pkt = true
  · simp only [hit, if_true]
    rw [hit] at hreq hlook hlate
    -- the state before the last thing, with or without the lookup
    have hmid : ∀ s' : System g, s' = (if pkt.kind = .demand then
        ((s.flush now pkt).notify now (.DemandLookup pkt.line true)).touch pkt.line
        else s.flush now pkt) →
        Requests s'.audit ∧ (∀ l, s'.has l = s.has l) ∧ (∀ l, s'.waiting l = s.waiting l) ∧
          s'.usefulLate = s.usefulLate := by
      rintro s' rfl
      split_ifs
      · refine ⟨hreq hr1, fun l => (hlook l).trans (hhas1 l), hwait1, ?_⟩
        by_contra hne
        rw [← hflush.late] at hne
        exact Bool.noConfusion (hlate hne).1
      · exact ⟨hr1, hhas1, hwait1, hflush.late⟩
    obtain ⟨hr2, hhas2, hwait2, hlate2⟩ := hmid _ rfl
    have hq := quiet_clearPrefetched (if pkt.kind = .demand then
        ((s.flush now pkt).notify now (.DemandLookup pkt.line true)).touch pkt.line
        else s.flush now pkt) prefetcher pkt.line
    refine ⟨hq.requests hr2, fun l => ?_, fun l => ?_, fun hne => ?_⟩
    · rw [hq.has hr2, hhas2]
      simp
    · exact (waiting_of_quiet _ hq l).trans (hwait2 l)
    · exact absurd (hq.late.trans hlate2) hne
  · rw [Bool.not_eq_true] at hit
    simp only [hit, Bool.false_eq_true, if_false]
    rw [hit] at hreq hlook hlate
    have hmid : ∀ s' : System g, s' = (if pkt.kind = .demand then
        (s.flush now pkt).notify now (.DemandLookup pkt.line false) else s.flush now pkt) →
        Requests s'.audit ∧ (∀ l, s'.has l = s.has l) ∧ (∀ l, s'.waiting l = s.waiting l) ∧
          (s'.usefulLate ≠ s.usefulLate → pkt.kind = .demand ∧ s.has pkt.line = true) := by
      rintro s' rfl
      split_ifs with hk
      · refine ⟨hreq hr1, fun l => (hlook l).trans (hhas1 l), hwait1, ?_⟩
        intro hne
        rw [← hflush.late] at hne
        exact ⟨hk, by rw [← hhas1]; exact (hlate hne).2⟩
      · exact ⟨hr1, hhas1, hwait1, fun hne => absurd hflush.late hne⟩
    obtain ⟨hr2, hhas2, hwait2, hlate2⟩ := hmid _ rfl
    have haudit := audit_handleTimingReqMiss (if pkt.kind = .demand then
        (s.flush now pkt).notify now (.DemandLookup pkt.line false) else s.flush now pkt) pkt
    refine ⟨?_, fun l => ?_, fun l => ?_, fun hne => ?_⟩
    · rw [haudit]
      exact hr2
    · rw [← hhas2]
      simp [has, haudit]
    · rw [waiting_handleTimingReqMiss, hwait2, hd]
      simp
    · obtain ⟨hk, hhas⟩ := hlate2 (by simpa [usefulLate, haudit] using hne)
      exact ⟨hk, trivial, hhas⟩

end System

/-! ### Steps -/

theorem MSHR.mem_extract {m : MSHR} {cmd : RespCmd} {t : Target}
    (h : t ∈ (m.extractServiceableTargets cmd).2) : t ∈ m.targets := by
  unfold MSHR.extractServiceableTargets at h
  split at h
  case h_1 first rest htargets =>
    rw [htargets]
    exact mem_cons_of_mem first (mem_filter.mp h).1
  case h_2 => exact absurd h not_mem_nil

/-- A response adds no target. -/
theorem MSHR.mem_leftover {m : MSHR} {granted : Bool} {cmd : RespCmd} {t : Target}
    (h : t ∈ m.leftover granted cmd) : t ∈ m.targets ++ m.deferredTargets := by
  have hpromote : m.promoteWritable.targets ++ m.promoteWritable.deferredTargets =
      m.targets ++ m.deferredTargets := by
    unfold MSHR.promoteWritable
    split_ifs
    · exact append_nil _
    · rfl
  unfold MSHR.leftover at h
  cases granted with
  | false =>
    rcases mem_append.mp h with hleft | hdeferred
    · exact mem_append_left _ (MSHR.mem_extract hleft)
    · exact mem_append_right _ hdeferred
  | true =>
    rw [← hpromote]
    rcases mem_append.mp h with hleft | hdeferred
    · exact mem_append_left _ (MSHR.mem_extract hleft)
    · exact mem_append_right _ hdeferred

theorem MSHR.hasDVR_of_leftover {m : MSHR} {granted : Bool} {cmd : RespCmd}
    (h : (m.leftover granted cmd).any Target.isDVR = true) : m.hasDVR = true := by
  obtain ⟨t, ht, hdvr⟩ := any_eq_true.mp h
  exact any_eq_true.mpr ⟨t, MSHR.mem_leftover ht, hdvr⟩

theorem hasDVR_nextMSHR (left : List Target) :
    (System.nextMSHR left).any MSHR.hasDVR = left.any Target.isDVR := by
  unfold System.nextMSHR
  cases left with
  | nil => rfl
  | cons t ts => simp [MSHR.hasDVR]

theorem MSHR.hasDVR_handleSnoop (m : MSHR) (snoop : Snoop) :
    (m.handleSnoop snoop).1.hasDVR = m.hasDVR := by
  unfold MSHR.handleSnoop
  split_ifs
  · rfl
  · rfl
  · simp [MSHR.hasDVR, any_append, Target.isDVR]
  · rfl

namespace System

variable (s : System g)

theorem waiting_setMSHR_same {line : Line} {m : Option MSHR}
    (h : m.any MSHR.hasDVR = (s.mshrs line).any MSHR.hasDVR) (l : Line) :
    (s.setMSHR line m).waiting l = s.waiting l := by
  rw [waiting_setMSHR]
  by_cases hl : l = line
  · subst hl
    rw [if_pos rfl, h]
    rfl
  · rw [if_neg hl]
    rfl

/-- The tracker's requests are sound and its outstanding lines are the lines with a DVR target. -/
structure Agrees : Prop where
  requests : Requests s.audit
  lines : ∀ line, s.has line = s.waiting line

variable {s}

theorem Agrees.request_iff (h : s.Agrees) (prefetcher : Bool) (now : Time) {pkt : Packet}
    (hok : s.asserts pkt = true) :
    (∀ l, (s.recvTimingReq prefetcher now pkt).has l =
      (s.recvTimingReq prefetcher now pkt).waiting l) ↔ s.KeptRequest pkt := by
  cases hd : pkt.isDVRPrefetch with
  | false =>
    obtain ⟨-, hhas, hwait, -⟩ := s.request_of_other now pkt prefetcher hd h.requests
    refine ⟨fun _ hdvr => ?_, fun _ l => ?_⟩
    · rw [hd] at hdvr
      exact Bool.noConfusion hdvr
    · rw [hhas, hwait, h.lines]
  | true =>
    have hfree : s.audit.tracker.outstanding.lookup s.nextRequestId = none := by
      unfold asserts at hok
      simp only [hd, Bool.not_true, Bool.false_or, Bool.and_eq_true,
        Option.isNone_iff_eq_none] at hok
      exact hok.2
    obtain ⟨-, -, hhas, hwait⟩ := s.request_of_dvr now pkt prefetcher hd hfree h.requests
    unfold KeptRequest
    simp only [hhas, hwait, h.lines, hd, true_implies]
    cases hit : s.satisfied pkt with
    | true =>
      have hcache : pkt.uncacheable = false := by
        unfold satisfied at hit
        simp only [Bool.and_eq_true, Bool.not_eq_true'] at hit
        exact hit.1
      simp only [if_true, hcache, true_implies, Bool.true_eq_false, false_implies, and_true]
      constructor
      · intro hall
        have hline := hall pkt.line
        simp only [beq_self_eq_true, Bool.not_true, Bool.and_false] at hline
        exact hline.symm
      · intro hno l
        by_cases hl : l = pkt.line
        · rw [hl, hno]
          rfl
        · have hne : (l == pkt.line) = false := beq_eq_false_iff_ne.mpr hl
          simp [hne]
    | false =>
      simp only [Bool.false_eq_true, if_false, false_implies, true_implies, true_and, joins]
      constructor
      · intro hall hcache hsw hm
        have hline := hall pkt.line
        simp only [beq_self_eq_true, Bool.true_or, hcache, hsw, hm, Bool.and_self, Bool.not_true,
          Bool.or_self, Bool.false_and, Bool.or_false] at hline
        exact hline.symm
      · intro hkept l
        by_cases hl : l = pkt.line
        · subst hl
          simp only [beq_self_eq_true, Bool.true_or, Bool.and_true]
          cases hcache : pkt.uncacheable with
          | true => simp
          | false =>
            cases hsw : pkt.cmd.isSWPrefetch with
            | false => simp
            | true =>
              cases hm : (s.mshrs pkt.line).isSome with
              | false => simp
              | true => simp [hkept hcache hsw hm]
        · have hne : (pkt.line == l) = false := beq_eq_false_iff_ne.mpr (fun heq => hl heq.symm)
          simp [hne]

theorem Agrees.response_iff (h : s.Agrees) (now : Time) {line : Line} {m : MSHR}
    (hm : s.mshrs line = some m) (r : Response) :
    (∀ l, (s.recvTimingResp now line m r).has l = (s.recvTimingResp now line m r).waiting l) ↔
      s.KeptResponse line m r := by
  obtain ⟨-, hhas, -, huncached, hmshrs⟩ := s.recvTimingResp_spec now line m r h.requests
  have hwait : ∀ l, (s.recvTimingResp now line m r).waiting l =
      if l = line then (m.leftover (s.granted line m r) r.cmd).any Target.isDVR || s.uncachedDVR l
      else s.waiting l := by
    intro l
    simp only [waiting, hmshrs, huncached, uncachedDVR, update_apply]
    split_ifs
    · rw [hasDVR_nextMSHR]
    · rfl
  have hline : s.waiting line = (m.hasDVR || s.uncachedDVR line) := by
    simp [waiting, hm, uncachedDVR]
  have hsub : (m.leftover (s.granted line m r) r.cmd).any Target.isDVR = true → m.hasDVR = true :=
    MSHR.hasDVR_of_leftover
  -- only the line of the response can go wrong
  have honly : (∀ l, (s.recvTimingResp now line m r).has l =
      (s.recvTimingResp now line m r).waiting l) ↔
      ((m.hasDVR || s.uncachedDVR line) && !s.fillsForDVR line m r) =
        ((m.leftover (s.granted line m r) r.cmd).any Target.isDVR || s.uncachedDVR line) := by
    simp only [hhas, hwait, h.lines]
    constructor
    · intro hall
      have hl := hall line
      simpa [hline] using hl
    · intro heq l
      by_cases hl : l = line
      · subst hl
        simpa [hline] using heq
      · have hne : (l == line) = false := beq_eq_false_iff_ne.mpr hl
        simp [hl, hne]
  rw [honly]
  unfold KeptResponse
  cases s.fillsForDVR line m r <;>
    cases hl : (m.leftover (s.granted line m r) r.cmd).any Target.isDVR <;>
    cases s.uncachedDVR line <;> cases hd : m.hasDVR <;> simp_all

theorem Agrees.uncached_iff (h : s.Agrees) (index : Nat) :
    (∀ l, s.has l = waiting { s with uncached := s.uncached.eraseIdx index } l) ↔
      s.KeptUncached index := by
  constructor
  · intro hall pkt hpkt hdvr
    have hmem := mem_of_getElem? hpkt
    have hbefore : s.waiting pkt.line = true := by
      unfold waiting
      rw [Bool.or_eq_true]
      exact .inr (any_eq_true.mpr ⟨pkt, hmem, by simp [hdvr]⟩)
    have hafter := hall pkt.line
    rw [h.lines, hbefore] at hafter
    exact Bool.or_eq_true_iff.mp hafter.symm
  · intro hkept l
    rw [h.lines, Bool.eq_iff_iff]
    unfold waiting
    simp only [Bool.or_eq_true, any_eq_true, Bool.and_eq_true, beq_iff_eq]
    constructor
    · rintro (hm | ⟨pkt, hpkt, rfl, hdvr⟩)
      · exact .inl hm
      · obtain ⟨i, hi⟩ := mem_iff_getElem?.mp hpkt
        by_cases hidx : i = index
        · subst hidx
          rcases hkept pkt hi hdvr with hm | hother
          · exact .inl hm
          · obtain ⟨p, hp, hboth⟩ := any_eq_true.mp hother
            simp only [Bool.and_eq_true, beq_iff_eq] at hboth
            exact .inr ⟨p, hp, hboth⟩
        · exact .inr ⟨pkt, mem_eraseIdx_iff_getElem?.mpr ⟨i, hidx, hi⟩, rfl, hdvr⟩
    · rintro (hm | ⟨pkt, hpkt, hboth⟩)
      · exact .inl hm
      · exact .inr ⟨pkt, mem_of_mem_eraseIdx hpkt, hboth⟩

/-- The tracker's requests stay sound, whatever comes. -/
theorem requests_step (prefetcher : Bool) (e : Event) (hr : Requests s.audit) :
    Requests (step prefetcher s e).audit := by
  cases e with
  | request now pkt =>
    unfold step
    dsimp only
    split_ifs with hok
    · cases hd : pkt.isDVRPrefetch with
      | false => exact (s.request_of_other now pkt prefetcher hd hr).1
      | true =>
        have hfree : s.audit.tracker.outstanding.lookup s.nextRequestId = none := by
          unfold asserts at hok
          simp only [hd, Bool.not_true, Bool.false_or, Bool.and_eq_true,
            Option.isNone_iff_eq_none] at hok
          exact hok.2
        exact (s.request_of_dvr now pkt prefetcher hd hfree hr).1
    · exact hr
  | prefetch line =>
    unfold step
    dsimp only
    split_ifs
    · exact hr
    · exact hr
  | send line pendingModifiedResp wholeLine =>
    unfold step
    dsimp only
    split
    · exact hr
    · split_ifs
      · exact hr
      · exact hr
  | response now line r =>
    unfold step
    dsimp only
    split
    case h_1 => exact hr
    case h_2 m hm =>
      split_ifs
      · exact (s.recvTimingResp_spec now line m r hr).1
      · exact hr
  | uncachedResponse index => exact hr
  | snoop now line snoop =>
    unfold step recvTimingSnoopReq
    dsimp only
    split
    · exact (s.quiet_snoopBlk now _ snoop).requests hr
    · split_ifs
      · exact hr
      · exact (quiet_snoopBlk _ now _ snoop).requests hr

theorem quiet_snoop (now : Time) (line : Line) (snoop : Snoop) (l : Line) (hr : Requests s.audit) :
    (s.recvTimingSnoopReq now line snoop).has l = s.has l ∧
      (s.recvTimingSnoopReq now line snoop).waiting l = s.waiting l ∧
      (s.recvTimingSnoopReq now line snoop).usefulLate = s.usefulLate := by
  unfold recvTimingSnoopReq
  cases hm : s.mshrs line with
  | none =>
    have hq := s.quiet_snoopBlk now { line := line } snoop
    exact ⟨by rw [hq.has hr]; simp, waiting_of_quiet _ hq l, hq.late⟩
  | some m =>
    have hset : ∀ l, (s.setMSHR line (some (m.handleSnoop snoop).1)).waiting l = s.waiting l :=
      s.waiting_setMSHR_same (by rw [hm]; exact MSHR.hasDVR_handleSnoop m snoop)
    dsimp only
    split_ifs
    · exact ⟨rfl, hset l, rfl⟩
    · have hq := quiet_snoopBlk (s.setMSHR line (some (m.handleSnoop snoop).1)) now
        { line := line } snoop
      refine ⟨?_, (waiting_of_quiet _ hq l).trans (hset l), hq.late⟩
      rw [hq.has hr]
      simp
      rfl

/-- After a step the two agree JUST WHEN the step was kept. -/
theorem Agrees.step_iff (h : s.Agrees) (prefetcher : Bool) (e : Event) :
    (∀ l, (step prefetcher s e).has l = (step prefetcher s e).waiting l) ↔ Kept s e := by
  cases e with
  | request now pkt =>
    unfold step Kept
    dsimp only
    by_cases hok : s.asserts pkt = true
    · simp only [hok, if_true, true_implies]
      exact h.request_iff prefetcher now hok
    · rw [Bool.not_eq_true] at hok
      simp only [hok, Bool.false_eq_true, if_false, false_implies, iff_true]
      exact h.lines
  | prefetch line =>
    unfold step Kept
    dsimp only
    refine iff_of_true ?_ trivial
    split_ifs with hnone
    · simp only [Bool.and_eq_true, Option.isNone_iff_eq_none] at hnone
      intro l
      rw [waiting_setMSHR_same _ (by rw [hnone.2]; rfl), ← h.lines]
      rfl
    · exact h.lines
  | send line pendingModifiedResp wholeLine =>
    unfold step Kept
    dsimp only
    refine iff_of_true ?_ trivial
    cases hm : s.mshrs line with
    | none => exact h.lines
    | some m =>
      dsimp only
      split_ifs
      · exact h.lines
      · intro l
        rw [waiting_setMSHR_same _ (by rw [hm]; rfl), ← h.lines]
        rfl
  | response now line r =>
    unfold step Kept
    dsimp only
    cases hm : s.mshrs line with
    | none => exact iff_of_true h.lines fun m hm' _ => absurd hm' (by simp)
    | some m =>
      dsimp only
      split_ifs with hans
      · rw [h.response_iff now hm r]
        constructor
        · rintro hkept m' hm' -
          rw [← Option.some.inj hm']
          exact hkept
        · exact fun hall => hall m rfl hans
      · refine iff_of_true h.lines fun m' hm' hans' => ?_
        rw [← Option.some.inj hm'] at hans'
        exact absurd hans' hans
  | uncachedResponse index => exact h.uncached_iff index
  | snoop now line snoop =>
    refine iff_of_true (fun l => ?_) trivial
    obtain ⟨hhas, hwait, -⟩ := s.quiet_snoop now line snoop l h.requests
    show (s.recvTimingSnoopReq now line snoop).has l = _
    rw [hhas, h.lines]
    exact hwait.symm

/-- A late prefetch is counted by a demand miss whose line has a DVR target, and by nothing
    else. -/
theorem Agrees.late (h : s.Agrees) (prefetcher : Bool) {e : Event}
    (hne : (step prefetcher s e).usefulLate ≠ s.usefulLate) :
    ∃ now pkt, e = .request now pkt ∧ pkt.kind = .demand ∧ s.satisfied pkt = false ∧
      s.waiting pkt.line = true := by
  cases e with
  | request now pkt =>
    unfold step at hne
    dsimp only at hne
    split_ifs at hne with hok
    · cases hd : pkt.isDVRPrefetch with
      | false =>
        obtain ⟨hk, hmiss, hhas⟩ := (s.request_of_other now pkt prefetcher hd h.requests).2.2.2 hne
        exact ⟨now, pkt, rfl, hk, hmiss, by rw [← h.lines]; exact hhas⟩
      | true =>
        have hfree : s.audit.tracker.outstanding.lookup s.nextRequestId = none := by
          unfold asserts at hok
          simp only [hd, Bool.not_true, Bool.false_or, Bool.and_eq_true,
            Option.isNone_iff_eq_none] at hok
          exact hok.2
        exact absurd (s.request_of_dvr now pkt prefetcher hd hfree h.requests).2.1 hne
    · exact absurd rfl hne
  | prefetch line =>
    unfold step at hne
    dsimp only at hne
    split_ifs at hne
    · exact absurd rfl hne
    · exact absurd rfl hne
  | send line pendingModifiedResp wholeLine =>
    unfold step at hne
    dsimp only at hne
    split at hne
    · exact absurd rfl hne
    · split_ifs at hne
      · exact absurd rfl hne
      · exact absurd rfl hne
  | response now line r =>
    unfold step at hne
    dsimp only at hne
    split at hne
    case h_1 => exact absurd rfl hne
    case h_2 m hm =>
      split_ifs at hne
      · exact absurd (s.recvTimingResp_spec now line m r h.requests).2.2.1 hne
      · exact absurd rfl hne
  | uncachedResponse index => exact absurd rfl hne
  | snoop now line snoop =>
    exact absurd (s.quiet_snoop now line snoop line h.requests).2.2 hne

end System

/-! ## Runs -/

/-- The tracker has an entry for a line exactly when a DVR request for it is a target of an MSHR,
    and every step that counts a late prefetch is a demand miss that finds one. -/
structure Tracked (prefetcher : Bool) (s : System g) : Prop where
  lines : ∀ line, s.has line = s.waiting line
  late : ∀ e, (step prefetcher s e).usefulLate ≠ s.usefulLate →
    ∃ now pkt, e = .request now pkt ∧ pkt.kind = .demand ∧ s.satisfied pkt = false ∧
      s.waiting pkt.line = true

theorem System.Agrees.tracked {s : System g} (h : s.Agrees) (prefetcher : Bool) :
    Tracked prefetcher s :=
  ⟨h.lines, fun _ hne => h.late prefetcher hne⟩

/-- The tracker follows the MSHRs through every prefix of a run just when every step is kept. -/
theorem tracked_iff (g : Geometry) (prefetcher : Bool) (es : List Event) :
    (∀ pre, pre <+: es → Tracked prefetcher (pre.foldl (step prefetcher) ({} : System g))) ↔
      Trace.Admits Kept (step prefetcher) ({} : System g) es := by
  apply Trace.admits_iff_prefix System.Agrees (Tracked prefetcher) (fun _ => True)
  · intro s e h _ hkept
    exact ⟨s.requests_step prefetcher e h.requests, (h.step_iff prefetcher e).mpr hkept⟩
  · intro s h
    exact h.tracked prefetcher
  · intro s e h _ hno htracked
    exact hno ((h.step_iff prefetcher e).mp htracked.lines)
  · exact ⟨⟨rfl, rfl, rfl⟩, fun _ => rfl⟩
  · exact fun _ _ => trivial

/-- A cache of eight lines of 64 bytes. -/
def smallGeometry : Geometry := ⟨4, 2, 64, by decide, Nat.two_pos, by decide⟩

/-- A demand read misses, a DVR read joins it, the fill serves both. -/
def joinedFill : System smallGeometry :=
  [Event.request 1 { line := 0x40, cmd := .ReadReq, kind := .demand },
   .request 2 { line := 0x40, cmd := .ReadReq, kind := .dvrSource },
   .send 0x40 false false, .response 3 0x40 { cmd := .ReadResp }].foldl (step false) {}

/-- The tracker still has the DVR request of `joinedFill`, and no MSHR has it: the next demand miss
    would be counted as covered too late. -/
theorem joined_request_stays : joinedFill.has 0x40 = true ∧ joinedFill.waiting 0x40 = false ∧
      ¬ Tracked false joinedFill := by
  have hhas : joinedFill.has 0x40 = true := by decide
  have hwait : joinedFill.waiting 0x40 = false := by decide
  refine ⟨hhas, hwait, fun h => ?_⟩
  have heq := h.lines 0x40
  rw [hhas, hwait] at heq
  exact Bool.noConfusion heq

end Gem5Dvr.L1
