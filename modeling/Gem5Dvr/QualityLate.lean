/-
  What the quality tracker calls late (`DVRQualityTracker::demandLookup`, `completed`, `dropped`,
  `cacheFill` and `cacheRemove`, `cpu/o3/dvr_quality.cc`).

  1. **Specification** — `Observed` keeps beside the tracker what a reader of the reports knows: the
     lines whose running period of outstanding requests contains a miss, the number of such periods,
     and the requests that were outstanding at a miss on their line.  A fill comes with the request
     that led to it, as the number of its issue: ids come back, issues do not.

  2. **The crux (`Attributed`)** — the tracker's `lateReported` is the set of lines with a miss
     under a request since their last DVR fill or removal (`missed`).  The end of a request does not
     clear it, so it is neither the set of the running periods nor a fact about the request that
     fills.

  3. **Exactness (`late_exact_iff`)** — the counter and the marks are right along a run just when,
     at every miss under a request, the two sets agree on the line, and every fill of a missed line
     is led by a request that saw a miss.
-/
import Gem5Dvr.QualityTracker
import Gem5Dvr.Lib.Trace
import Mathlib.Data.Finset.Image

namespace Gem5Dvr.Quality

variable {g : Geometry}

/-! ## Specification -/

/-- Some request for the line is outstanding. -/
def pending (t : Tracker g) (line : Line) : Bool :=
  t.outstanding.entries.any fun e => e.2.line == line

/-- A report; `cause` is the number of the issue whose request led to a fill. -/
structure Caused where
  event : Event
  cause : Option Nat := none

/-- A tracker, and what a reader of the reports knows. -/
structure Observed (g : Geometry) where
  audit : Audit g := {}
  /-- The issues so far, and the issue each id was last used for. -/
  issues : Nat := 0
  issueOf : RequestId → Nat := fun _ => 0
  /-- The requests that were outstanding at a miss on their line. -/
  witnessed : Finset (Line × Nat) := ∅
  /-- The lines missed under a request since their last DVR fill or removal. -/
  missed : Finset Line := ∅
  /-- The lines whose running period contains a miss, and the number of such periods so far. -/
  period : Finset Line := ∅
  periods : Nat := 0
  /-- Every fill installed already used was led by a request that saw a miss. -/
  warranted : Bool := true

namespace Observed

def tracker (o : Observed g) : Tracker g := o.audit.tracker

/-- A demand miss on a line while a request for it is outstanding. -/
def missUnderRequest (o : Observed g) : Event → Option Line
  | .demandLookup line actual_hit _ =>
      if !actual_hit && pending o.tracker line then some line else none
  | _ => none

/-- The requests outstanding for a line. -/
def requestsFor (o : Observed g) (line : Line) : Finset (Line × Nat) :=
  ((o.tracker.outstanding.entries.filter fun e => e.2.line == line).map
    fun e => (line, o.issueOf e.1)).toFinset

/-- The request that led to the fill saw a miss on the line. -/
def led (o : Observed g) (line : Line) : Option Nat → Bool
  | none => false
  | some n => decide ((line, n) ∈ o.witnessed)

/-- A fill that is not redundant leaves the line marked used only where it may. -/
def warrants (o : Observed g) (r : Caused) : Bool :=
  match r.event with
  | .cacheFill line .DVR _ _ _ =>
      let t' := (report o.tracker r.event).1
      !(t'.counts.redundantFills == o.tracker.counts.redundantFills
        && (t'.prefetched.lookup line).any (·.used)) || o.led line r.cause
  | _ => true

/-- The lines missed since their last DVR fill or removal, after a report. -/
def missedAfter (o : Observed g) : Event → Finset Line
  | .cacheFill line .DVR _ _ _ => o.missed.erase line
  | .cacheRemove line _ => o.missed.erase line
  | e =>
      match o.missUnderRequest e with
      | none => o.missed
      | some line => insert line o.missed

/-- One report.  A period ends with the last request for its line. -/
def next (o : Observed g) (r : Caused) : Observed g :=
  let audit := step o.audit r.event
  let running := match o.missUnderRequest r.event with
    | none => o.period
    | some line => insert line o.period
  { audit := audit
    issues := match r.event with
      | .issued _ _ _ _ => o.issues + 1
      | _ => o.issues
    issueOf := match r.event with
      | .issued id _ _ _ => Function.update o.issueOf id o.issues
      | _ => o.issueOf
    witnessed := match o.missUnderRequest r.event with
      | none => o.witnessed
      | some line => o.witnessed ∪ o.requestsFor line
    missed := o.missedAfter r.event
    period := running.filter fun line => pending audit.tracker line
    periods := match o.missUnderRequest r.event with
      | none => o.periods
      | some line => if line ∈ o.period then o.periods else o.periods + 1
    warranted := o.warranted && o.warrants r }

/-- The tracker accepts the report. -/
def Accepts (o : Observed g) (r : Caused) : Prop := (report o.tracker r.event).2 = none

/-- The counter counts the periods with a miss, and the marks are warranted. -/
def LateExact (o : Observed g) : Prop :=
  o.tracker.counts.usefulLate = o.periods ∧ o.warranted = true

/-- At a miss under a request, the line was missed since its last fill or removal just when it was
    missed in the running period; and a fill that opens a stay of a missed line is led by a request
    that saw a miss. -/
def Attributable (o : Observed g) (r : Caused) : Prop :=
  match r.event with
  | .demandLookup line actual_hit now =>
      o.missUnderRequest (.demandLookup line actual_hit now) = some line →
        (line ∈ o.missed ↔ line ∈ o.period)
  | .cacheFill line .DVR _ victim _ =>
      (victim = some line ∨ o.tracker.prefetched.lookup line = none) → line ∈ o.missed →
        o.led line r.cause = true
  | _ => True

instance (o : Observed g) (r : Caused) : Decidable (o.Accepts r) :=
  inferInstanceAs (Decidable (_ = _))

instance (o : Observed g) : (r : Caused) → Decidable (o.Attributable r)
  | ⟨.demandLookup _ _ _, _⟩ => inferInstanceAs (Decidable (_ → _))
  | ⟨.cacheFill _ .DVR _ _ _, _⟩ => inferInstanceAs (Decidable (_ → _ → _))
  | ⟨.cacheFill _ .Demand _ _ _, _⟩ => isTrue trivial
  | ⟨.generated, _⟩ => isTrue trivial
  | ⟨.issued _ _ _ _, _⟩ => isTrue trivial
  | ⟨.completed _, _⟩ => isTrue trivial
  | ⟨.completedLine _, _⟩ => isTrue trivial
  | ⟨.dropped _, _⟩ => isTrue trivial
  | ⟨.demandAddressObserved, _⟩ => isTrue trivial
  | ⟨.cacheRemove _ _, _⟩ => isTrue trivial

end Observed

/-- A fresh tracker after a sequence of reports. -/
def observed (g : Geometry) (rs : List Caused) : Observed g := rs.foldl Observed.next {}

/-! ## What each report does to the late lines -/

/-- The lines reported late and their number are unchanged. -/
def SameLate (t t' : Tracker g) : Prop :=
  t'.lateReported = t.lateReported ∧ t'.counts.usefulLate = t.counts.usefulLate

theorem SameLate.trans {t t' t'' : Tracker g} (h : SameLate t t') (h' : SameLate t' t'') :
    SameLate t t'' := ⟨h'.1.trans h.1, h'.2.trans h.2⟩

section reports

variable (t : Tracker g)

theorem sameLate_issued (id : RequestId) (line : Line) (bytes : BitVec 64) (now : Time) :
    SameLate t (t.issued id line bytes now).1 := by
  by_cases hdup : (t.outstanding.lookup id).isSome = true
  · rw [Tracker.issued, if_pos hdup]
    exact ⟨rfl, rfl⟩
  · rw [Tracker.issued, if_neg hdup]
    exact ⟨rfl, rfl⟩

theorem sameLate_completed (id : RequestId) : SameLate t (t.completed id).1 := by
  rw [Tracker.completed]
  cases t.outstanding.lookup id with
  | none => exact ⟨rfl, rfl⟩
  | some request => exact ⟨rfl, rfl⟩

theorem sameLate_completedLine (line : Line) : SameLate t (t.completedLine line).1 := by
  apply Tracker.completedAll_keep (P := SameLate t)
  · intro t' id h
    exact h.trans (sameLate_completed t' id)
  · exact ⟨rfl, rfl⟩

theorem sameLate_dropped (id : RequestId) : SameLate t (t.dropped id) := by
  rw [Tracker.dropped]
  cases t.outstanding.lookup id with
  | none => exact ⟨rfl, rfl⟩
  | some request => exact ⟨rfl, rfl⟩

/-- The lookup is a miss while a request for the line is outstanding. -/
def isLate (line : Line) (actual_hit : Bool) : Bool :=
  !actual_hit && t.outstandingByLine.any (·.1 == line)

/-- A line is reported late once. -/
def Reports (line : Line) (late : Bool) (t t' : Tracker g) : Prop :=
  t'.lateReported = (if late then insert line t.lateReported else t.lateReported) ∧
    t'.counts.usefulLate
      = t.counts.usefulLate + if late && !decide (line ∈ t.lateReported) then 1 else 0

theorem credit_late (line : Line) (actual_hit shadow_hit : Bool) (now : Time) :
    Reports line (isLate t line actual_hit) t (t.credit line actual_hit shadow_hit now) := by
  -- the branch for late lines, which is taken at a hit that finds nothing to credit too
  have hlate : Reports line (isLate t line actual_hit) t
      (if isLate t line actual_hit && !decide (line ∈ t.lateReported) then
        { t with lateReported := insert line t.lateReported }.count fun c =>
          { c with usefulLate := c.usefulLate + 1 }
      else t) := by
    unfold Reports
    cases hl : isLate t line actual_hit with
    | false => exact ⟨rfl, rfl⟩
    | true =>
      by_cases hin : line ∈ t.lateReported
      · rw [if_neg (by simp [hin]), if_pos rfl, if_neg (by simp [hin])]
        exact ⟨(Finset.insert_eq_of_mem hin).symm, rfl⟩
      · rw [if_pos (by simp [hin]), if_pos rfl, if_pos (by simp [hin])]
        exact ⟨rfl, rfl⟩
  unfold Tracker.credit
  cases t.prefetched.lookup line with
  | none => exact hlate
  | some useful =>
    by_cases huse : (actual_hit && !useful.used) = true
    · have hhit : actual_hit = true := (Bool.and_eq_true_iff.mp huse).1
      have hno : isLate t line actual_hit = false := by simp [isLate, hhit]
      simp only [if_pos huse, hno]
      exact ⟨rfl, rfl⟩
    · simp only [if_neg huse]
      exact hlate

theorem sameLate_charge (line : Line) (actual_hit shadow_hit : Bool) :
    SameLate t (t.charge line actual_hit shadow_hit) := by
  rw [Tracker.charge]
  split_ifs
  · exact ⟨rfl, rfl⟩
  · exact ⟨rfl, rfl⟩

/-- A lookup reports its line late at a miss under a request only. -/
theorem demandLookup_late (line : Line) (actual_hit : Bool) (now : Time) :
    Reports line (isLate t line actual_hit) t (t.demandLookup line actual_hit now) := by
  have hcredit :=
    credit_late (t.look line actual_hit).1 line actual_hit (t.look line actual_hit).2 now
  have hcharge := sameLate_charge
    ((t.look line actual_hit).1.credit line actual_hit (t.look line actual_hit).2 now)
    line actual_hit (t.look line actual_hit).2
  constructor
  · exact hcharge.1.trans hcredit.1
  · exact hcharge.2.trans hcredit.2

theorem sameLate_leave (line : Line) : SameLate t (t.leave line) := by
  rw [Tracker.leave]
  cases t.prefetched.lookup line with
  | none => exact ⟨rfl, rfl⟩
  | some old => exact ⟨rfl, rfl⟩

theorem leave_redundant (line : Line) :
    (t.leave line).counts.redundantFills = t.counts.redundantFills := by
  rw [Tracker.leave]
  cases t.prefetched.lookup line with
  | none => rfl
  | some old => rfl

theorem leave_prefetched (line : Line) : (t.leave line).prefetched = t.prefetched.erase line := by
  rw [Tracker.leave]
  cases hin : t.prefetched.lookup line with
  | none => exact (Table.erase_of_lookup_none hin).symm
  | some old => rfl

/-- A victim leaves the other parts of the tracker as they were. -/
theorem evict_late (origin : FillOrigin) (victim : Line) (victim_origin : FillOrigin) :
    let t' := t.evict origin victim victim_origin
    SameLate t t' ∧ t'.counts.redundantFills = t.counts.redundantFills ∧
      t'.prefetched = t.prefetched.erase victim := by
  have hlate := sameLate_leave t victim
  have hred := leave_redundant t victim
  have hpre := leave_prefetched t victim
  simp only [Tracker.evict]
  split_ifs
  · exact ⟨hlate, hred, hpre⟩
  · exact ⟨hlate, hred, hpre⟩

/-- A DVR fill takes its line out of the late ones.  It opens a stay where none is running, and
    marks it used where the line was late. -/
theorem install_dvr (line : Line) (now : Time) :
    let t' := t.install line .DVR now
    t'.lateReported = t.lateReported.erase line ∧ t'.counts.usefulLate = t.counts.usefulLate ∧
      (t'.counts.redundantFills = t.counts.redundantFills ↔ t.prefetched.lookup line = none) ∧
      (t.prefetched.lookup line = none →
        t'.prefetched.lookup line = some ⟨now, decide (line ∈ t.lateReported)⟩) := by
  unfold Tracker.install
  cases hin : t.prefetched.lookup line with
  | none =>
    have hno : ¬ ((none : Option PrefetchedLine).isSome = true) := Bool.false_ne_true
    simp only [Tracker.count, hin, if_neg hno]
    exact ⟨trivial, trivial, trivial, fun _ => AList.lookup_insert _⟩
  | some old =>
    have hyes : (some old).isSome = true := rfl
    simp only [Tracker.count, hin, if_pos hyes]
    refine ⟨trivial, trivial, ?_, fun h => absurd h (Option.some_ne_none _)⟩
    constructor
    · intro heq
      omega
    · exact fun h => absurd h (Option.some_ne_none _)

end reports

/-! ## Outstanding requests -/

/-- The two containers hold the same requests. -/
theorem Requests.any_iff {a : Audit g} (h : Requests a) (line : Line) :
    a.tracker.outstandingByLine.any (·.1 == line) = pending a.tracker line := by
  rw [h.perm.any_eq, List.any_map]
  rfl

/-! ## One report -/

/-- The tracker's late lines are the lines missed since their last fill or removal. -/
structure Attributed (o : Observed g) : Prop where
  requests : Requests o.audit
  missed : o.tracker.lateReported = o.missed
  exact : o.LateExact

section next

variable {o : Observed g}

theorem next_tracker (o : Observed g) (r : Caused) :
    (o.next r).tracker = (report o.tracker r.event).1 := step_tracker o.audit r.event

theorem isLate_iff (h : Requests o.audit) (line : Line) (actual_hit : Bool) (now : Time) :
    o.missUnderRequest (.demandLookup line actual_hit now)
      = if isLate o.tracker line actual_hit then some line else none := by
  have hany := h.any_iff line
  show (if !actual_hit && pending o.tracker line then some line else none) = _
  rw [isLate, Observed.tracker, hany]

/-- What a fill that is accepted does, its victim being gone. -/
theorem cacheFill_accepted {t : Tracker g} {line : Line} {origin : FillOrigin} {now : Time}
    {victim : Option Line} {victim_origin : Option FillOrigin}
    (hok : (t.cacheFill line origin now victim victim_origin).2 = none) :
    ∃ t', SameLate t t' ∧ t'.counts.redundantFills = t.counts.redundantFills ∧
      (t'.prefetched.lookup line = none ↔ victim = some line ∨ t.prefetched.lookup line = none) ∧
      (t.cacheFill line origin now victim victim_origin).1 = t'.install line origin now := by
  cases victim with
  | none =>
    cases victim_origin with
    | none =>
      refine ⟨t, ⟨rfl, rfl⟩, rfl, ?_, rfl⟩
      constructor
      · exact Or.inr
      · intro h
        exact h.resolve_left nofun
    | some _ => nomatch hok
  | some victim =>
    cases victim_origin with
    | none => nomatch hok
    | some victim_origin =>
      obtain ⟨hlate, hred, hpre⟩ := evict_late t origin victim victim_origin
      refine ⟨t.evict origin victim victim_origin, hlate, hred, ?_, rfl⟩
      rw [hpre]
      by_cases hv : victim = line
      · subst hv
        rw [AList.lookup_erase]
        exact iff_of_true rfl (Or.inl rfl)
      · have hne : line ≠ victim := fun heq => hv heq.symm
        rw [AList.lookup_erase_ne hne]
        constructor
        · exact Or.inr
        · intro h
          exact h.resolve_left fun heq => hv (Option.some.inj heq)

theorem install_demand_late (t : Tracker g) (line : Line) (now : Time) :
    SameLate t (t.install line .Demand now) := ⟨rfl, rfl⟩

/-- The tracker's late lines move with the reader's. -/
theorem report_late (hreq : Requests o.audit) (hmissed : o.tracker.lateReported = o.missed)
    {r : Caused} (hok : o.Accepts r) :
    (report o.tracker r.event).1.lateReported = o.missedAfter r.event ∧
      (report o.tracker r.event).1.counts.usefulLate = o.tracker.counts.usefulLate +
        match o.missUnderRequest r.event with
        | none => 0
        | some line => if line ∈ o.missed then 0 else 1 := by
  obtain ⟨e, cause⟩ := r
  -- a report that leaves the late lines alone
  have hquiet : ∀ t' : Tracker g, SameLate o.tracker t' →
      t'.lateReported = o.missed ∧ t'.counts.usefulLate = o.tracker.counts.usefulLate + 0 :=
    fun t' h => ⟨h.1.trans hmissed, h.2⟩
  cases e with
  | generated => exact hquiet _ ⟨rfl, rfl⟩
  | issued id line bytes now => exact hquiet _ (sameLate_issued o.tracker id line bytes now)
  | completed id => exact hquiet _ (sameLate_completed o.tracker id)
  | completedLine line => exact hquiet _ (sameLate_completedLine o.tracker line)
  | dropped id => exact hquiet _ (sameLate_dropped o.tracker id)
  | demandAddressObserved => exact hquiet _ ⟨rfl, rfl⟩
  | demandLookup line actual_hit now =>
    have hlook := demandLookup_late o.tracker line actual_hit now
    unfold Reports at hlook
    simp only [Observed.missedAfter, isLate_iff hreq, report]
    rw [hmissed] at hlook
    cases hl : isLate o.tracker line actual_hit with
    | false =>
      rw [hl] at hlook
      exact hlook
    | true =>
      rw [hl] at hlook
      refine ⟨hlook.1, ?_⟩
      rw [hlook.2]
      by_cases hin : line ∈ o.missed
      · simp [hin]
      · simp [hin]
  | cacheFill line origin now victim victim_origin =>
    obtain ⟨t', hlate, -, -, hfill⟩ := cacheFill_accepted hok
    simp only [report]
    rw [hfill]
    cases origin with
    | Demand => exact hquiet _ (hlate.trans (install_demand_late t' line now))
    | DVR =>
      obtain ⟨hi, hu, -, -⟩ := install_dvr t' line now
      rw [hi, hu, hlate.1, hlate.2, hmissed]
      exact ⟨rfl, rfl⟩
  | cacheRemove line origin =>
    have hleave := sameLate_leave o.tracker line
    simp only [report, Tracker.cacheRemove]
    split_ifs
    · rw [hleave.1, hleave.2, hmissed]
      exact ⟨rfl, rfl⟩
    · rw [hmissed]
      exact ⟨rfl, rfl⟩

/-- A fill of a line not missed, or one that opens no stay, has nothing to warrant. -/
theorem warrants_fill (hmissed : o.tracker.lateReported = o.missed) {line : Line} {now : Time}
    {victim : Option Line} {victim_origin : Option FillOrigin} {cause : Option Nat}
    (hok : o.Accepts ⟨.cacheFill line .DVR now victim victim_origin, cause⟩) :
    o.warrants ⟨.cacheFill line .DVR now victim victim_origin, cause⟩ = true ↔
      o.Attributable ⟨.cacheFill line .DVR now victim victim_origin, cause⟩ := by
  obtain ⟨t', hlate, hred, hopen, hfill⟩ := cacheFill_accepted hok
  obtain ⟨-, -, hsame, hmark⟩ := install_dvr t' line now
  simp only [Observed.warrants, Observed.Attributable, report]
  rw [hfill, ← hred, ← hopen]
  rw [hlate.1, hmissed] at hmark
  cases hin : t'.prefetched.lookup line with
  | none =>
    rw [hmark hin, beq_iff_eq.mpr (hsame.mpr hin)]
    by_cases hm : line ∈ o.missed
    · simp [hm]
    · simp [hm]
  | some old =>
    have hno : ¬ (t'.install line .DVR now).counts.redundantFills = t'.counts.redundantFills := by
      rw [hsame, hin]
      exact fun h => absurd h (Option.some_ne_none _)
    rw [beq_eq_false_iff_ne.mpr hno]
    exact iff_of_true rfl fun h => absurd h (Option.some_ne_none _)

/-- After a report the counter and the marks are right just when the report is attributable. -/
theorem next_exact_iff (h : Attributed o) {r : Caused} (hok : o.Accepts r) :
    (o.next r).LateExact ↔ o.Attributable r := by
  obtain ⟨hreq, hmissed, hcount, hwarranted⟩ := h
  have hlate := (report_late hreq hmissed hok).2
  unfold Observed.LateExact
  rw [next_tracker, hlate, hcount]
  show _ = (match o.missUnderRequest r.event with
      | none => o.periods
      | some line => if line ∈ o.period then o.periods else o.periods + 1) ∧
    (o.warranted && o.warrants r) = true ↔ _
  rw [hwarranted, Bool.true_and]
  obtain ⟨e, cause⟩ := r
  cases e with
  | demandLookup line actual_hit now =>
    simp only [Observed.warrants, Observed.Attributable]
    cases hm : o.missUnderRequest (.demandLookup line actual_hit now) with
    | none => exact iff_of_true ⟨rfl, trivial⟩ nofun
    | some line' =>
      have hline : line' = line := by
        rw [isLate_iff hreq] at hm
        split_ifs at hm
        exact (Option.some.inj hm).symm
      subst hline
      -- the counter moves unless the line was missed, the number of periods unless its period was
      by_cases h1 : line' ∈ o.missed
      · by_cases h2 : line' ∈ o.period
        · simp [h1, h2]
        · simp [h1, h2]
      · by_cases h2 : line' ∈ o.period
        · simp [h1, h2]
        · simp [h1, h2]
  | cacheFill line origin now victim victim_origin =>
    cases origin with
    | Demand => exact iff_of_true ⟨rfl, rfl⟩ trivial
    | DVR =>
      have hw := warrants_fill hmissed hok
      constructor
      · intro hboth
        exact hw.mp hboth.2
      · intro hat
        exact ⟨rfl, hw.mpr hat⟩
  | _ => exact iff_of_true ⟨rfl, rfl⟩ trivial

theorem Attributed.next (h : Attributed o) {r : Caused} (hok : o.Accepts r)
    (hat : o.Attributable r) : Attributed (o.next r) where
  requests := h.requests.step r.event
  missed := by
    rw [next_tracker]
    exact (report_late h.requests h.missed hok).1
  exact := (next_exact_iff h hok).mpr hat

end next

/-! ## Every accepted sequence of reports -/

/-- Along an accepted sequence `usefulLate` counts the periods of outstanding requests that contain
    a miss, and every mark is warranted, just when every report of the sequence is attributable. -/
theorem late_exact_iff (g : Geometry) (rs : List Caused)
    (hok : Trace.Admits Observed.Accepts Observed.next ({} : Observed g) rs) :
    (∀ pre, pre <+: rs → (observed g pre).LateExact) ↔
      Trace.Admits Observed.Attributable Observed.next ({} : Observed g) rs := by
  apply Trace.Admits.iff_prefix Attributed Observed.LateExact
  · intro o r h hacc hat
    exact h.next hacc hat
  · intro o h
    exact h.exact
  · intro o r h hacc hnot hexact
    exact hnot ((next_exact_iff h hacc).mp hexact)
  · exact ⟨⟨rfl, rfl, rfl⟩, rfl, rfl, rfl⟩
  · exact hok

/-- One way of one line. -/
def oneLine : Geometry := ⟨1, 1, 1, Nat.one_pos, Nat.one_pos, Nat.one_pos⟩

/-- A request that a miss runs into, and its fill. -/
def lateFill : List Caused :=
  [⟨.issued 2 5 64 40, none⟩, ⟨.demandLookup 5 false 45, none⟩, ⟨.completed 2, none⟩,
   ⟨.cacheFill 5 .DVR 50 none none, some 0⟩]

/-- Its lateness is reported when the fill comes. -/
theorem late_exact_lateFill : (observed oneLine lateFill).LateExact :=
  (late_exact_iff oneLine lateFill (by decide)).mpr (by decide) lateFill (List.prefix_refl lateFill)

/-- A request that a miss ran into is dropped, and the line is asked for again. -/
def askAgain : List Caused :=
  [⟨.issued 1 5 64 0, none⟩, ⟨.demandLookup 5 false 1, none⟩, ⟨.dropped 1, none⟩,
   ⟨.issued 2 5 64 2, none⟩]

/-- The second request runs into a miss too. -/
def missAgain : List Caused := askAgain ++ [⟨.demandLookup 5 false 3, none⟩]

/-- The second request fills, with no miss in between. -/
def fillAgain : List Caused :=
  askAgain ++ [⟨.completed 2, none⟩, ⟨.cacheFill 5 .DVR 4 none none, some 1⟩]

/-- The miss under the second request is not counted; and the fill that the second request leads to,
    which no miss ran into, is installed already used. -/
theorem dropped_stays_late :
    (Trace.Admits Observed.Accepts Observed.next ({} : Observed oneLine) missAgain ∧
      (observed oneLine missAgain).tracker.counts.usefulLate = 1 ∧
      (observed oneLine missAgain).periods = 2) ∧
    Trace.Admits Observed.Accepts Observed.next ({} : Observed oneLine) fillAgain ∧
      (observed oneLine fillAgain).tracker.prefetched.lookup 5 = some ⟨4, true⟩ ∧
      (observed oneLine fillAgain).witnessed = {(5, 0)} ∧
      (observed oneLine fillAgain).warranted = false := by
  decide

end Gem5Dvr.Quality
