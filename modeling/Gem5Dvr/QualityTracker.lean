/-
  The DVR prefetch quality tracker (`DVRQualityTracker`, `cpu/o3/dvr_quality.hh`, `dvr_quality.cc`).

  The measured cache reports what it does — requests issued, completed and dropped, demand lookups,
  fills with their victims, removals — and the tracker keeps counters whose ratios are the published
  accuracy, coverage and pollution figures.

  1. **Program** — the nine reporting methods over the six containers.  A method that throws is one
     that returns an `Exception` NEXT TO the state it leaves, so that a throw after a half-done
     update could be written.  Maps are `AList`s, sets `Finset`s; the multimap is a list, whose order
     stands for the order of its iterator.

  2. **The crux (`Conserved`)** — a balance for each group of counters.  Every request is
     outstanding, completed or dropped; every fill that is not redundant opens a stay of its line,
     and a stay is unused, or was counted useful or unused ONCE; every victim is counted once.

  Counters of events are `Nat`; sums of what the caller passes (`bytes`, times) wrap as the source's
  `uint64_t` do.
-/
import Gem5Dvr.Lib.Table
import Mathlib.Data.BitVec
import Mathlib.Data.Finset.Card
import Mathlib.Algebra.Order.Group.Multiset
import Mathlib.Tactic.Ring

namespace Gem5Dvr.Quality

open List

/-! ## The program -/

/-- The address of a line. -/
abbrev Line := BitVec 64
/-- The number of a request. -/
abbrev RequestId := BitVec 64
/-- Ticks. -/
abbrev Time := BitVec 64

/-- Who asked for a fill. -/
inductive FillOrigin
  | Demand | DVR
  deriving DecidableEq, Repr

/-- What a method can throw. -/
inductive Exception
  | logic_error (what : String)
  | invalid_argument (what : String)
  deriving DecidableEq, Repr

/-- The counters. -/
structure Counters where
  generated : Nat := 0
  issued : Nat := 0
  issuedBytes : BitVec 64 := 0
  completed : Nat := 0
  completedBytes : BitVec 64 := 0
  fills : Nat := 0
  redundantFills : Nat := 0
  usefulTimely : Nat := 0
  usefulLate : Nat := 0
  coveredMisses : Nat := 0
  unusedEvictions : Nat := 0
  demandAccesses : Nat := 0
  demandAddressesObserved : Nat := 0
  actualDemandMisses : Nat := 0
  shadowDemandMisses : Nat := 0
  pollutionEvictions : Nat := 0
  pollutionMisses : Nat := 0
  leadTime : BitVec 64 := 0
  deriving DecidableEq, Repr

/-- A request in flight. -/
structure Request where
  line : Line
  bytes : BitVec 64
  issuedAt : Time
  deriving DecidableEq, Repr

/-- A prefetched line of the cache, and whether it was used. -/
structure PrefetchedLine where
  filledAt : Time
  used : Bool := false
  deriving DecidableEq, Repr

/-- The arguments of the constructor, which throws when one of them is zero. -/
structure Geometry where
  set_count : Nat
  way_count : Nat
  line_bytes : Nat
  set_pos : 0 < set_count
  way_pos : 0 < way_count
  line_pos : 0 < line_bytes

/-- `DVRQualityTracker::ShadowCache`: the lines of each set, most recent first. -/
structure ShadowCache (g : Geometry) where
  sets : Fin g.set_count → List Line := fun _ => []

namespace ShadowCache

variable {g : Geometry}

/-- The set of a line. -/
def index (line : Line) : Fin g.set_count := ⟨line.toNat / g.line_bytes % g.set_count,
  Nat.mod_lt _ g.set_pos⟩

/-- The line is in its set. -/
def contains (c : ShadowCache g) (line : Line) : Bool := (c.sets (index line)).contains line

/-- The value returned is whether the line was there. -/
def access (c : ShadowCache g) (line : Line) : ShadowCache g × Bool :=
  let set := c.sets (index line)
  if set.contains line then
    (⟨Function.update c.sets (index line) (line :: set.erase line)⟩, true)
  else
    let pushed := line :: set
    let kept := if g.way_count < pushed.length then pushed.dropLast else pushed
    (⟨Function.update c.sets (index line) kept⟩, false)

end ShadowCache

/-- The fields of `DVRQualityTracker`. -/
structure Tracker (g : Geometry) where
  counts : Counters := {}
  demandShadow : ShadowCache g := {}
  outstanding : AList (fun _ : RequestId => Request) := ∅
  outstandingByLine : List (Line × RequestId) := []
  prefetched : AList (fun _ : Line => PrefetchedLine) := ∅
  lateReported : Finset Line := ∅
  pollutionVictims : Finset Line := ∅

namespace Tracker

variable {g : Geometry}

/-- The counters after a change. -/
def count (t : Tracker g) (f : Counters → Counters) : Tracker g := { t with counts := f t.counts }

/-- A prefetch is generated. -/
def generated (t : Tracker g) : Tracker g :=
  t.count fun c => { c with generated := c.generated + 1 }

/-- A demand address is seen. -/
def demandAddressObserved (t : Tracker g) : Tracker g :=
  t.count fun c => { c with demandAddressesObserved := c.demandAddressesObserved + 1 }

/-- A request is sent. -/
def issued (t : Tracker g) (id : RequestId) (line : Line) (bytes : BitVec 64) (now : Time) :
    Tracker g × Option Exception :=
  if (t.outstanding.lookup id).isSome then
    (t, some (.logic_error "duplicate DVR quality request id"))
  else
    let t := { t with
      outstanding := t.outstanding.insert id ⟨line, bytes, now⟩
      outstandingByLine := (line, id) :: t.outstandingByLine }
    (t.count fun c =>
      { c with issued := c.issued + 1, issuedBytes := c.issuedBytes + bytes }, none)

/-- Both `completed` and `dropped` take the request out of the two containers. -/
def forget (t : Tracker g) (id : RequestId) (request : Request) : Tracker g :=
  { t with
    outstandingByLine := t.outstandingByLine.erase (request.line, id)
    outstanding := t.outstanding.erase id }

/-- A request is answered. -/
def completed (t : Tracker g) (id : RequestId) : Tracker g × Option Exception :=
  match t.outstanding.lookup id with
  | none => (t, some (.logic_error "unknown DVR quality completion id"))
  | some request =>
      ((t.forget id request).count fun c =>
        { c with
          completed := c.completed + 1
          completedBytes := c.completedBytes + request.bytes }, none)

/-- The second loop of `completedLine`; a throw leaves it. -/
def completedAll (t : Tracker g) : List RequestId → Tracker g × Option Exception
  | [] => (t, none)
  | id :: ids =>
      match t.completed id with
      | (t, some e) => (t, some e)
      | (t, none) => t.completedAll ids

/-- Every request for a line is answered. -/
def completedLine (t : Tracker g) (line : Line) : Tracker g × Option Exception :=
  t.completedAll ((t.outstandingByLine.filter (·.1 == line)).map (·.2))

/-- A request is given up. -/
def dropped (t : Tracker g) (id : RequestId) : Tracker g :=
  match t.outstanding.lookup id with
  | none => t
  | some request => t.forget id request

/-- The part of `demandLookup` that credits a prefetch. -/
def credit (t : Tracker g) (line : Line) (actual_hit shadow_hit : Bool) (now : Time) : Tracker g :=
  let late (t : Tracker g) : Tracker g :=
    if !actual_hit && t.outstandingByLine.any (·.1 == line) && !decide (line ∈ t.lateReported) then
      { t with lateReported := insert line t.lateReported }.count fun c =>
        { c with usefulLate := c.usefulLate + 1 }
    else t
  match t.prefetched.lookup line with
  | none => late t
  | some useful =>
      if actual_hit && !useful.used then
        { t with prefetched := t.prefetched.insert line { useful with used := true } }.count fun c =>
          { c with
            usefulTimely := c.usefulTimely + 1
            coveredMisses := if shadow_hit then c.coveredMisses else c.coveredMisses + 1
            leadTime := c.leadTime + (now - useful.filledAt) }
      else late t

/-- The part of `demandLookup` that counts the access; the value returned is `shadow_hit`. -/
def look (t : Tracker g) (line : Line) (actual_hit : Bool) : Tracker g × Bool :=
  let (shadow, shadow_hit) := t.demandShadow.access line
  ({ t with demandShadow := shadow }.count fun c =>
    { c with
      demandAccesses := c.demandAccesses + 1
      actualDemandMisses := if actual_hit then c.actualDemandMisses else c.actualDemandMisses + 1
      shadowDemandMisses := if shadow_hit then c.shadowDemandMisses else c.shadowDemandMisses + 1 },
    shadow_hit)

/-- The part of `demandLookup` that charges a miss to pollution; any reference ends the window. -/
def charge (t : Tracker g) (line : Line) (actual_hit shadow_hit : Bool) : Tracker g :=
  let t' := { t with pollutionVictims := t.pollutionVictims.erase line }
  if !actual_hit && shadow_hit && decide (line ∈ t.pollutionVictims) then
    t'.count fun c => { c with pollutionMisses := c.pollutionMisses + 1 }
  else t'

/-- A demand access: its miss, the shadow's, and what it credits. -/
def demandLookup (t : Tracker g) (line : Line) (actual_hit : Bool) (now : Time) : Tracker g :=
  let (t, shadow_hit) := t.look line actual_hit
  (t.credit line actual_hit shadow_hit now).charge line actual_hit shadow_hit

/-- A prefetched line leaves; an unused one is counted. -/
def leave (t : Tracker g) (line : Line) : Tracker g :=
  match t.prefetched.lookup line with
  | none => t
  | some old =>
      { t with prefetched := t.prefetched.erase line }.count fun c =>
        { c with unusedEvictions := if old.used then c.unusedEvictions else c.unusedEvictions + 1 }

/-- The part of `cacheFill` about its victim. -/
def evict (t : Tracker g) (origin : FillOrigin) (victim : Line) (victim_origin : FillOrigin) :
    Tracker g :=
  let t := t.leave victim
  let t := { t with pollutionVictims := t.pollutionVictims.erase victim }
  if origin = .DVR ∧ victim_origin = .Demand ∧ t.demandShadow.contains victim then
    { t with pollutionVictims := insert victim t.pollutionVictims }.count fun c =>
      { c with pollutionEvictions := c.pollutionEvictions + 1 }
  else t

/-- The part of `cacheFill` about the line itself. -/
def install (t : Tracker g) (line : Line) (origin : FillOrigin) (now : Time) : Tracker g :=
  match origin with
  | .DVR =>
      let already_used := decide (line ∈ t.lateReported)
      let t := { t with lateReported := t.lateReported.erase line }.count fun c =>
        { c with fills := c.fills + 1 }
      if (t.prefetched.lookup line).isSome then
        t.count fun c => { c with redundantFills := c.redundantFills + 1 }
      else { t with prefetched := t.prefetched.insert line ⟨now, already_used⟩ }
  | .Demand =>
      { t with
        prefetched := t.prefetched.erase line
        pollutionVictims := t.pollutionVictims.erase line }

/-- A fill, and what it evicts. -/
def cacheFill (t : Tracker g) (line : Line) (origin : FillOrigin) (now : Time)
    (victim : Option Line) (victim_origin : Option FillOrigin) : Tracker g × Option Exception :=
  match victim, victim_origin with
  | some victim, some victim_origin =>
      ((t.evict origin victim victim_origin).install line origin now, none)
  | none, none => (t.install line origin now, none)
  | _, _ => (t, some (.invalid_argument "DVR fill victim metadata is incomplete"))

/-- A line leaves the cache. -/
def cacheRemove (t : Tracker g) (line : Line) (origin : FillOrigin) : Tracker g :=
  let t := if origin = .DVR then t.leave line else t
  { t with
    pollutionVictims := t.pollutionVictims.erase line
    lateReported := t.lateReported.erase line }

end Tracker

/-- What `completed` keeps, `completedLine` keeps. -/
theorem Tracker.completedAll_keep {g : Geometry} {P : Tracker g → Prop}
    (hone : ∀ t id, P t → P (t.completed id).1) {t : Tracker g} (ids : List RequestId) (h : P t) :
    P (t.completedAll ids).1 := by
  induction ids generalizing t with
  | nil => exact h
  | cons id ids ih =>
    have hfirst := hone t id h
    rw [Tracker.completedAll]
    cases hc : t.completed id with
    | mk t' thrown =>
      rw [hc] at hfirst
      cases thrown with
      | none => exact ih hfirst
      | some e => exact hfirst

/-! ## Events -/

/-- One report to the tracker. -/
inductive Event
  | generated
  | issued (id : RequestId) (line : Line) (bytes : BitVec 64) (now : Time)
  | completed (id : RequestId)
  | completedLine (line : Line)
  | dropped (id : RequestId)
  | demandAddressObserved
  | demandLookup (line : Line) (actual_hit : Bool) (now : Time)
  | cacheFill (line : Line) (origin : FillOrigin) (now : Time) (victim : Option Line)
      (victim_origin : Option FillOrigin)
  | cacheRemove (line : Line) (origin : FillOrigin)
  deriving DecidableEq, Repr

variable {g : Geometry}

/-- The tracker after a report, and what the report threw. -/
def report (t : Tracker g) : Event → Tracker g × Option Exception
  | .generated => (t.generated, none)
  | .issued id line bytes now => t.issued id line bytes now
  | .completed id => t.completed id
  | .completedLine line => t.completedLine line
  | .dropped id => (t.dropped id, none)
  | .demandAddressObserved => (t.demandAddressObserved, none)
  | .demandLookup line actual_hit now => (t.demandLookup line actual_hit now, none)
  | .cacheFill line origin now victim victim_origin =>
      t.cacheFill line origin now victim victim_origin
  | .cacheRemove line origin => (t.cacheRemove line origin, none)

/-- The request a report drops: `dropped` of an unknown id has no effect. -/
def drops (t : Tracker g) : Event → Option Request
  | .dropped id => t.outstanding.lookup id
  | _ => none

/-- A tracker, with the number and the bytes of the drops so far. -/
structure Audit (g : Geometry) where
  tracker : Tracker g := {}
  drops : Nat := 0
  droppedBytes : BitVec 64 := 0

/-- One report; the caller goes on after a throw. -/
def step (a : Audit g) (e : Event) : Audit g :=
  let tracker := (report a.tracker e).1
  match drops a.tracker e with
  | none => { a with tracker := tracker }
  | some request => ⟨tracker, a.drops + 1, a.droppedBytes + request.bytes⟩

theorem step_tracker (a : Audit g) (e : Event) : (step a e).tracker = (report a.tracker e).1 := by
  unfold step
  cases drops a.tracker e with
  | none => rfl
  | some request => rfl

/-- A fresh tracker after a sequence of reports. -/
def run (g : Geometry) (es : List Event) : Audit g := es.foldl step {}

/-! ## The balances -/

/-- The prefetched lines that are resident and not yet used. -/
def unusedResident (t : Tracker g) : Nat := (t.prefetched.entries.filter fun e => !e.2.used).length

/-- Every request is outstanding, completed or dropped. -/
structure Requests (a : Audit g) : Prop where
  byLine : (a.tracker.outstandingByLine : Multiset (Line × RequestId))
    = Table.total (fun id r => {(r.line, id)}) a.tracker.outstanding
  requests : a.tracker.counts.issued
    = a.tracker.counts.completed + a.drops + Table.total (fun _ _ => 1) a.tracker.outstanding
  bytes : a.tracker.counts.issuedBytes = a.tracker.counts.completedBytes + a.droppedBytes
    + Table.total (fun _ r => r.bytes) a.tracker.outstanding

/-- A stay that is neither used nor over. -/
def isUnused (p : PrefetchedLine) : Nat := if p.used then 0 else 1

/-- Every stay of a line, every covered miss and every victim is counted once. -/
structure Stays (t : Tracker g) : Prop where
  stays : t.counts.usefulTimely + t.counts.unusedEvictions
    + Table.total (fun _ p => isUnused p) t.prefetched + t.counts.redundantFills ≤ t.counts.fills
  covered_le_useful : t.counts.coveredMisses ≤ t.counts.usefulTimely
  covered_le_shadow : t.counts.coveredMisses ≤ t.counts.shadowDemandMisses
  late : t.counts.usefulLate ≤ t.counts.actualDemandMisses
  pollution : t.counts.pollutionMisses + t.pollutionVictims.card ≤ t.counts.pollutionEvictions

theorem total_isUnused (t : Tracker g) :
    Table.total (fun _ p => isUnused p) t.prefetched = unusedResident t := by
  unfold Table.total unusedResident
  induction t.prefetched.entries with
  | nil => rfl
  | cons e es ih =>
    rw [map_cons, sum_cons, ih]
    cases he : e.2.used <;> simp [isUnused, he, Nat.add_comm]

/-! ### Requests -/

section requests

variable {a : Audit g}

/-- What the request balance reads is unchanged. -/
def SameRequests (t t' : Tracker g) : Prop :=
  t'.outstanding = t.outstanding ∧ t'.outstandingByLine = t.outstandingByLine ∧
    t'.counts.issued = t.counts.issued ∧ t'.counts.issuedBytes = t.counts.issuedBytes ∧
    t'.counts.completed = t.counts.completed ∧ t'.counts.completedBytes = t.counts.completedBytes

theorem SameRequests.trans {t t' t'' : Tracker g} (h : SameRequests t t') (h' : SameRequests t' t'') :
    SameRequests t t'' := by
  obtain ⟨h1, h2, h3, h4, h5, h6⟩ := h
  obtain ⟨k1, k2, k3, k4, k5, k6⟩ := h'
  exact ⟨k1.trans h1, k2.trans h2, k3.trans h3, k4.trans h4, k5.trans h5, k6.trans h6⟩

theorem Requests.of_same (h : Requests a) {t : Tracker g} (hsame : SameRequests a.tracker t) :
    Requests { a with tracker := t } := by
  obtain ⟨h1, h2, h3, h4, h5, h6⟩ := hsame
  refine ⟨?_, ?_, ?_⟩
  · show (t.outstandingByLine : Multiset (Line × RequestId)) = _
    rw [h2, h1]
    exact h.byLine
  · show t.counts.issued = _
    rw [h3, h5, h1]
    exact h.requests
  · show t.counts.issuedBytes = _
    rw [h4, h6, h1]
    exact h.bytes

theorem Requests.issued (h : Requests a) {id : RequestId} (hid : a.tracker.outstanding.lookup id = none)
    (line : Line) (bytes : BitVec 64) (now : Time) :
    Requests { a with tracker := (a.tracker.issued id line bytes now).1 } := by
  have hno : ¬ (a.tracker.outstanding.lookup id).isSome = true := by simp [hid]
  simp only [Tracker.issued, if_neg hno]
  refine ⟨?_, ?_, ?_⟩
  · simp only [Tracker.count, Table.total_insert _ hid]
    rw [← h.byLine]
    rfl
  · simp only [Tracker.count, Table.total_insert _ hid]
    rw [h.requests]
    omega
  · simp only [Tracker.count, Table.total_insert _ hid]
    rw [h.bytes]
    ring

/-- Taking a request out of both containers keeps them in step. -/
theorem Requests.forget_byLine (h : Requests a) {id : RequestId} {request : Request}
    (hid : a.tracker.outstanding.lookup id = some request) :
    ((a.tracker.forget id request).outstandingByLine : Multiset (Line × RequestId))
      = Table.total (fun id r => {(r.line, id)}) (a.tracker.forget id request).outstanding := by
  have htotal := Table.total_erase (fun (id : RequestId) (r : Request) =>
    ({(r.line, id)} : Multiset (Line × RequestId))) hid
  have hbag := h.byLine
  rw [htotal, Multiset.singleton_add] at hbag
  have hmem : (request.line, id) ∈ a.tracker.outstandingByLine := by
    rw [← Multiset.mem_coe, hbag]
    exact Multiset.mem_cons_self _ _
  have hperm := Multiset.coe_eq_coe.mpr (List.perm_cons_erase hmem)
  rw [hbag, ← Multiset.cons_coe] at hperm
  exact ((Multiset.cons_inj_right _).mp hperm).symm

theorem Requests.completed (h : Requests a) (id : RequestId) :
    Requests { a with tracker := (a.tracker.completed id).1 } := by
  cases hid : a.tracker.outstanding.lookup id with
  | none =>
    simp only [Tracker.completed, hid]
    exact h
  | some request =>
    have hline := h.forget_byLine hid
    have hone := Table.total_erase (fun (_ : RequestId) (_ : Request) => 1) hid
    have hbytes := Table.total_erase (fun (_ : RequestId) (r : Request) => r.bytes) hid
    simp only [Tracker.completed, hid]
    refine ⟨hline, ?_, ?_⟩
    · have hreq := h.requests
      simp only [Tracker.count, Tracker.forget]
      omega
    · have hb := h.bytes
      simp only [Tracker.count, Tracker.forget]
      rw [hb, hbytes]
      ring

theorem Requests.completedAll (h : Requests a) (ids : List RequestId) :
    Requests { a with tracker := (a.tracker.completedAll ids).1 } := by
  induction ids generalizing a with
  | nil => exact h
  | cons id ids ih =>
    have hnext := h.completed id
    rw [Tracker.completedAll]
    cases hc : a.tracker.completed id with
    | mk t thrown =>
      rw [hc] at hnext
      cases thrown with
      | none => exact ih hnext
      | some e => exact hnext

theorem Requests.dropped (h : Requests a) {id : RequestId} {request : Request}
    (hid : a.tracker.outstanding.lookup id = some request) :
    Requests ⟨a.tracker.dropped id, a.drops + 1, a.droppedBytes + request.bytes⟩ := by
  have hline := h.forget_byLine hid
  have hone := Table.total_erase (fun (_ : RequestId) (_ : Request) => 1) hid
  have hbytes := Table.total_erase (fun (_ : RequestId) (r : Request) => r.bytes) hid
  simp only [Tracker.dropped, hid]
  refine ⟨hline, ?_, ?_⟩
  · have hreq := h.requests
    simp only [Tracker.forget]
    omega
  · have hb := h.bytes
    simp only [Tracker.forget]
    rw [hb, hbytes]
    ring

end requests

/-! ### Reports about the cache leave the requests alone -/

section cache

variable (t : Tracker g)

theorem sameRequests_credit (line : Line) (actual_hit shadow_hit : Bool) (now : Time) :
    SameRequests t (t.credit line actual_hit shadow_hit now) := by
  unfold Tracker.credit
  cases t.prefetched.lookup line with
  | none =>
    simp only
    split_ifs <;> exact ⟨rfl, rfl, rfl, rfl, rfl, rfl⟩
  | some useful =>
    simp only
    split_ifs <;> exact ⟨rfl, rfl, rfl, rfl, rfl, rfl⟩

theorem sameRequests_demandLookup (line : Line) (actual_hit : Bool) (now : Time) :
    SameRequests t (t.demandLookup line actual_hit now) := by
  have hlook : SameRequests t (t.look line actual_hit).1 := ⟨rfl, rfl, rfl, rfl, rfl, rfl⟩
  have hcredit := hlook.trans (sameRequests_credit _ line actual_hit (t.look line actual_hit).2 now)
  unfold Tracker.demandLookup Tracker.charge
  simp only
  split_ifs
  · exact hcredit
  · exact hcredit

theorem sameRequests_leave (line : Line) : SameRequests t (t.leave line) := by
  unfold Tracker.leave
  cases t.prefetched.lookup line <;> exact ⟨rfl, rfl, rfl, rfl, rfl, rfl⟩

theorem sameRequests_evict (origin : FillOrigin) (victim : Line) (victim_origin : FillOrigin) :
    SameRequests t (t.evict origin victim victim_origin) := by
  unfold Tracker.evict
  simp only
  split_ifs
  · exact sameRequests_leave t victim
  · exact sameRequests_leave t victim

theorem sameRequests_install (line : Line) (origin : FillOrigin) (now : Time) :
    SameRequests t (t.install line origin now) := by
  unfold Tracker.install
  cases origin with
  | Demand => exact ⟨rfl, rfl, rfl, rfl, rfl, rfl⟩
  | DVR =>
    simp only
    split_ifs <;> exact ⟨rfl, rfl, rfl, rfl, rfl, rfl⟩

theorem sameRequests_cacheFill (line : Line) (origin : FillOrigin) (now : Time)
    (victim : Option Line) (victim_origin : Option FillOrigin) :
    SameRequests t (t.cacheFill line origin now victim victim_origin).1 := by
  cases victim <;> cases victim_origin
  · exact sameRequests_install t line origin now
  · exact ⟨rfl, rfl, rfl, rfl, rfl, rfl⟩
  · exact ⟨rfl, rfl, rfl, rfl, rfl, rfl⟩
  · exact (sameRequests_evict t origin _ _).trans (sameRequests_install _ line origin now)

theorem sameRequests_cacheRemove (line : Line) (origin : FillOrigin) :
    SameRequests t (t.cacheRemove line origin) := by
  unfold Tracker.cacheRemove
  split_ifs
  · exact sameRequests_leave t line
  · exact ⟨rfl, rfl, rfl, rfl, rfl, rfl⟩

end cache

theorem Requests.step {a : Audit g} (h : Requests a) (e : Event) : Requests (step a e) := by
  cases e with
  | generated => exact h.of_same ⟨rfl, rfl, rfl, rfl, rfl, rfl⟩
  | issued id line bytes now =>
    cases hid : a.tracker.outstanding.lookup id with
    | none => exact h.issued hid line bytes now
    | some request =>
      have hdup : (a.tracker.issued id line bytes now).1 = a.tracker := by
        simp [Tracker.issued, hid]
      show Requests { a with tracker := (a.tracker.issued id line bytes now).1 }
      rw [hdup]
      exact h
  | completed id => exact h.completed id
  | completedLine line => exact h.completedAll _
  | dropped id =>
    simp only [Quality.step, drops, report]
    cases hid : a.tracker.outstanding.lookup id with
    | none =>
      have hno : a.tracker.dropped id = a.tracker := by simp [Tracker.dropped, hid]
      simp only [hno]
      exact h
    | some request => exact h.dropped hid
  | demandAddressObserved => exact h.of_same ⟨rfl, rfl, rfl, rfl, rfl, rfl⟩
  | demandLookup line actual_hit now =>
    exact h.of_same (sameRequests_demandLookup _ line actual_hit now)
  | cacheFill line origin now victim victim_origin =>
    exact h.of_same (sameRequests_cacheFill _ line origin now victim victim_origin)
  | cacheRemove line origin => exact h.of_same (sameRequests_cacheRemove _ line origin)

/-! ### Stays -/

section stays

variable {t : Tracker g}

/-- What the other balances read is unchanged. -/
def SameStays (t t' : Tracker g) : Prop :=
  t'.prefetched = t.prefetched ∧ t'.pollutionVictims = t.pollutionVictims ∧
    ∃ issued issuedBytes completed completedBytes generated observed,
      t'.counts = { t.counts with
        issued := issued, issuedBytes := issuedBytes, completed := completed
        completedBytes := completedBytes, generated := generated
        demandAddressesObserved := observed }

theorem Stays.of_same (h : Stays t) {t' : Tracker g} (hsame : SameStays t t') : Stays t' := by
  obtain ⟨hp, hv, i, ib, c, cb, gen, obs, hc⟩ := hsame
  constructor
  · rw [hc, hp]
    exact h.stays
  · rw [hc]
    exact h.covered_le_useful
  · rw [hc]
    exact h.covered_le_shadow
  · rw [hc]
    exact h.late
  · rw [hc, hv]
    exact h.pollution

theorem sameStays_issued (id : RequestId) (line : Line) (bytes : BitVec 64) (now : Time) :
    SameStays t (t.issued id line bytes now).1 := by
  unfold Tracker.issued
  split_ifs <;> exact ⟨rfl, rfl, _, _, _, _, _, _, rfl⟩

theorem sameStays_completed (id : RequestId) : SameStays t (t.completed id).1 := by
  unfold Tracker.completed
  cases t.outstanding.lookup id <;> exact ⟨rfl, rfl, _, _, _, _, _, _, rfl⟩

theorem Stays.completedAll (h : Stays t) (ids : List RequestId) : Stays (t.completedAll ids).1 := by
  induction ids generalizing t with
  | nil => exact h
  | cons id ids ih =>
    have hnext := h.of_same (sameStays_completed id)
    rw [Tracker.completedAll]
    cases hc : t.completed id with
    | mk t' thrown =>
      rw [hc] at hnext
      cases thrown with
      | none => exact ih hnext
      | some e => exact hnext

theorem sameStays_dropped (id : RequestId) : SameStays t (t.dropped id) := by
  unfold Tracker.dropped
  cases t.outstanding.lookup id <;> exact ⟨rfl, rfl, _, _, _, _, _, _, rfl⟩

/-- A stay that ends unused is counted; one that was used already is not. -/
theorem Stays.leave (h : Stays t) (line : Line) : Stays (t.leave line) := by
  unfold Tracker.leave
  cases hl : t.prefetched.lookup line with
  | none => exact h
  | some old =>
    have htotal := Table.total_erase (fun (_ : Line) p => isUnused p) hl
    have hstays := h.stays
    refine ⟨?_, h.covered_le_useful, h.covered_le_shadow, h.late, h.pollution⟩
    have hold : isUnused old = if old.used then 0 else 1 := rfl
    simp only [Tracker.count]
    split_ifs at hold ⊢ <;> omega

theorem Stays.evict (h : Stays t) (origin : FillOrigin) (victim : Line)
    (victim_origin : FillOrigin) : Stays (t.evict origin victim victim_origin) := by
  have hleft := h.leave victim
  have hcard := Finset.card_erase_le (s := (t.leave victim).pollutionVictims) (a := victim)
  have hp := hleft.pollution
  unfold Tracker.evict
  simp only
  split_ifs
  · -- the victim is a new one: it has just been taken out of the set
    refine ⟨hleft.stays, hleft.covered_le_useful, hleft.covered_le_shadow, hleft.late, ?_⟩
    have hnot : victim ∉ (t.leave victim).pollutionVictims.erase victim :=
      Finset.notMem_erase victim _
    simp only [Tracker.count, Finset.card_insert_of_notMem hnot]
    omega
  · refine ⟨hleft.stays, hleft.covered_le_useful, hleft.covered_le_shadow, hleft.late, ?_⟩
    simp only
    omega

/-- The two misses are counted before they are credited: `coveredMisses` and `usefulLate` have room
    for the credit. -/
structure Room (t : Tracker g) (actual_hit shadow_hit : Bool) : Prop extends Stays t where
  covered : shadow_hit = false → t.counts.coveredMisses + 1 ≤ t.counts.shadowDemandMisses
  missed : actual_hit = false → t.counts.usefulLate + 1 ≤ t.counts.actualDemandMisses

theorem Stays.look (h : Stays t) (line : Line) (actual_hit : Bool) :
    Room (t.look line actual_hit).1 actual_hit (t.look line actual_hit).2 := by
  have hcov := h.covered_le_shadow
  have hlate := h.late
  refine ⟨⟨h.stays, h.covered_le_useful, ?_, ?_, h.pollution⟩, ?_, ?_⟩
  · simp only [Tracker.look, Tracker.count]
    split_ifs <;> omega
  · simp only [Tracker.look, Tracker.count]
    split_ifs <;> omega
  · intro hmiss
    simp only [Tracker.look] at hmiss
    simp only [Tracker.look, Tracker.count, hmiss]
    simpa using hcov
  · intro hmiss
    simp only [Tracker.look, Tracker.count, hmiss]
    simpa using hlate

theorem Room.credit {actual_hit shadow_hit : Bool} (h : Room t actual_hit shadow_hit) (line : Line)
    (now : Time) : Stays (t.credit line actual_hit shadow_hit now) := by
  -- a late prefetch is credited only on an actual miss
  have hlate : ∀ c, (c = true → actual_hit = false) → Stays (if c = true then
      { t with lateReported := insert line t.lateReported }.count fun c =>
        { c with usefulLate := c.usefulLate + 1 } else t) := by
    intro c hc
    split_ifs with h0
    · exact ⟨h.stays, h.covered_le_useful, h.covered_le_shadow, h.missed (hc h0), h.pollution⟩
    · exact h.toStays
  have hcond : (!actual_hit && t.outstandingByLine.any (·.1 == line) &&
      !decide (line ∈ t.lateReported)) = true → actual_hit = false := by
    cases actual_hit <;> simp
  unfold Tracker.credit
  cases hl : t.prefetched.lookup line with
  | none => exact hlate _ hcond
  | some useful =>
    simp only
    by_cases huse : (actual_hit && !useful.used) = true
    · rw [if_pos huse]
      have hused : useful.used = false := by
        cases hu : useful.used <;> simp [hu] at huse ⊢
      have htotal := Table.total_erase (fun (_ : Line) p => isUnused p) hl
      have hold : isUnused useful = 1 := by simp [isUnused, hused]
      have hnew : isUnused { useful with used := true } = 0 := rfl
      have hstays := h.stays
      have hcov := h.covered_le_useful
      have hshadow := h.covered_le_shadow
      refine ⟨?_, ?_, ?_, h.late, h.pollution⟩
      · simp only [Tracker.count, Table.total_overwrite]
        omega
      · simp only [Tracker.count]
        split_ifs <;> omega
      · simp only [Tracker.count]
        split_ifs with hs
        · exact hshadow
        · exact h.covered (by simpa using hs)
    · rw [if_neg huse]
      exact hlate _ hcond

theorem Stays.charge (h : Stays t) (line : Line) (actual_hit shadow_hit : Bool) :
    Stays (t.charge line actual_hit shadow_hit) := by
  have hp := h.pollution
  unfold Tracker.charge
  split_ifs with hc
  · have hmem : line ∈ t.pollutionVictims := by
      simp only [Bool.and_eq_true, decide_eq_true_eq] at hc
      exact hc.2
    have hcard := Finset.card_erase_add_one hmem
    refine ⟨h.stays, h.covered_le_useful, h.covered_le_shadow, h.late, ?_⟩
    simp only [Tracker.count]
    omega
  · have hcard := Finset.card_erase_le (s := t.pollutionVictims) (a := line)
    refine ⟨h.stays, h.covered_le_useful, h.covered_le_shadow, h.late, ?_⟩
    simp only
    omega

theorem Stays.demandLookup (h : Stays t) (line : Line) (actual_hit : Bool) (now : Time) :
    Stays (t.demandLookup line actual_hit now) :=
  ((h.look line actual_hit).credit line now).charge line actual_hit _

theorem total_erase_le (line : Line) (s : AList fun _ : Line => PrefetchedLine) :
    Table.total (fun _ p => isUnused p) (s.erase line) ≤ Table.total (fun _ p => isUnused p) s := by
  cases hl : s.lookup line with
  | none => rw [Table.erase_of_lookup_none hl]
  | some old =>
    rw [Table.total_erase (fun (_ : Line) p => isUnused p) hl]
    omega

theorem Stays.install (h : Stays t) (line : Line) (origin : FillOrigin) (now : Time) :
    Stays (t.install line origin now) := by
  have hstays := h.stays
  have hp := h.pollution
  unfold Tracker.install
  cases origin with
  | Demand =>
    have hle := total_erase_le line t.prefetched
    have hcard := Finset.card_erase_le (s := t.pollutionVictims) (a := line)
    refine ⟨?_, h.covered_le_useful, h.covered_le_shadow, h.late, ?_⟩
    · simp only
      omega
    · simp only
      omega
  | DVR =>
    cases hl : t.prefetched.lookup line with
    | some old =>
      simp only [Tracker.count, hl, Option.isSome_some, if_true]
      refine ⟨?_, h.covered_le_useful, h.covered_le_shadow, h.late, hp⟩
      simp only
      omega
    | none =>
      simp only [Tracker.count, hl, Option.isSome_none, Bool.false_eq_true, if_false]
      refine ⟨?_, h.covered_le_useful, h.covered_le_shadow, h.late, hp⟩
      have hone : ∀ p, isUnused p ≤ 1 := fun p => by unfold isUnused; split_ifs <;> omega
      have hnew := hone ⟨now, decide (line ∈ t.lateReported)⟩
      simp only [Table.total_insert _ hl]
      omega

theorem Stays.cacheFill (h : Stays t) (line : Line) (origin : FillOrigin) (now : Time)
    (victim : Option Line) (victim_origin : Option FillOrigin) :
    Stays (t.cacheFill line origin now victim victim_origin).1 := by
  cases victim <;> cases victim_origin
  · exact h.install line origin now
  · exact h
  · exact h
  · exact (h.evict origin _ _).install line origin now

theorem Stays.cacheRemove (h : Stays t) (line : Line) (origin : FillOrigin) :
    Stays (t.cacheRemove line origin) := by
  have hafter : Stays (if origin = .DVR then t.leave line else t) := by
    split_ifs
    · exact h.leave line
    · exact h
  have hcard := Finset.card_erase_le
    (s := (if origin = .DVR then t.leave line else t).pollutionVictims) (a := line)
  have hp := hafter.pollution
  unfold Tracker.cacheRemove
  refine ⟨hafter.stays, hafter.covered_le_useful, hafter.covered_le_shadow, hafter.late, ?_⟩
  simp only
  omega

end stays

theorem Stays.step {a : Audit g} (h : Stays a.tracker) (e : Event) :
    Stays (Quality.step a e).tracker := by
  have htracker : (Quality.step a e).tracker = (report a.tracker e).1 := by
    unfold Quality.step
    cases drops a.tracker e <;> rfl
  rw [htracker]
  cases e with
  | generated => exact h.of_same ⟨rfl, rfl, _, _, _, _, _, _, rfl⟩
  | issued id line bytes now => exact h.of_same (sameStays_issued id line bytes now)
  | completed id => exact h.of_same (sameStays_completed id)
  | completedLine line => exact h.completedAll _
  | dropped id => exact h.of_same (sameStays_dropped id)
  | demandAddressObserved => exact h.of_same ⟨rfl, rfl, _, _, _, _, _, _, rfl⟩
  | demandLookup line actual_hit now => exact h.demandLookup line actual_hit now
  | cacheFill line origin now victim victim_origin =>
    exact h.cacheFill line origin now victim victim_origin
  | cacheRemove line origin => exact h.cacheRemove line origin

/-! ## Throws -/

/-- `completedLine` calls `completed` for distinct outstanding requests only. -/
theorem completedAll_ok {t : Tracker g} {ids : List RequestId} (hnd : ids.Nodup)
    (hin : ∀ id ∈ ids, (t.outstanding.lookup id).isSome = true) :
    (t.completedAll ids).2 = none := by
  induction ids generalizing t with
  | nil => rfl
  | cons id ids ih =>
    obtain ⟨request, hid⟩ := Option.isSome_iff_exists.mp (hin id mem_cons_self)
    obtain ⟨hnot, hnd'⟩ := nodup_cons.mp hnd
    simp only [Tracker.completedAll, Tracker.completed, hid]
    apply ih hnd'
    intro id' hid'
    have hne : id' ≠ id := fun heq => hnot (heq ▸ hid')
    show ((t.outstanding.erase id).lookup id').isSome = true
    rw [AList.lookup_erase_ne hne]
    exact hin id' (mem_cons_of_mem id hid')

theorem Requests.perm {a : Audit g} (h : Requests a) : a.tracker.outstandingByLine.Perm
      (a.tracker.outstanding.entries.map fun e => (e.2.line, e.1)) := by
  apply Multiset.coe_eq_coe.mp
  rw [h.byLine]
  unfold Table.total
  induction a.tracker.outstanding.entries with
  | nil => rfl
  | cons e es ih =>
    rw [map_cons, sum_cons, ih]
    rfl

theorem Requests.completedLine_ok {a : Audit g} (h : Requests a) (line : Line) :
    (a.tracker.completedLine line).2 = none := by
  have hperm := h.perm.map Prod.snd
  rw [map_map] at hperm
  have hkeys : (a.tracker.outstandingByLine.map Prod.snd).Nodup :=
    hperm.nodup_iff.mpr a.tracker.outstanding.keys_nodup
  have hsub : Sublist ((a.tracker.outstandingByLine.filter (·.1 == line)).map (·.2))
      (a.tracker.outstandingByLine.map Prod.snd) := filter_sublist.map _
  apply completedAll_ok (hkeys.sublist hsub)
  intro id hid
  rw [AList.lookup_isSome]
  exact hperm.mem_iff.mp (hsub.mem hid)

/-- A report that throws has not begun to change anything. -/
theorem Requests.throw_unchanged {a : Audit g} (h : Requests a) {e : Event}
    (hthrow : (report a.tracker e).2 ≠ none) : (report a.tracker e).1 = a.tracker := by
  cases e with
  | issued id line bytes now =>
    simp only [report, Tracker.issued] at hthrow ⊢
    split_ifs at hthrow ⊢ with hdup
    · rfl
    · exact absurd rfl hthrow
  | completed id =>
    simp only [report, Tracker.completed] at hthrow ⊢
    cases hid : a.tracker.outstanding.lookup id with
    | none => rfl
    | some request =>
      simp only [hid] at hthrow
      exact absurd rfl hthrow
  | completedLine line => exact absurd (h.completedLine_ok line) hthrow
  | cacheFill line origin now victim victim_origin =>
    cases victim <;> cases victim_origin
    · exact absurd rfl hthrow
    · rfl
    · rfl
    · exact absurd rfl hthrow
  | _ => exact absurd rfl hthrow

/-! ## Every sequence of reports -/

theorem requests_run (g : Geometry) (es : List Event) : Requests (run g es) := by
  have h0 : Requests ({} : Audit g) := ⟨rfl, rfl, rfl⟩
  exact List.foldlRecOn es _ h0 fun _ h e _ => h.step e

theorem stays_run (g : Geometry) (es : List Event) : Stays (run g es).tracker := by
  have h0 : Stays ({} : Audit g).tracker :=
    ⟨Nat.le_refl _, Nat.le_refl _, Nat.le_refl _, Nat.le_refl _, Nat.le_refl _⟩
  exact List.foldlRecOn (motive := fun a : Audit g => Stays a.tracker) es _ h0 fun _ h e _ => h.step e

/-- The balances of the tracker, in every order of reports and whatever some of them throw. -/
theorem quality_conserved (g : Geometry) (es : List Event) :
    let a := run g es
    let t := a.tracker
    let c := t.counts
    t.outstandingByLine.Perm (t.outstanding.entries.map fun e => (e.2.line, e.1)) ∧
    c.issued = c.completed + a.drops + t.outstanding.entries.length ∧
    c.issuedBytes = c.completedBytes + a.droppedBytes
      + (t.outstanding.entries.map fun e => e.2.bytes).sum ∧
    c.usefulTimely + c.unusedEvictions + unusedResident t ≤ c.fills - c.redundantFills ∧
    c.coveredMisses ≤ min c.usefulTimely c.shadowDemandMisses ∧
    c.usefulLate ≤ c.actualDemandMisses ∧
    c.pollutionMisses + t.pollutionVictims.card ≤ c.pollutionEvictions ∧
    ∀ e, (report t e).2 ≠ none → (report t e).1 = t := by
  have hr := requests_run g es
  have hs := stays_run g es
  refine ⟨hr.perm, ?_, hr.bytes, ?_, ?_, hs.late, hs.pollution, ?_⟩
  · rw [hr.requests, Table.total_one_eq_length]
  · have hstays := hs.stays
    rw [total_isUnused] at hstays
    omega
  · exact Nat.le_min.mpr ⟨hs.covered_le_useful, hs.covered_le_shadow⟩
  · intro e hthrow
    exact hr.throw_unchanged hthrow

end Gem5Dvr.Quality
