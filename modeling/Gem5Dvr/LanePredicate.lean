/-
  The lane predicate tracker (`DVRLanePredicateTracker`, `cpu/o3/dvr_predicate.hh`,
  `dvr_predicate.cc`).

  Each path has a predicate — a mask and a pattern — and each lane is given to the path whose
  predicate the value returned for it satisfies, if there is exactly one such path.  Responses come
  in any order, and more than once.

  1. **Program** — `begin`, `observe` and the readers.  Lane masks are `WordSet`s of two words; the
     bounds that `begin` clamps to are fields, so that a lane in range has its bit.

  2. **Specification** — `Matches` and `firstValue`: the first value of a lane, and the path it
     satisfies alone.

  3. **The crux (`Recorded`)** — the three kinds of mask are a function of the first values: a lane
     is in `observed` as soon as it has one, and then in `unmatched` or in one `selected` mask, as
     `verdict` says.  A second value changes nothing, so neither does the order.
-/
import Gem5Dvr.Lib.WordSet
import Mathlib.Data.Finset.Union
import Mathlib.Data.List.FinRange
import Mathlib.Data.List.Perm.Basic

namespace Gem5Dvr.LanePredicate

open List

scoped instance neZero2 : NeZero 2 := ⟨by decide⟩

/-! ## The program -/

def MaxLanes : Nat := 128
abbrev MaxPaths : Nat := 4

/-- `MaxLanes` is two words of lanes. -/
abbrev Lane := Fin (64 * 2)

abbrev LaneMask := WordSet 2

inductive Observation
  | Selected | NoMatch | Ambiguous | Duplicate | InvalidLane
  deriving DecidableEq, Repr

/-- The fields of `DVRLanePredicateTracker`. -/
structure Tracker where
  lanes : Nat := 0
  paths : Nat := 0
  masks : Fin MaxPaths → BitVec 64 := fun _ => 0
  patterns : Fin MaxPaths → BitVec 64 := fun _ => 0
  selected : Fin MaxPaths → LaneMask := fun _ _ => 0
  unmatched : LaneMask := fun _ => 0
  observed : LaneMask := fun _ => 0
  lanes_le : lanes ≤ MaxLanes := by decide
  paths_le : paths ≤ MaxPaths := by decide

namespace Tracker

/-- `reset` clears every field, so the state before does not matter. -/
def begin (requested_lanes requested_paths : Nat) (path_masks path_patterns : Fin MaxPaths → BitVec 64) :
    Tracker where
  lanes := min requested_lanes MaxLanes
  paths := min requested_paths MaxPaths
  masks := path_masks
  patterns path :=
    if path.val < min requested_paths MaxPaths then path_patterns path &&& path_masks path
    else path_patterns path
  lanes_le := Nat.min_le_right _ _
  paths_le := Nat.min_le_right _ _

variable (t : Tracker)

/-- The paths of a loop `path < paths`. -/
def pathList : List (Fin MaxPaths) := (finRange MaxPaths).filter fun path => path.val < t.paths

/-- The value satisfies the predicate of the path; with several paths an empty one identifies
    none. -/
def fits (value : BitVec 64) (path : Fin MaxPaths) : Bool :=
  !(decide (1 < t.paths) && t.masks path == 0) && value &&& t.masks path == t.patterns path

/-- The loop of `observe`: the last path that matches, and the number of those that do. -/
def scan (value : BitVec 64) : Option (Fin MaxPaths) × Nat :=
  t.pathList.foldl (fun (found, matches_) path =>
    if t.fits value path then (some path, matches_ + 1) else (found, matches_)) (none, 0)

/-- The part of `observe` for a lane in range. -/
def note (lane : Lane) (value : BitVec 64) : Tracker × Observation :=
  if WordSet.test t.observed lane then (t, .Duplicate)
  else
    let observed := WordSet.insert t.observed lane
    match t.scan value with
    | (some path, 1) =>
        ({ t with
          observed := observed
          selected := Function.update t.selected path (WordSet.insert (t.selected path) lane) },
          .Selected)
    | (_, matches_) =>
        ({ t with observed := observed, unmatched := WordSet.insert t.unmatched lane },
          if matches_ = 0 then .NoMatch else .Ambiguous)

def observe (lane : Nat) (value : BitVec 64) : Tracker × Observation :=
  if h : lane < t.lanes then t.note ⟨lane, Nat.lt_of_lt_of_le h t.lanes_le⟩ value
  else (t, .InvalidLane)

def selectedPaths : Nat :=
  (t.pathList.filter fun path => t.selected path 0 != 0 || t.selected path 1 != 0).length

end Tracker

/-- A call of `observe`. -/
structure Call where
  lane : Nat
  value : BitVec 64
  deriving DecidableEq, Repr

/-- A tracker after a sequence of calls. -/
def run (t : Tracker) (calls : List Call) : Tracker :=
  calls.foldl (fun t call => (t.observe call.lane call.value).1) t

/-! ## Specification -/

/-- The first value observed for a lane. -/
def firstValue (calls : List Call) (lane : Nat) : Option (BitVec 64) :=
  (calls.find? fun call => call.lane == lane).map Call.value

/-- The path is one of the active ones, has a predicate that counts, and the value satisfies it. -/
def Matches (requested_paths : Nat) (path_masks path_patterns : Fin MaxPaths → BitVec 64)
    (value : BitVec 64) (path : Fin MaxPaths) : Prop :=
  path.val < min requested_paths MaxPaths ∧
    (1 < min requested_paths MaxPaths → path_masks path ≠ 0) ∧
    value &&& path_masks path = path_patterns path &&& path_masks path

/-! ## The search for a path -/

namespace Tracker

variable (t : Tracker)

/-- The path a value is given to. -/
def verdict (value : BitVec 64) : Option (Fin MaxPaths) :=
  match t.scan value with
  | (some path, 1) => some path
  | _ => none

theorem scan_eq (value : BitVec 64) : t.scan value = ((t.pathList.filter (t.fits value)).getLast?,
      (t.pathList.filter (t.fits value)).length) := by
  unfold scan
  induction t.pathList using reverseRecOn with
  | nil => rfl
  | append_singleton paths path ih =>
    rw [foldl_append, ih]
    by_cases hfit : t.fits value path = true
    · simp [filter_append, hfit]
    · simp [filter_append, hfit]

theorem fits_iff (value : BitVec 64) (path : Fin MaxPaths) : t.fits value path = true ↔
    (1 < t.paths → t.masks path ≠ 0) ∧ value &&& t.masks path = t.patterns path := by
  simp only [fits, Bool.and_eq_true, Bool.not_eq_true', Bool.and_eq_false_iff,
    decide_eq_false_iff_not, beq_eq_false_iff_ne, beq_iff_eq, ne_eq, Decidable.imp_iff_not_or]

theorem pathList_nodup : t.pathList.Nodup := (nodup_finRange _).filter _

theorem mem_pathList (path : Fin MaxPaths) : path ∈ t.pathList ↔ path.val < t.paths := by
  simp [pathList]

/-- A value is given to a path just when it satisfies that predicate alone. -/
theorem verdict_eq_some (value : BitVec 64) (path : Fin MaxPaths) : t.verdict value = some path ↔
      ∀ other, other.val < t.paths ∧ t.fits value other = true ↔ other = path := by
  have hmem : ∀ other, other ∈ t.pathList.filter (t.fits value)
      ↔ other.val < t.paths ∧ t.fits value other = true := by
    intro other
    rw [mem_filter, mem_pathList]
  have hnodup := t.pathList_nodup.filter (t.fits value)
  simp only [← hmem]
  unfold verdict
  rw [scan_eq]
  generalize t.pathList.filter (t.fits value) = found at hnodup
  constructor
  · intro h
    match found, h with
    | [only], h =>
      cases h
      exact fun other => mem_singleton
  · intro h
    have hperm : found.Perm [path] :=
      (perm_ext_iff_of_nodup hnodup (nodup_singleton path)).mpr fun other =>
        (h other).trans mem_singleton.symm
    rw [perm_singleton.mp hperm]
    rfl

end Tracker

/-- A lane seen for the first time goes where the verdict says. -/
theorem Tracker.note_of_new (t : Tracker) {lane : Lane}
    (hnew : ¬ WordSet.test t.observed lane = true) (value : BitVec 64) :
    (t.note lane value).1 = match t.verdict value with
      | some path =>
          { t with
            observed := WordSet.insert t.observed lane
            selected := Function.update t.selected path (WordSet.insert (t.selected path) lane) }
      | none =>
          { t with
            observed := WordSet.insert t.observed lane
            unmatched := WordSet.insert t.unmatched lane } := by
  unfold Tracker.note Tracker.verdict
  rw [if_neg hnew]
  match t.scan value with
  | (none, _) => rfl
  | (some path, 0) => rfl
  | (some path, 1) => rfl
  | (some path, _ + 2) => rfl

/-! ## The masks are a function of the first values -/

/-- What is decided about a lane: nothing, no path, or a path. -/
def decided (t : Tracker) (calls : List Call) (lane : Lane) : Option (Option (Fin MaxPaths)) :=
  if lane.val < t.lanes then (firstValue calls lane).map t.verdict else none

/-- The tracker, which `begin` left as `t₀`, has recorded the calls. -/
structure Recorded (t₀ : Tracker) (calls : List Call) (t : Tracker) : Prop where
  lanes : t.lanes = t₀.lanes
  paths : t.paths = t₀.paths
  masks : t.masks = t₀.masks
  patterns : t.patterns = t₀.patterns
  observed : ∀ lane, WordSet.test t.observed lane = (decided t₀ calls lane).isSome
  selected : ∀ path lane,
    WordSet.test (t.selected path) lane = decide (decided t₀ calls lane = some (some path))
  unmatched : ∀ lane, WordSet.test t.unmatched lane = decide (decided t₀ calls lane = some none)

theorem Tracker.verdict_congr {t t₀ : Tracker} (hpaths : t.paths = t₀.paths)
    (hmasks : t.masks = t₀.masks) (hpatterns : t.patterns = t₀.patterns) (value : BitVec 64) :
    t.verdict value = t₀.verdict value := by
  have hfits : t.fits value = t₀.fits value := by
    funext path
    rw [Tracker.fits, Tracker.fits, hpaths, hmasks, hpatterns]
  rw [Tracker.verdict, Tracker.verdict, Tracker.scan_eq, Tracker.scan_eq, hfits, Tracker.pathList,
    Tracker.pathList, hpaths]

theorem firstValue_append (calls : List Call) (call : Call) (lane : Nat) :
    firstValue (calls ++ [call]) lane
      = (firstValue calls lane).or (if call.lane = lane then some call.value else none) := by
  unfold firstValue
  by_cases hlane : call.lane = lane
  · simp [hlane]
  · simp [hlane]

/-- A call decides its own lane, once. -/
theorem decided_append (t : Tracker) (calls : List Call) (call : Call) (lane : Lane) :
    decided t (calls ++ [call]) lane = (decided t calls lane).or
      (if call.lane = lane.val ∧ lane.val < t.lanes then some (t.verdict call.value) else none) := by
  unfold decided
  rw [firstValue_append]
  by_cases hlane : lane.val < t.lanes
  · by_cases heq : call.lane = lane.val
    · rw [if_pos hlane, if_pos hlane, Option.map_or]
      simp [hlane, heq]
    · simp [hlane, heq]
  · simp [hlane]

section step

variable {t₀ t : Tracker} {calls : List Call}

/-- A call that decides nothing new leaves the record as it is. -/
theorem Recorded.keep (h : Recorded t₀ calls t) {call : Call}
    (hold : ∀ lane, decided t₀ (calls ++ [call]) lane = decided t₀ calls lane) :
    Recorded t₀ (calls ++ [call]) t := by
  refine ⟨h.lanes, h.paths, h.masks, h.patterns, ?_, ?_, ?_⟩
  · intro lane
    rw [hold, h.observed]
  · intro path lane
    rw [hold, h.selected]
  · intro lane
    rw [hold, h.unmatched]

theorem Recorded.note (h : Recorded t₀ calls t) (lane : Lane) (hlane : lane.val < t₀.lanes)
    (value : BitVec 64) : Recorded t₀ (calls ++ [⟨lane, value⟩]) (t.note lane value).1 := by
  have hnew := decided_append t₀ calls ⟨lane, value⟩
  have hverdict := Tracker.verdict_congr h.paths h.masks h.patterns value
  by_cases hseen : WordSet.test t.observed lane = true
  · -- a duplicate: the lane keeps its first value
    have hsame : (t.note lane value).1 = t := by
      unfold Tracker.note
      rw [if_pos hseen]
    rw [hsame]
    apply h.keep
    intro other
    rw [hnew]
    by_cases heq : lane = other
    · subst heq
      rw [h.observed] at hseen
      rw [Option.or_of_isSome hseen]
    · have hne : ¬ (lane.val = other.val ∧ other.val < t₀.lanes) := fun hc => heq (Fin.ext hc.1)
      rw [if_neg hne, Option.or_none]
  · have hnone : decided t₀ calls lane = none := by
      rw [h.observed] at hseen
      simpa using hseen
    have hself : decided t₀ (calls ++ [⟨lane, value⟩]) lane = some (t₀.verdict value) := by
      rw [hnew, hnone, if_pos ⟨rfl, hlane⟩]
      rfl
    have hother : ∀ other, other ≠ lane →
        decided t₀ (calls ++ [⟨lane, value⟩]) other = decided t₀ calls other := by
      intro other hne
      have hno : ¬ (lane.val = other.val ∧ other.val < t₀.lanes) := fun hc => hne (Fin.ext hc.1.symm)
      rw [hnew, if_neg hno, Option.or_none]
    have hobserved : ∀ other, WordSet.test (WordSet.insert t.observed lane) other
        = (decided t₀ (calls ++ [⟨lane, value⟩]) other).isSome := by
      intro other
      rw [WordSet.test_insert]
      by_cases heq : other = lane
      · subst heq
        simp [hself]
      · simp [heq, hother other heq, h.observed]
    rw [t.note_of_new hseen, hverdict]
    cases hv : t₀.verdict value with
    | some path =>
      rw [hv] at hself
      refine ⟨h.lanes, h.paths, h.masks, h.patterns, hobserved, ?_, ?_⟩
      · intro path' other
        by_cases hpath : path' = path
        · subst hpath
          simp only [Function.update_self]
          rw [WordSet.test_insert, h.selected]
          by_cases heq : other = lane
          · subst heq
            simp [hself]
          · simp [heq, hother other heq]
        · simp only [Function.update_of_ne hpath]
          rw [h.selected]
          by_cases heq : other = lane
          · subst heq
            have hpath' : ¬ path = path' := fun hc => hpath hc.symm
            simp [hself, hnone, hpath']
          · rw [hother other heq]
      · intro other
        rw [h.unmatched]
        by_cases heq : other = lane
        · subst heq
          simp [hself, hnone]
        · rw [hother other heq]
    | none =>
      rw [hv] at hself
      refine ⟨h.lanes, h.paths, h.masks, h.patterns, hobserved, ?_, ?_⟩
      · intro path other
        rw [h.selected]
        by_cases heq : other = lane
        · subst heq
          simp [hself, hnone]
        · rw [hother other heq]
      · intro other
        rw [WordSet.test_insert, h.unmatched]
        by_cases heq : other = lane
        · subst heq
          simp [hself]
        · simp [heq, hother other heq]

theorem Recorded.observe (h : Recorded t₀ calls t) (call : Call) :
    Recorded t₀ (calls ++ [call]) (t.observe call.lane call.value).1 := by
  unfold Tracker.observe
  by_cases hlane : call.lane < t.lanes
  · rw [dif_pos hlane]
    have hin : call.lane < t₀.lanes := h.lanes ▸ hlane
    exact h.note ⟨call.lane, _⟩ hin call.value
  · rw [dif_neg hlane]
    apply h.keep
    intro lane
    have hno : ¬ (call.lane = lane.val ∧ lane.val < t₀.lanes) := by
      rintro ⟨heq, hlt⟩
      rw [h.lanes, heq] at hlane
      exact hlane hlt
    rw [decided_append, if_neg hno, Option.or_none]

end step

theorem recorded_run (requested_lanes requested_paths : Nat)
    (path_masks path_patterns : Fin MaxPaths → BitVec 64) (calls : List Call) :
    let t₀ := Tracker.begin requested_lanes requested_paths path_masks path_patterns
    Recorded t₀ calls (run t₀ calls) := by
  intro t₀
  induction calls using reverseRecOn with
  | nil =>
    have hnone : ∀ lane, decided t₀ [] lane = none := by
      intro lane
      simp [decided, firstValue]
    refine ⟨rfl, rfl, rfl, rfl, ?_, ?_, ?_⟩
    · intro lane
      rw [hnone]
      exact WordSet.test_empty lane
    · intro path lane
      rw [hnone]
      exact WordSet.test_empty lane
    · intro lane
      rw [hnone]
      exact WordSet.test_empty lane
  | append_singleton calls call ih =>
    rw [run, foldl_append]
    exact ih.observe call

/-! ## What the masks say -/

theorem Tracker.begin_verdict (requested_lanes requested_paths : Nat)
    (path_masks path_patterns : Fin MaxPaths → BitVec 64) (value : BitVec 64) (path : Fin MaxPaths) :
    (Tracker.begin requested_lanes requested_paths path_masks path_patterns).verdict value = some path
      ↔ ∀ other, Matches requested_paths path_masks path_patterns value other ↔ other = path := by
  rw [Tracker.verdict_eq_some]
  apply forall_congr'
  intro other
  apply iff_congr ?_ Iff.rfl
  apply and_congr_right
  intro hactive
  rw [Tracker.fits_iff]
  have hpattern : (Tracker.begin requested_lanes requested_paths path_masks path_patterns).patterns other
      = path_patterns other &&& path_masks other := if_pos hactive
  rw [hpattern]
  exact Iff.rfl

theorem firstValue_isSome (calls : List Call) (lane : Nat) :
    (firstValue calls lane).isSome = true ↔ ∃ value, ⟨lane, value⟩ ∈ calls := by
  rw [firstValue, Option.isSome_map, find?_isSome]
  constructor
  · rintro ⟨call, hmem, hlane⟩
    obtain rfl : call.lane = lane := by simpa using hlane
    exact ⟨call.value, hmem⟩
  · rintro ⟨value, hmem⟩
    exact ⟨_, hmem, by simp⟩

section masks

variable {t₀ t : Tracker} {calls : List Call} (h : Recorded t₀ calls t)

include h

theorem Recorded.mem_observed (lane : Lane) :
    lane ∈ t.observed.members ↔ (decided t₀ calls lane).isSome = true := by
  rw [WordSet.mem_members, h.observed]

theorem Recorded.mem_selected (path : Fin MaxPaths) (lane : Lane) :
    lane ∈ (t.selected path).members ↔ decided t₀ calls lane = some (some path) := by
  rw [WordSet.mem_members, h.selected, decide_eq_true_iff]

theorem Recorded.mem_unmatched (lane : Lane) :
    lane ∈ t.unmatched.members ↔ decided t₀ calls lane = some none := by
  rw [WordSet.mem_members, h.unmatched, decide_eq_true_iff]

/-- Selected and unmatched lanes together are the observed ones. -/
theorem Recorded.union : (Finset.univ.biUnion fun path => (t.selected path).members)
    ∪ t.unmatched.members = t.observed.members := by
  ext lane
  rw [Finset.mem_union, Finset.mem_biUnion, h.mem_unmatched, h.mem_observed]
  simp only [h.mem_selected, Finset.mem_univ, true_and]
  match decided t₀ calls lane with
  | none => simp
  | some none => simp
  | some (some path) => simp

end masks

/-- The masks are equal as soon as the lanes are decided alike. -/
theorem Recorded.eq_of_decided {t₀ t t' : Tracker} {calls calls' : List Call}
    (h : Recorded t₀ calls t) (h' : Recorded t₀ calls' t')
    (hsame : ∀ lane, decided t₀ calls lane = decided t₀ calls' lane) : t = t' := by
  have hlanes := h.lanes.trans h'.lanes.symm
  have hpaths := h.paths.trans h'.paths.symm
  have hmasks := h.masks.trans h'.masks.symm
  have hpatterns := h.patterns.trans h'.patterns.symm
  have hobserved : t.observed = t'.observed := by
    apply WordSet.ext_test
    intro lane
    rw [h.observed, h'.observed, hsame]
  have hselected : t.selected = t'.selected := by
    funext path
    apply WordSet.ext_test
    intro lane
    rw [h.selected, h'.selected, hsame]
  have hunmatched : t.unmatched = t'.unmatched := by
    apply WordSet.ext_test
    intro lane
    rw [h.unmatched, h'.unmatched, hsame]
  cases t
  cases t'
  subst hlanes hpaths hmasks hpatterns hobserved hselected hunmatched
  rfl

theorem decided_begin (requested_lanes requested_paths : Nat)
    (path_masks path_patterns : Fin MaxPaths → BitVec 64) (calls : List Call) (lane : Lane) :
    decided (Tracker.begin requested_lanes requested_paths path_masks path_patterns) calls lane
      = if lane.val < requested_lanes then (firstValue calls lane).map
        (Tracker.begin requested_lanes requested_paths path_masks path_patterns).verdict else none := by
  have hlt : lane.val < MaxLanes := lane.isLt
  have hiff : lane.val < (Tracker.begin requested_lanes requested_paths path_masks path_patterns).lanes
      ↔ lane.val < requested_lanes := by
    show lane.val < min requested_lanes MaxLanes ↔ _
    omega
  exact if_congr hiff rfl rfl

/-- The tracker partitions the lanes observed, gives a lane to the one path its first value
    satisfies, and does not depend on the order of the calls. -/
theorem predicate_partition (requested_lanes requested_paths : Nat)
    (path_masks path_patterns : Fin MaxPaths → BitVec 64) :
    let t₀ := Tracker.begin requested_lanes requested_paths path_masks path_patterns
    (∀ calls, let t := run t₀ calls
      (∀ path path', path ≠ path' → Disjoint (t.selected path).members (t.selected path').members) ∧
      (∀ path, Disjoint (t.selected path).members t.unmatched.members) ∧
      (Finset.univ.biUnion fun path => (t.selected path).members) ∪ t.unmatched.members
        = t.observed.members ∧
      (∀ lane : Lane, lane ∈ t.observed.members ↔
        lane.val < requested_lanes ∧ ∃ value, ⟨lane, value⟩ ∈ calls) ∧
      ∀ path (lane : Lane), lane ∈ (t.selected path).members ↔
        lane.val < requested_lanes ∧ ∃ value, firstValue calls lane = some value ∧
          ∀ other, Matches requested_paths path_masks path_patterns value other ↔ other = path) ∧
    ∀ calls calls', (∀ lane : Lane, firstValue calls lane = firstValue calls' lane) →
      (run t₀ calls).selected = (run t₀ calls').selected ∧
      (run t₀ calls).unmatched = (run t₀ calls').unmatched ∧
      (run t₀ calls).observed = (run t₀ calls').observed ∧
      (run t₀ calls).selectedPaths = (run t₀ calls').selectedPaths := by
  intro t₀
  have hrun := recorded_run requested_lanes requested_paths path_masks path_patterns
  have hdecided := decided_begin requested_lanes requested_paths path_masks path_patterns
  constructor
  · intro calls t
    have h : Recorded t₀ calls t := hrun calls
    refine ⟨?_, ?_, h.union, ?_, ?_⟩
    · intro path path' hne
      rw [Finset.disjoint_left]
      intro lane hpath hpath'
      rw [h.mem_selected] at hpath hpath'
      rw [hpath] at hpath'
      cases hpath'
      exact hne rfl
    · intro path
      rw [Finset.disjoint_left]
      intro lane hpath hnone
      rw [h.mem_selected] at hpath
      rw [h.mem_unmatched, hpath] at hnone
      cases hnone
    · intro lane
      rw [h.mem_observed, hdecided, ← firstValue_isSome]
      split_ifs with hlane
      · simp [hlane]
      · simp [hlane]
    · intro path lane
      rw [h.mem_selected, hdecided]
      simp only [← Tracker.begin_verdict requested_lanes]
      split_ifs with hlane
      · rw [Option.map_eq_some_iff]
        exact (and_iff_right hlane).symm
      · exact iff_of_false nofun fun hc => hlane hc.1
  · intro calls calls' hfirst
    have heq : run t₀ calls = run t₀ calls' := by
      refine (hrun calls).eq_of_decided (hrun calls') fun lane => ?_
      rw [hdecided, hdecided, hfirst]
    rw [heq]
    exact ⟨rfl, rfl, rfl, rfl⟩

end Gem5Dvr.LanePredicate
