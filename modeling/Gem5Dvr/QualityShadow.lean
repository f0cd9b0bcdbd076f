/-
  The shadow cache of the quality tracker is a demand-only LRU cache (`DVRQualityTracker::ShadowCache`
  and `demandLookup`, `cpu/o3/dvr_quality.cc`).

  1. **Specification** — `shadowHit`: the line was demanded before, and fewer than `ways` other lines
     of its set were demanded since.  It reads the demanded lines and nothing else, and `shadowMisses`
     counts the lookups it refuses.

  2. **The crux (`Shadows`)** — each set is the first `way_count` places of the recency order of the
     demanded lines that fall into it.  What the set has thrown out need not be remembered: a line
     thrown out comes back as if it were new.
-/
import Gem5Dvr.QualityTracker
import Gem5Dvr.Lib.Recency

namespace Gem5Dvr.Quality

open List

variable {g : Geometry}

/-! ## Specification -/

/-- The line of a demand lookup. -/
def Event.demanded : Event → Option Line
  | .demandLookup line _ _ => some line
  | _ => none

/-- The demanded lines of a sequence of reports, in order. -/
def demandLines (es : List Event) : List Line := es.filterMap Event.demanded

/-- The line was demanded, and fewer than `way_count` other lines of its set were since.  The
    history is given last demand first. -/
def shadowHit (g : Geometry) (history : List Line) (line : Line) : Prop := line ∈ history ∧
    ((Recency.since line history).filter fun other =>
      (ShadowCache.index other : Fin g.set_count) = ShadowCache.index line).toFinset.card < g.way_count

instance (g : Geometry) (history : List Line) (line : Line) :
    Decidable (shadowHit g history line) := inferInstanceAs (Decidable (_ ∧ _))

/-- The lookups of a history that are no hits. -/
def shadowMisses (g : Geometry) : List Line → Nat
  | [] => 0
  | line :: history => shadowMisses g history + if shadowHit g history line then 0 else 1

/-! ## The move-to-front lists -/

/-- The demanded lines of one set. -/
def inSet (i : Fin g.set_count) (history : List Line) : List Line :=
  history.filter fun line => ShadowCache.index line = i

/-- Every set holds the most recent lines of its own. -/
def Shadows (c : ShadowCache g) (history : List Line) : Prop :=
  ∀ i, c.sets i = (Recency.order (inSet i history)).take g.way_count

theorem inSet_cons_self (line : Line) (history : List Line) :
    inSet (ShadowCache.index line : Fin g.set_count) (line :: history)
      = line :: inSet (ShadowCache.index line : Fin g.set_count) history :=
  filter_cons_of_pos (by simp)

theorem inSet_cons_ne {i : Fin g.set_count} {line : Line} (hi : i ≠ ShadowCache.index line)
    (history : List Line) : inSet i (line :: history) = inSet i history :=
  filter_cons_of_neg (by simpa using hi.symm)

section access

variable {c : ShadowCache g} {history : List Line}

/-- The set of a line holds it just when the specification has a hit. -/
theorem Shadows.contains_iff (h : Shadows c history) (line : Line) :
    (c.sets (ShadowCache.index line)).contains line = true ↔ shadowHit g history line := by
  rw [contains_iff_mem, h, Recency.mem_take_order]
  have hmem : line ∈ inSet (ShadowCache.index line : Fin g.set_count) history ↔ line ∈ history := by
    simp [inSet]
  have hsince : Recency.since line (inSet (ShadowCache.index line : Fin g.set_count) history)
      = (Recency.since line history).filter fun other =>
        (ShadowCache.index other : Fin g.set_count) = ShadowCache.index line :=
    Recency.since_filter (by simp) history
  rw [hmem, hsince]
  exact Iff.rfl

theorem Shadows.access_snd (h : Shadows c history) (line : Line) :
    (c.access line).2 = true ↔ shadowHit g history line := by
  rw [← h.contains_iff]
  unfold ShadowCache.access
  simp only
  split_ifs with hin
  · exact iff_of_true rfl hin
  · exact iff_of_false id hin

/-- The line accessed is the most recent one of its set; the other sets do not change. -/
theorem Shadows.access_fst (h : Shadows c history) (line : Line) :
    Shadows (c.access line).1 (line :: history) := by
  have hset := h (ShadowCache.index line)
  intro i
  by_cases hi : i = ShadowCache.index line
  · subst hi
    rw [inSet_cons_self]
    unfold ShadowCache.access
    simp only
    split_ifs with hin hfull
    · rw [contains_iff_mem, hset] at hin
      simp only [Function.update_self]
      rw [Recency.take_order_hit hin, hset]
    · -- the set overflows: the last line goes
      rw [contains_iff_mem, hset] at hin
      simp only [Function.update_self]
      rw [Recency.take_order_miss g.way_pos hin, ← hset, dropLast_eq_take]
      have hle : (c.sets (ShadowCache.index line)).length ≤ g.way_count := by
        rw [hset]
        exact length_take_le _ _
      rw [length_cons] at hfull ⊢
      congr 1
      omega
    · rw [contains_iff_mem, hset] at hin
      simp only [Function.update_self]
      rw [Recency.take_order_miss g.way_pos hin, ← hset, take_of_length_le (by omega)]
  · rw [inSet_cons_ne hi, ← h i]
    unfold ShadowCache.access
    simp only
    split_ifs <;> exact Function.update_of_ne hi _ _

end access

/-! ## The other reports -/

/-- The shadow cache and its counter are unchanged. -/
def SameShadow (t t' : Tracker g) : Prop :=
  t'.demandShadow = t.demandShadow ∧ t'.counts.shadowDemandMisses = t.counts.shadowDemandMisses

theorem SameShadow.trans {t t' t'' : Tracker g} (h : SameShadow t t') (h' : SameShadow t' t'') :
    SameShadow t t'' := ⟨h'.1.trans h.1, h'.2.trans h.2⟩

section quiet

variable (t : Tracker g)

theorem sameShadow_issued (id : RequestId) (line : Line) (bytes : BitVec 64) (now : Time) :
    SameShadow t (t.issued id line bytes now).1 := by
  unfold Tracker.issued
  split_ifs <;> exact ⟨rfl, rfl⟩

theorem sameShadow_completed (id : RequestId) : SameShadow t (t.completed id).1 := by
  unfold Tracker.completed
  cases t.outstanding.lookup id <;> exact ⟨rfl, rfl⟩

theorem sameShadow_completedAll (ids : List RequestId) : SameShadow t (t.completedAll ids).1 := by
  induction ids generalizing t with
  | nil => exact ⟨rfl, rfl⟩
  | cons id ids ih =>
    have hfirst := sameShadow_completed t id
    rw [Tracker.completedAll]
    cases hc : t.completed id with
    | mk t' thrown =>
      rw [hc] at hfirst
      cases thrown with
      | none => exact hfirst.trans (ih t')
      | some e => exact hfirst

theorem sameShadow_dropped (id : RequestId) : SameShadow t (t.dropped id) := by
  unfold Tracker.dropped
  cases t.outstanding.lookup id <;> exact ⟨rfl, rfl⟩

theorem sameShadow_leave (line : Line) : SameShadow t (t.leave line) := by
  unfold Tracker.leave
  cases t.prefetched.lookup line <;> exact ⟨rfl, rfl⟩

theorem sameShadow_evict (origin : FillOrigin) (victim : Line) (victim_origin : FillOrigin) :
    SameShadow t (t.evict origin victim victim_origin) := by
  have hleave := sameShadow_leave t victim
  unfold Tracker.evict
  simp only
  split_ifs <;> exact hleave

theorem sameShadow_install (line : Line) (origin : FillOrigin) (now : Time) :
    SameShadow t (t.install line origin now) := by
  cases origin with
  | Demand => exact ⟨rfl, rfl⟩
  | DVR =>
    unfold Tracker.install
    simp only
    split_ifs <;> exact ⟨rfl, rfl⟩

theorem sameShadow_cacheFill (line : Line) (origin : FillOrigin) (now : Time) (victim : Option Line)
    (victim_origin : Option FillOrigin) :
    SameShadow t (t.cacheFill line origin now victim victim_origin).1 := by
  unfold Tracker.cacheFill
  cases victim <;> cases victim_origin
  · exact sameShadow_install t line origin now
  · exact ⟨rfl, rfl⟩
  · exact ⟨rfl, rfl⟩
  · exact (sameShadow_evict t origin _ _).trans (sameShadow_install _ line origin now)

theorem sameShadow_cacheRemove (line : Line) (origin : FillOrigin) :
    SameShadow t (t.cacheRemove line origin) := by
  have hleave := sameShadow_leave t line
  unfold Tracker.cacheRemove
  simp only
  split_ifs
  · exact hleave
  · exact ⟨rfl, rfl⟩

/-- Only a demand lookup touches the shadow cache. -/
theorem sameShadow_report {e : Event} (he : e.demanded = none) : SameShadow t (report t e).1 := by
  cases e with
  | generated => exact ⟨rfl, rfl⟩
  | issued id line bytes now => exact sameShadow_issued t id line bytes now
  | completed id => exact sameShadow_completed t id
  | completedLine line => exact sameShadow_completedAll t _
  | dropped id => exact sameShadow_dropped t id
  | demandAddressObserved => exact ⟨rfl, rfl⟩
  | demandLookup line actual_hit now => cases he
  | cacheFill line origin now victim victim_origin =>
    exact sameShadow_cacheFill t line origin now victim victim_origin
  | cacheRemove line origin => exact sameShadow_cacheRemove t line origin

/-- After the lookup proper, `demandLookup` leaves the shadow cache alone. -/
theorem sameShadow_credit (line : Line) (actual_hit shadow_hit : Bool) (now : Time) :
    SameShadow t (t.credit line actual_hit shadow_hit now) := by
  unfold Tracker.credit
  cases t.prefetched.lookup line with
  | none =>
    simp only
    split_ifs <;> exact ⟨rfl, rfl⟩
  | some useful =>
    simp only
    split_ifs <;> exact ⟨rfl, rfl⟩

theorem sameShadow_charge (line : Line) (actual_hit shadow_hit : Bool) :
    SameShadow t (t.charge line actual_hit shadow_hit) := by
  unfold Tracker.charge
  simp only
  split_ifs <;> exact ⟨rfl, rfl⟩

end quiet

/-! ## Every sequence of reports -/

/-- The tracker has seen these demands. -/
structure Demands (t : Tracker g) (history : List Line) : Prop where
  shadows : Shadows t.demandShadow history
  misses : t.counts.shadowDemandMisses = shadowMisses g history

theorem Demands.of_same {t t' : Tracker g} {history : List Line} (h : Demands t history)
    (hsame : SameShadow t t') : Demands t' history := by
  constructor
  · rw [hsame.1]
    exact h.shadows
  · rw [hsame.2]
    exact h.misses

theorem Demands.demandLookup {t : Tracker g} {history : List Line} (h : Demands t history)
    (line : Line) (actual_hit : Bool) (now : Time) :
    Demands (t.demandLookup line actual_hit now) (line :: history) := by
  have hlook : Demands (t.look line actual_hit).1 (line :: history) := by
    constructor
    · exact h.shadows.access_fst line
    · have hiff := h.shadows.access_snd line
      have hmisses := h.misses
      show (if (t.demandShadow.access line).2 then t.counts.shadowDemandMisses
        else t.counts.shadowDemandMisses + 1) = _
      rw [shadowMisses, if_congr hiff rfl rfl]
      split_ifs <;> omega
  have hcredit := sameShadow_credit (t.look line actual_hit).1 line actual_hit
    (t.look line actual_hit).2 now
  exact hlook.of_same (hcredit.trans (sameShadow_charge _ line actual_hit _))

theorem demands_run (g : Geometry) (es : List Event) :
    Demands (run g es).tracker (demandLines es).reverse := by
  induction es using reverseRecOn with
  | nil =>
    constructor
    · intro i
      exact take_nil.symm
    · rfl
  | append_singleton es e ih =>
    have hrun : (run g (es ++ [e])).tracker = (report (run g es).tracker e).1 := by
      rw [run, foldl_append]
      exact step_tracker _ e
    rw [hrun, demandLines, filterMap_append, reverse_append]
    cases he : e.demanded with
    | none =>
      have hquiet := ih.of_same (sameShadow_report (run g es).tracker he)
      rw [filterMap_cons_none he]
      exact hquiet
    | some line =>
      cases e with
      | demandLookup line' actual_hit now =>
        cases he
        exact ih.demandLookup line actual_hit now
      | _ => cases he

/-- A lookup hits the shadow cache just when the line was demanded before and fewer than `ways`
    other lines of its set were demanded since; the misses counted are a function of the demanded
    lines alone. -/
theorem shadow_exact_lru (g : Geometry) (es : List Event) :
    (∀ line actual_hit, ((run g es).tracker.look line actual_hit).2 = true ↔ line ∈ demandLines es ∧
        ((Recency.since line (demandLines es).reverse).filter fun other =>
          other.toNat / g.line_bytes % g.set_count = line.toNat / g.line_bytes % g.set_count
          ).toFinset.card < g.way_count) ∧
    (∀ line actual_hit now, ((run g (es ++ [.demandLookup line actual_hit now])).tracker.counts
        ).shadowDemandMisses = (run g es).tracker.counts.shadowDemandMisses
      + if ((run g es).tracker.look line actual_hit).2 then 0 else 1) ∧
    ∀ es', demandLines es' = demandLines es → (run g es').tracker.counts.shadowDemandMisses
        = (run g es).tracker.counts.shadowDemandMisses := by
  have hes := demands_run g es
  refine ⟨?_, ?_, ?_⟩
  · intro line actual_hit
    have hhit := hes.shadows.access_snd line
    unfold shadowHit at hhit
    simpa [ShadowCache.index, Tracker.look] using hhit
  · intro line actual_hit now
    have hnext := (demands_run g (es ++ [.demandLookup line actual_hit now])).misses
    have hhit := hes.shadows.access_snd line
    have hlines : (demandLines (es ++ [.demandLookup line actual_hit now])).reverse
        = line :: (demandLines es).reverse := by
      simp [demandLines, Event.demanded]
    rw [hnext, hlines, shadowMisses, hes.misses]
    exact congrArg _ (if_congr hhit.symm rfl rfl)
  · intro es' heq
    rw [(demands_run g es').misses, hes.misses, heq]

end Gem5Dvr.Quality
