/-
  Runs of a deterministic machine under a guard.

  A machine is a step function `step : σ → ε → σ`; a run over a list of events is `List.foldl step`.
  `Admits ok step s es` says that every event of `es` is allowed by the state it meets.  Two rules:

    * `Admits.invariant` — what the first state has and every allowed step keeps, the last state has;
    * `Admits.simulates` — a map `abs` that follows the kept events and does not see the dropped ones
      takes a run to the run over the kept events.  Erasing the wrong-path events of a speculative
      machine is the case `stepT = step`.

  A machine whose step may have no result (an assertion) runs as `runs`, with `runs_invariant`;
  `Obeys.invariant` is the rule under a guard, `Obeys.runs` the one for a machine that always has a
  result under it.
-/
import Mathlib.Data.List.Basic

namespace Trace

open List

variable {σ τ ε : Type}

/-- Every event of the list is allowed by the state it meets. -/
def Admits (ok : σ → ε → Prop) (step : σ → ε → σ) : σ → List ε → Prop
  | _, [] => True
  | s, e :: es => ok s e ∧ Admits ok step (step s e) es

variable {ok ok' : σ → ε → Prop} {step : σ → ε → σ}

@[simp] theorem admits_nil (s : σ) : Admits ok step s [] := trivial

@[simp] theorem admits_cons (s : σ) (e : ε) (es : List ε) :
    Admits ok step s (e :: es) ↔ ok s e ∧ Admits ok step (step s e) es := Iff.rfl

instance decidableAdmits [∀ s e, Decidable (ok s e)] :
    ∀ (s : σ) (es : List ε), Decidable (Admits ok step s es)
  | _, [] => isTrue trivial
  | s, e :: es => @instDecidableAnd _ _ _ (decidableAdmits (step s e) es)

theorem admits_append (s : σ) (es fs : List ε) : Admits ok step s (es ++ fs) ↔
      Admits ok step s es ∧ Admits ok step (es.foldl step s) fs := by
  induction es generalizing s with
  | nil => simp
  | cons e es ih => simp [ih, and_assoc]

/-- The invariant rule. -/
theorem Admits.invariant (Inv : σ → Prop) (hstep : ∀ s e, Inv s → ok s e → Inv (step s e))
    {s : σ} {es : List ε} (h : Inv s) (hok : Admits ok step s es) : Inv (es.foldl step s) := by
  induction es generalizing s with
  | nil => exact h
  | cons e es ih => exact ih (hstep s e h hok.1) hok.2

/-- A guard that does not read the state. -/
theorem admits_of_forall {legal : ε → Prop} {s : σ} {es : List ε} (h : ∀ e ∈ es, legal e) :
    Admits (fun _ e => legal e) step s es := by
  induction es generalizing s with
  | nil => trivial
  | cons e es ih =>
    exact ⟨h e mem_cons_self, ih fun e' he' => h e' (mem_cons_of_mem e he')⟩

/-- A guard is EXACT for a property: along a legal run, the property holds after every prefix just
    when the guard admits the run. -/
theorem Admits.iff_prefix {legal : σ → ε → Prop} (Inv P : σ → Prop)
    (hstep : ∀ s e, Inv s → legal s e → ok s e → Inv (step s e)) (hgood : ∀ s, Inv s → P s)
    (hbad : ∀ s e, Inv s → legal s e → ¬ ok s e → ¬ P (step s e))
    {s : σ} {es : List ε} (h : Inv s) (hlegal : Admits legal step s es) :
    (∀ pre, pre <+: es → P (pre.foldl step s)) ↔ Admits ok step s es := by
  induction es generalizing s with
  | nil =>
    refine ⟨fun _ => trivial, fun _ pre hpre => ?_⟩
    rw [prefix_nil.mp hpre]
    exact hgood s h
  | cons e es ih =>
    obtain ⟨he, hes⟩ := hlegal
    constructor
    · intro hall
      have hok : ok s e := by
        by_contra hne
        exact hbad s e h he hne (hall [e] (prefix_append [e] es))
      exact ⟨hok, (ih (hstep s e h he hok) hes).mp fun pre hpre =>
        hall (e :: pre) (cons_prefix_cons.mpr ⟨rfl, hpre⟩)⟩
    · rintro ⟨hok, hadm⟩ pre hpre
      cases pre with
      | nil => exact hgood s h
      | cons e' pre =>
        obtain ⟨rfl, htail⟩ := cons_prefix_cons.mp hpre
        exact (ih (hstep s e' h he hok) hes).mpr hadm pre htail

/-- The rule for events that are legal wherever they occur. -/
theorem admits_iff_prefix (Inv P : σ → Prop) (legal : ε → Prop)
    (hstep : ∀ s e, Inv s → legal e → ok s e → Inv (step s e)) (hgood : ∀ s, Inv s → P s)
    (hbad : ∀ s e, Inv s → legal e → ¬ ok s e → ¬ P (step s e))
    {s : σ} {es : List ε} (h : Inv s) (hlegal : ∀ e ∈ es, legal e) :
    (∀ pre, pre <+: es → P (pre.foldl step s)) ↔ Admits ok step s es :=
  Admits.iff_prefix Inv P hstep hgood hbad h (admits_of_forall hlegal)

/-- A guard is EXACT for a property of steps: along a legal run, every step has the property just
    when the guard admits the run. -/
theorem Admits.iff_steps {legal P : σ → ε → Prop} (Inv : σ → Prop)
    (hstep : ∀ s e, Inv s → legal s e → ok s e → Inv (step s e))
    (hexact : ∀ s e, Inv s → legal s e → (P s e ↔ ok s e))
    {s : σ} {es : List ε} (h : Inv s) (hlegal : Admits legal step s es) :
    (∀ pre e, pre ++ [e] <+: es → P (pre.foldl step s) e) ↔ Admits ok step s es := by
  induction es generalizing s with
  | nil =>
    refine ⟨fun _ => trivial, fun _ pre e hpre => ?_⟩
    exact absurd (prefix_nil.mp hpre) (by simp)
  | cons e es ih =>
    obtain ⟨he, hes⟩ := hlegal
    constructor
    · intro hall
      have hok : ok s e := (hexact s e h he).mp (hall [] e (by simp))
      exact ⟨hok, (ih (hstep s e h he hok) hes).mp fun pre e' hpre =>
        hall (e :: pre) e' (cons_prefix_cons.mpr ⟨rfl, hpre⟩)⟩
    · rintro ⟨hok, hadm⟩ pre e' hpre
      cases pre with
      | nil =>
        obtain ⟨rfl, -⟩ := cons_prefix_cons.mp hpre
        exact (hexact s e' h he).mpr hok
      | cons b pre =>
        obtain ⟨rfl, htail⟩ := cons_prefix_cons.mp hpre
        exact (ih (hstep s b h he hok) hes).mpr hadm pre e' htail

/-- The simulation rule, with dropped events. -/
theorem Admits.simulates (Inv : σ → Prop) (abs : σ → τ) {stepT : τ → ε → τ} (keep : ε → Bool)
    (hinv : ∀ s e, Inv s → ok s e → Inv (step s e))
    (hkeep : ∀ s e, Inv s → ok s e → keep e = true → abs (step s e) = stepT (abs s) e)
    (hdrop : ∀ s e, Inv s → ok s e → keep e = false → abs (step s e) = abs s)
    {s : σ} {es : List ε} (h : Inv s) (hok : Admits ok step s es) :
    abs (es.foldl step s) = (es.filter keep).foldl stepT (abs s) := by
  induction es generalizing s with
  | nil => rfl
  | cons e es ih =>
    rw [foldl_cons, ih (hinv s e h hok.1) hok.2]
    cases hk : keep e with
    | true => rw [filter_cons_of_pos hk, foldl_cons, hkeep s e h hok.1 hk]
    | false => rw [filter_cons_of_neg (by simp [hk]), hdrop s e h hok.1 hk]

/-! ## A machine that may stop -/

/-- A run of a machine whose step may have no result. -/
def runs (step : σ → ε → Option σ) : σ → List ε → Option σ
  | s, [] => some s
  | s, e :: es => (step s e).bind fun s' => runs step s' es

/-- The invariant rule: what a step that has a result keeps, a run that has one keeps. -/
theorem runs_invariant {step : σ → ε → Option σ} (Inv : σ → Prop)
    (hstep : ∀ s e s', Inv s → step s e = some s' → Inv s') {s s' : σ} {es : List ε} (h : Inv s)
    (hrun : runs step s es = some s') : Inv s' := by
  induction es generalizing s with
  | nil =>
    cases hrun
    exact h
  | cons e es ih =>
    obtain ⟨t, ht, hrest⟩ := Option.bind_eq_some_iff.mp hrun
    exact ih (hstep s e t h ht) hrest

/-- Every event is allowed by the state it meets, as far as the machine gets. -/
def Obeys (ok : σ → ε → Prop) (step : σ → ε → Option σ) : σ → List ε → Prop
  | _, [] => True
  | s, e :: es => ok s e ∧ ∀ s', step s e = some s' → Obeys ok step s' es

instance decidableObeys {step : σ → ε → Option σ} [∀ s e, Decidable (ok s e)] :
    ∀ (s : σ) (es : List ε), Decidable (Obeys ok step s es)
  | _, [] => isTrue trivial
  | s, e :: es =>
    match h : step s e with
    | none => decidable_of_iff (ok s e) ⟨fun he => ⟨he, fun s' hs => by rw [h] at hs; cases hs⟩,
        fun he => he.1⟩
    | some t =>
      have : Decidable (Obeys ok step t es) := decidableObeys t es
      decidable_of_iff (ok s e ∧ Obeys ok step t es) (and_congr_right fun _ =>
        ⟨fun ht s' hs => by rw [h] at hs; cases hs; exact ht, fun ht => ht t h⟩)

/-- A guard with a part that does not read the state. -/
theorem Obeys.and_of_forall {step : σ → ε → Option σ} {legal : ε → Prop} {s : σ} {es : List ε}
    (hok : Obeys ok step s es) (h : ∀ e ∈ es, legal e) :
    Obeys (fun s e => ok s e ∧ legal e) step s es := by
  induction es generalizing s with
  | nil => trivial
  | cons e es ih =>
    exact ⟨⟨hok.1, h e mem_cons_self⟩, fun s' hs => ih (hok.2 s' hs) fun e' he' =>
      h e' (mem_cons_of_mem e he')⟩

/-- The invariant rule under a guard. -/
theorem Obeys.invariant {step : σ → ε → Option σ} (Inv : σ → Prop)
    (hstep : ∀ s e s', Inv s → ok s e → step s e = some s' → Inv s') {s s' : σ} {es : List ε}
    (h : Inv s) (hok : Obeys ok step s es) (hrun : Trace.runs step s es = some s') : Inv s' := by
  induction es generalizing s with
  | nil =>
    cases hrun
    exact h
  | cons e es ih =>
    obtain ⟨t, ht, hrest⟩ := Option.bind_eq_some_iff.mp hrun
    exact ih (hstep s e t h hok.1 ht) (hok.2 t ht) hrest

/-- The rule of total runs: where every allowed step has a result, a guarded run has one. -/
theorem Obeys.runs {step : σ → ε → Option σ} (Inv : σ → Prop)
    (hstep : ∀ s e, Inv s → ok s e → ∃ s', step s e = some s' ∧ Inv s') {s : σ} {es : List ε}
    (h : Inv s) (hok : Obeys ok step s es) : ∃ s', Trace.runs step s es = some s' ∧ Inv s' := by
  induction es generalizing s with
  | nil => exact ⟨s, rfl, h⟩
  | cons e es ih =>
    obtain ⟨t, ht, hinv⟩ := hstep s e h hok.1
    obtain ⟨s', hrun, hinv'⟩ := ih hinv (hok.2 t ht)
    refine ⟨s', ?_, hinv'⟩
    show (step s e).bind _ = _
    rw [ht]
    exact hrun

/-- A guard is EXACT for a property: it holds wherever a run gets just when the guard admits every
    step that has a result. -/
theorem Obeys.iff_prefix {step : σ → ε → Option σ} (Inv P : σ → Prop)
    (hstep : ∀ s e s', Inv s → step s e = some s' → (ok s e → Inv s') ∧ (¬ ok s e → ¬ P s'))
    (hgood : ∀ s, Inv s → P s) {s : σ} {es : List ε} (h : Inv s) :
    (∀ pre s', pre <+: es → Trace.runs step s pre = some s' → P s') ↔
      Obeys (fun s e => (step s e).isSome = true → ok s e) step s es := by
  induction es generalizing s with
  | nil =>
    refine ⟨fun _ => trivial, fun _ pre s' hpre hrun => ?_⟩
    rw [prefix_nil.mp hpre] at hrun
    cases hrun
    exact hgood s h
  | cons e es ih =>
    constructor
    · intro hall
      have hok : ∀ t, step s e = some t → ok s e := by
        intro t ht
        by_contra hne
        refine (hstep s e t h ht).2 hne (hall [e] t (prefix_append [e] es) ?_)
        show (step s e).bind _ = _
        rw [ht]
        rfl
      refine ⟨fun hsome => hok _ (Option.some_get hsome).symm, fun t ht => ?_⟩
      refine (ih ((hstep s e t h ht).1 (hok t ht))).mp fun pre s' hpre hrun => ?_
      refine hall (e :: pre) s' (cons_prefix_cons.mpr ⟨rfl, hpre⟩) ?_
      show (step s e).bind _ = _
      rw [ht]
      exact hrun
    · rintro ⟨hok, hrest⟩ pre s' hpre hrun
      cases pre with
      | nil =>
        cases hrun
        exact hgood s h
      | cons e' pre =>
        obtain ⟨rfl, htail⟩ := cons_prefix_cons.mp hpre
        obtain ⟨t, ht, hrun⟩ := Option.bind_eq_some_iff.mp hrun
        have hinv : Inv t := (hstep s e' t h ht).1 (hok (by rw [ht]; rfl))
        exact (ih hinv).mpr (hrest t ht) pre s' htail hrun

/-! ## A machine watched by an observer -/

/-- Two machines fed with the same events. -/
def both (step : σ → ε → σ) (stepT : τ → ε → τ) (p : σ × τ) (e : ε) : σ × τ :=
  (step p.1 e, stepT p.2 e)

@[simp] theorem foldl_both (step : σ → ε → σ) (stepT : τ → ε → τ) (p : σ × τ) (es : List ε) :
    es.foldl (both step stepT) p = (es.foldl step p.1, es.foldl stepT p.2) := by
  induction es generalizing p with
  | nil => rfl
  | cons e es ih => exact ih (both step stepT p e)

/-- A guard that only reads the observer holds of the pair as soon as it holds of the observer. -/
theorem Admits.both {ok : τ → ε → Prop} {step : σ → ε → σ} {stepT : τ → ε → τ} {s : σ} {t : τ}
    {es : List ε} (h : Admits ok stepT t es) :
    Admits (fun p e => ok p.2 e) (both step stepT) (s, t) es := by
  induction es generalizing s t with
  | nil => trivial
  | cons e es ih => exact ⟨h.1, ih h.2⟩

theorem admits_both_fst {step : σ → ε → σ} {stepT : τ → ε → τ} {s : σ} {t : τ} {es : List ε} :
    Admits (fun p e => ok p.1 e) (Trace.both step stepT) (s, t) es ↔ Admits ok step s es := by
  induction es generalizing s t with
  | nil => exact Iff.rfl
  | cons e es ih => exact and_congr Iff.rfl ih

end Trace
