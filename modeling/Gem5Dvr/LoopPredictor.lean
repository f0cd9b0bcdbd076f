/-
  The loop predictor (`cpu/pred/loop_predictor.cc`, `loop_predictor.hh`), and how its speculative
  counts are undone.

    1. **Program** — the table, `loopPredict` and the two functions that squash.
    2. **Specification** — the speculative count of every entry after some predictions and their
       squashes, the youngest first, is the one before them.
    3. **The crux (`spec_restored_iff`)** — a squash writes the count of the record, which no
       prediction sets: it is zero.  So the counts come back just where they were zero.

  `loopHit` is -1 for a miss, as in the source; the record of a branch that is not conditional has
  it at 0.  `calcConf` is that of the base class.
-/
import Mathlib.Algebra.Group.Nat.Defs
import Mathlib.Logic.Function.Basic

namespace Gem5Dvr.LoopPred

open List

/-! ## The program -/

/-- The parameters. -/
structure LoopPredictorParams where
  logSizeLoopPred : Nat := 8
  loopTableConfidenceBits : Nat := 2
  loopTableTagBits : Nat := 14
  loopTableIterBits : Nat := 14
  logLoopTableAssoc : Nat := 2
  useDirectionBit : Bool := false
  useSpeculation : Bool := false
  useHashing : Bool := false

/-- A loop that is watched. -/
structure LoopEntry where
  numIter : Nat := 0
  currentIter : Nat := 0
  currentIterSpec : Nat := 0
  confidence : Nat := 0
  tag : Nat := 0
  age : Nat := 0
  dir : Bool := false
  deriving DecidableEq

/-- What a branch needs to undo its step. -/
structure BranchInfo where
  loopTag : Nat := 0
  currentIter : Nat := 0
  loopPred : Bool := false
  loopPredValid : Bool := false
  loopPredUsed : Bool := false
  loopIndex : Nat := 0
  loopIndexB : Nat := 0
  loopHit : Int := 0
  predTaken : Bool := false
  deriving DecidableEq

/-- The table of loops. -/
structure LoopPredictor where
  ltable : Nat → LoopEntry := fun _ => {}
  loopUseCounter : Int := -1

namespace LoopPredictorParams

variable (P : LoopPredictorParams)

/-- The confidence that a prediction needs. -/
def confidenceThreshold : Nat := 2 ^ P.loopTableConfidenceBits - 1

/-- The bits of a tag. -/
def loopTagMask : Nat := 2 ^ P.loopTableTagBits - 1

/-- The bits of an iteration count. -/
def loopNumIterMask : Nat := 2 ^ P.loopTableIterBits - 1

/-- The bits of a set. -/
def loopSetMask : Nat := 2 ^ (P.logSizeLoopPred - P.logLoopTableAssoc) - 1

/-- The set of a PC. -/
def lindex (pc_in instShiftAmt : Nat) : Nat :=
  let pc := pc_in >>> instShiftAmt
  let pc := if P.useHashing then pc ^^^ pc_in else pc
  (pc &&& P.loopSetMask) <<< P.logLoopTableAssoc

/-- The entry of a set and a way. -/
def finallindex (index lowPcBits way : Nat) : Nat :=
  (if P.useHashing then index ^^^ ((lowPcBits >>> way) <<< P.logLoopTableAssoc) else index) + way

/-- The tag `getLoop` looks for. -/
def loopTag (pc instShiftAmt : Nat) : Nat :=
  if P.useHashing then
    let pcShift := P.logSizeLoopPred - P.logLoopTableAssoc
    ((pc >>> pcShift) ^^^ (pc >>> (pcShift + P.loopTableTagBits))) &&& P.loopTagMask
  else
    let pcShift := instShiftAmt + P.logSizeLoopPred - P.logLoopTableAssoc
    (pc >>> pcShift) &&& P.loopTagMask

/-- The second index of `getLoop`, which is used with hashing only. -/
def loopIndexB (pc : Nat) : Nat :=
  if P.useHashing then
    (pc >>> (P.logSizeLoopPred - P.logLoopTableAssoc)) &&& P.loopSetMask
  else 0

/-- The entry of a way of a branch. -/
def place (pc instShiftAmt way : Nat) : Nat :=
  P.finallindex (P.lindex pc instShiftAmt) (P.loopIndexB pc) way

end LoopPredictorParams

/-- What an entry predicts, for a count. -/
def LoopEntry.predict (P : LoopPredictorParams) (e : LoopEntry) (iter : Nat) : Bool :=
  if iter + 1 = e.numIter then if P.useDirectionBit then !e.dir else false
  else if P.useDirectionBit then e.dir else true

/-- Whether the confidence is enough. -/
def LoopEntry.calcConf (P : LoopPredictorParams) (e : LoopEntry) : Bool :=
  e.confidence == P.confidenceThreshold

namespace LoopPredictor

variable (P : LoopPredictorParams) (lp : LoopPredictor)

/-- The loop over the ways of `getLoop`. -/
def findWay (pc instShiftAmt : Nat) : Option Nat := (range (2 ^ P.logLoopTableAssoc)).find? fun i =>
    (lp.ltable (P.place pc instShiftAmt i)).tag == P.loopTag pc instShiftAmt

/-- `getLoop`: the prediction and the record. -/
def getLoop (pc : Nat) (bi : BranchInfo) (speculative : Bool) (instShiftAmt : Nat) :
    Bool × BranchInfo :=
  let bi := { bi with
    loopHit := -1
    loopPredValid := false
    loopIndex := P.lindex pc instShiftAmt
    loopIndexB := if P.useHashing then P.loopIndexB pc else bi.loopIndexB
    loopTag := P.loopTag pc instShiftAmt }
  match lp.findWay P pc instShiftAmt with
  | some i =>
    let e := lp.ltable (P.finallindex bi.loopIndex bi.loopIndexB i)
    (e.predict P (if speculative then e.currentIterSpec else e.currentIter),
      { bi with loopHit := i, loopPredValid := e.calcConf P })
  | none => (false, bi)

/-- One entry is written. -/
def write (idx : Nat) (e : LoopEntry) : LoopPredictor :=
  { lp with ltable := Function.update lp.ltable idx e }

end LoopPredictor

/-- The entry a record is about. -/
def BranchInfo.entry (P : LoopPredictorParams) (bi : BranchInfo) : Option Nat :=
  if 0 ≤ bi.loopHit then some (P.finallindex bi.loopIndex bi.loopIndexB bi.loopHit.toNat) else none

namespace LoopPredictor

variable (P : LoopPredictorParams) (lp : LoopPredictor)

/-- The count after a branch, before it is known. -/
def specLoopUpdate (taken : Bool) (bi : BranchInfo) : LoopPredictor :=
  match bi.entry P with
  | some index =>
    let e := lp.ltable index
    lp.write index { e with
      currentIterSpec :=
        if taken ≠ e.dir then 0 else (e.currentIterSpec + 1) &&& P.loopNumIterMask }
  | none => lp

/-- The lookup, and its step. -/
def loopPredict (branch_pc : Nat) (cond_branch : Bool) (bi : BranchInfo) (prev_pred_taken : Bool)
    (instShiftAmt : Nat) : Bool × BranchInfo × LoopPredictor :=
  if cond_branch then
    let found := lp.getLoop P branch_pc bi P.useSpeculation instShiftAmt
    let used := decide (lp.loopUseCounter ≥ 0) && found.2.loopPredValid
    let pred_taken := if used then found.1 else prev_pred_taken
    let bi := { found.2 with
      loopPred := found.1
      loopPredUsed := used || found.2.loopPredUsed }
    (pred_taken, bi, if P.useSpeculation then lp.specLoopUpdate P pred_taken bi else lp)
  else (prev_pred_taken, bi, lp)

/-- The count as it was before the branch. -/
def squash (bi : BranchInfo) : LoopPredictor :=
  match bi.entry P with
  | some idx => lp.write idx { lp.ltable idx with currentIterSpec := bi.currentIter }
  | none => lp

/-- As `squash`. -/
def squashLoop (bi : BranchInfo) : LoopPredictor :=
  match bi.entry P with
  | some idx => lp.write idx { lp.ltable idx with currentIterSpec := bi.currentIter }
  | none => lp

end LoopPredictor

/-! ## Predictions and their squashes -/

/-- A prediction, and which of the two functions squashes it. -/
structure Prediction where
  branch_pc : Nat
  cond_branch : Bool
  prev_pred_taken : Bool
  instShiftAmt : Nat
  byLoop : Bool

namespace LoopPredictor

variable (P : LoopPredictorParams) (lp : LoopPredictor)

/-- The predictor and the record after a prediction. -/
def predict (p : Prediction) : BranchInfo × LoopPredictor :=
  (lp.loopPredict P p.branch_pc p.cond_branch {} p.prev_pred_taken p.instShiftAmt).2

/-- The predictor and the records after some predictions, the youngest first. -/
def predictAll : List Prediction → LoopPredictor → List (Prediction × BranchInfo) →
    List (Prediction × BranchInfo) × LoopPredictor
  | [], lp, infos => (infos, lp)
  | p :: ps, lp, infos =>
    let x := lp.predict P p
    predictAll ps x.2 ((p, x.1) :: infos)

/-- The predictions are squashed in turn. -/
def squashAll (infos : List (Prediction × BranchInfo)) : LoopPredictor :=
  infos.foldl (fun lp x => if x.1.byLoop then lp.squashLoop P x.2 else lp.squash P x.2) lp

/-- The speculative count of an entry. -/
def spec (idx : Nat) : Nat := (lp.ltable idx).currentIterSpec

/-- The entry a prediction is recorded for: the one that is hit, or the first of the table where the
    branch is not conditional. -/
def recorded (p : Prediction) : Option Nat :=
  if p.cond_branch then
    (lp.findWay P p.branch_pc p.instShiftAmt).map fun i => P.place p.branch_pc p.instShiftAmt i
  else some 0

end LoopPredictor

/-! ## What is undone -/

section undone

variable {P : LoopPredictorParams} {lp lp' : LoopPredictor}

/-- Two tables with the same tags. -/
def SameTags (lp lp' : LoopPredictor) : Prop := ∀ idx, (lp'.ltable idx).tag = (lp.ltable idx).tag

theorem findWay_congr (h : SameTags lp lp') (pc instShiftAmt : Nat) :
    lp'.findWay P pc instShiftAmt = lp.findWay P pc instShiftAmt := by
  unfold LoopPredictor.findWay
  congr 1
  funext i
  rw [h]

theorem recorded_congr (h : SameTags lp lp') (p : Prediction) :
    lp'.recorded P p = lp.recorded P p := by
  unfold LoopPredictor.recorded
  rw [findWay_congr h]

/-- The record of a prediction names the entry, and has a count of zero. -/
theorem predict_info (P : LoopPredictorParams) (lp : LoopPredictor) (p : Prediction) :
    (lp.predict P p).1.entry P = lp.recorded P p ∧ (lp.predict P p).1.currentIter = 0 := by
  unfold LoopPredictor.predict LoopPredictor.loopPredict LoopPredictor.recorded
  by_cases hcond : p.cond_branch = true
  · rw [if_pos hcond, if_pos hcond]
    unfold LoopPredictor.getLoop
    dsimp only
    have hb : (if P.useHashing = true then P.loopIndexB p.branch_pc else 0) =
        P.loopIndexB p.branch_pc := by
      unfold LoopPredictorParams.loopIndexB
      split
      · rfl
      · rfl
    cases hway : lp.findWay P p.branch_pc p.instShiftAmt with
    | none => exact ⟨rfl, rfl⟩
    | some i =>
      refine ⟨?_, rfl⟩
      show (if (0 : Int) ≤ (i : Int) then some (P.finallindex _ _ (i : Int).toNat) else none) = _
      rw [if_pos (Int.natCast_nonneg i), Int.toNat_natCast, hb]
      rfl
  · rw [if_neg hcond, if_neg hcond]
    refine ⟨?_, rfl⟩
    show some (P.finallindex 0 0 0) = some 0
    unfold LoopPredictorParams.finallindex
    split
    · simp
    · rfl

theorem write_spec (lp : LoopPredictor) (idx : Nat) (e : LoopEntry) (i : Nat) :
    (lp.write idx e).spec i = if i = idx then e.currentIterSpec else lp.spec i := by
  unfold LoopPredictor.write LoopPredictor.spec
  by_cases hi : i = idx
  · subst hi
    simp
  · simp [hi]

theorem write_sameTags (lp : LoopPredictor) {idx : Nat} {e : LoopEntry}
    (htag : e.tag = (lp.ltable idx).tag) : SameTags lp (lp.write idx e) := by
  intro i
  show (Function.update lp.ltable idx e i).tag = _
  by_cases hi : i = idx
  · rw [hi, Function.update_self, htag]
  · rw [Function.update_of_ne hi]

/-- A prediction changes the count of the entry it is recorded for, if any. -/
theorem predict_frame (P : LoopPredictorParams) (lp : LoopPredictor) (p : Prediction) :
    SameTags lp (lp.predict P p).2 ∧
      ∀ i, lp.recorded P p ≠ some i → (lp.predict P p).2.spec i = lp.spec i := by
  have hinfo := (predict_info P lp p).1
  have hsame : SameTags lp lp := fun _ => rfl
  unfold LoopPredictor.predict LoopPredictor.loopPredict at hinfo ⊢
  by_cases hcond : p.cond_branch = true
  · rw [if_pos hcond] at hinfo ⊢
    dsimp only at hinfo ⊢
    by_cases hspec : P.useSpeculation = true
    · rw [if_pos hspec]
      unfold LoopPredictor.specLoopUpdate
      rw [hinfo]
      cases lp.recorded P p with
      | none => exact ⟨hsame, fun _ _ => rfl⟩
      | some idx =>
        refine ⟨write_sameTags lp rfl, fun i hi => ?_⟩
        rw [write_spec, if_neg fun h => hi (by rw [h])]
    · rw [if_neg hspec]
      exact ⟨hsame, fun _ _ => rfl⟩
  · rw [if_neg hcond]
    exact ⟨hsame, fun _ _ => rfl⟩

/-- A squash writes the count of the record. -/
theorem squash_spec (lp : LoopPredictor) (bi : BranchInfo) (byLoop : Bool) (i : Nat) :
    (if byLoop then lp.squashLoop P bi else lp.squash P bi).spec i =
      if bi.entry P = some i then bi.currentIter else lp.spec i := by
  have hboth : (if byLoop then lp.squashLoop P bi else lp.squash P bi) = lp.squash P bi := by
    cases byLoop
    · rfl
    · rfl
  rw [hboth]
  unfold LoopPredictor.squash
  cases bi.entry P with
  | none => rfl
  | some idx =>
    rw [write_spec]
    by_cases hi : i = idx
    · rw [if_pos hi, hi, if_pos rfl]
    · rw [if_neg hi, if_neg fun h => hi (Option.some.inj h).symm]

/-- The squashes leave a count of zero in the entries of the records, and the others as they are. -/
theorem squashAll_spec (infos : List (Prediction × BranchInfo)) (lp : LoopPredictor)
    (hzero : ∀ x ∈ infos, x.2.currentIter = 0) (i : Nat) : (lp.squashAll P infos).spec i =
      if ∃ x ∈ infos, x.2.entry P = some i then 0 else lp.spec i := by
  induction infos generalizing lp with
  | nil => simp [LoopPredictor.squashAll]
  | cons x infos ih =>
    show (LoopPredictor.squashAll P _ infos).spec i = _
    rw [ih _ fun y hy => hzero y (mem_cons_of_mem _ hy), squash_spec, hzero x mem_cons_self]
    by_cases hx : x.2.entry P = some i
    · rw [if_pos hx, ite_self, if_pos ⟨x, mem_cons_self, hx⟩]
    · rw [if_neg hx]
      simp only [mem_cons, exists_eq_or_imp, hx, false_or]

/-- The records of some predictions are those of the first table, and the entries that none is
    recorded for keep their counts. -/
theorem predictAll_spec (ps : List Prediction) (lp : LoopPredictor)
    (infos : List (Prediction × BranchInfo)) :
    (∀ i, (∃ x ∈ (LoopPredictor.predictAll P ps lp infos).1, x.2.entry P = some i) ↔
        (∃ p ∈ ps, lp.recorded P p = some i) ∨ ∃ x ∈ infos, x.2.entry P = some i) ∧
      ((∀ x ∈ infos, x.2.currentIter = 0) →
        ∀ x ∈ (LoopPredictor.predictAll P ps lp infos).1, x.2.currentIter = 0) ∧
      ∀ i, (∀ p ∈ ps, lp.recorded P p ≠ some i) →
        (LoopPredictor.predictAll P ps lp infos).2.spec i = lp.spec i := by
  induction ps generalizing lp infos with
  | nil => exact ⟨fun i => by simp [LoopPredictor.predictAll], fun h => h, fun _ _ => rfl⟩
  | cons p ps ih =>
    obtain ⟨hsame, hframe⟩ := predict_frame P lp p
    obtain ⟨hentry, hcount⟩ := predict_info P lp p
    obtain ⟨hrec, hzero, hspec⟩ := ih (lp.predict P p).2 ((p, (lp.predict P p).1) :: infos)
    have hcongr : ∀ q, (lp.predict P p).2.recorded P q = lp.recorded P q := recorded_congr hsame
    refine ⟨fun i => ?_, fun h => hzero ?_, fun i hi => ?_⟩
    · show (∃ x ∈ (LoopPredictor.predictAll P ps _ _).1, _) ↔ _
      rw [hrec i]
      simp only [hcongr, mem_cons, exists_eq_or_imp, hentry]
      rw [or_left_comm, ← or_assoc]
    · intro x hx
      rcases mem_cons.mp hx with rfl | hx
      · exact hcount
      · exact h x hx
    · show (LoopPredictor.predictAll P ps _ _).2.spec i = _
      rw [hspec i fun q hq => by rw [hcongr]; exact hi q (mem_cons_of_mem _ hq)]
      exact hframe i (hi p mem_cons_self)

/-- For every predictor and all predictions, once they are squashed the speculative counts are what
    they were just when the entries they were recorded for had a count of zero. -/
theorem spec_restored_iff (P : LoopPredictorParams) (lp : LoopPredictor) (ps : List Prediction) :
    (∀ i, ((LoopPredictor.predictAll P ps lp []).2.squashAll P
        (LoopPredictor.predictAll P ps lp []).1).spec i = lp.spec i) ↔
      ∀ p ∈ ps, ∀ i, lp.recorded P p = some i → lp.spec i = 0 := by
  obtain ⟨hrec, hzero, hspec⟩ := predictAll_spec (P := P) ps lp []
  have hzero := hzero fun _ h => nomatch h
  have hafter : ∀ i, ((LoopPredictor.predictAll P ps lp []).2.squashAll P
      (LoopPredictor.predictAll P ps lp []).1).spec i =
      if ∃ p ∈ ps, lp.recorded P p = some i then 0 else lp.spec i := by
    intro i
    rw [squashAll_spec _ _ hzero]
    have hiff : (∃ x ∈ (LoopPredictor.predictAll P ps lp []).1, x.2.entry P = some i) ↔
        ∃ p ∈ ps, lp.recorded P p = some i := by simpa using hrec i
    by_cases hex : ∃ p ∈ ps, lp.recorded P p = some i
    · rw [if_pos (hiff.mpr hex), if_pos hex]
    · rw [if_neg fun h => hex (hiff.mp h), if_neg hex]
      exact hspec i fun p hp h => hex ⟨p, hp, h⟩
  constructor
  · intro h p hp i hi
    have := h i
    rw [hafter, if_pos ⟨p, hp, hi⟩] at this
    exact this.symm
  · intro h i
    rw [hafter]
    split
    · next hex =>
      obtain ⟨p, hp, hi⟩ := hex
      exact (h p hp i hi).symm
    · rfl

/-! ## A loop in flight -/

/-- A table with one way, where the branch at 0 has been seen three times. -/
def inFlight : LoopPredictor where
  ltable i := if i = 0 then { currentIterSpec := 3, numIter := 8, dir := true } else { tag := 1 }

/-- One entry. -/
def oneWay : LoopPredictorParams :=
  { logSizeLoopPred := 0, logLoopTableAssoc := 0, useSpeculation := true, useDirectionBit := true }

/-- The fourth is predicted and squashed, and the count of three is lost. -/
theorem count_lost : inFlight.spec 0 = 3 ∧
      (let x := LoopPredictor.predictAll oneWay [⟨0, true, true, 0, false⟩] inFlight []
       (x.2.spec 0, (x.2.squashAll oneWay x.1).spec 0)) = (4, 0) ∧
      ¬ ∀ i, ((LoopPredictor.predictAll oneWay [⟨0, true, true, 0, false⟩] inFlight []).2.squashAll
        oneWay (LoopPredictor.predictAll oneWay [⟨0, true, true, 0, false⟩] inFlight []).1).spec i =
          inFlight.spec i := by
  refine ⟨rfl, by decide, fun h => ?_⟩
  have := h 0
  revert this
  decide

end undone

end Gem5Dvr.LoopPred
