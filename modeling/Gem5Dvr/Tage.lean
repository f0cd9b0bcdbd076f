/-
  The histories of the TAGE predictor (`cpu/pred/tage_base.hh` 86-113, `cpu/pred/tage_base.cc`
  187-203, 318-337, 587-652, `cpu/pred/tage.cc` 57-133), under the calls of the branch prediction
  unit (`cpu/pred/bpred_unit.cc` 310-509).

    1. The functions of the source, for one thread.  The outcomes stand in a buffer that is filled
       downwards and rolls over; `gHist` is a place in it.  What the tables predict is given; an
       assertion that fails leaves no result.
    2. `Run`: the calls, with the branches that have committed, and `reference`, a predictor that
       saw the surviving branches alone, with their final directions.
    3. The crux (`Linked`): the branches in flight stand in consecutive slots of a ring of
       `histBufferSize - maxHist`, and while there are few of them no write meets the last
       `maxHist` outcomes before any of them.

  A plain squash deletes what it finds and restores nothing, so `NoneLost` asks that it finds none.
-/
import Gem5Dvr.Lib.Folding
import Gem5Dvr.Lib.Trace

namespace Gem5Dvr.Tage

/-- `gem5::Addr`. -/
abbrev Addr := Nat

/-! ## Folded histories -/

/-- A history folded to a few bits. -/
structure FoldedHistory where
  comp : Nat := 0
  compLength : Nat
  origLength : Nat
  outpoint : Nat
  deriving DecidableEq

namespace FoldedHistory

/-- All bits clear. -/
def init (original_length compressed_length : Nat) : FoldedHistory where
  compLength := compressed_length
  origLength := original_length
  outpoint := original_length % compressed_length

/-- `update`; `comp` is an `unsigned`. -/
def update (f : FoldedHistory) (h : Nat → Bool) : FoldedHistory :=
  let comp := (f.comp <<< 1) % 2 ^ 32 ||| (h 0).toNat
  let comp := comp ^^^ ((h f.origLength).toNat <<< f.outpoint)
  let comp := comp ^^^ (comp >>> f.compLength)
  { f with comp := comp &&& (2 ^ f.compLength - 1) }

end FoldedHistory

/-- What is given for one tagged table. -/
structure TableParams where
  histLength : Nat
  logTagTableSize : Nat
  tagTableTagWidth : Nat

/-- The parameters, with the assertion of `init` on the size of the buffer; a compressed length is
    a modulus and a shift of an `unsigned`. -/
structure Config where
  histBufferSize : Nat
  maxHist : Nat
  pathHistBits : Nat
  instShiftAmt : Nat
  speculativeHistUpdate : Bool
  tables : List TableParams
  room : maxHist * 2 < histBufferSize
  lengths : ∀ t ∈ tables, t.histLength ≤ maxHist
  widths : ∀ t ∈ tables, 0 < t.logTagTableSize ∧ t.logTagTableSize < 32 ∧
    1 < t.tagTableTagWidth ∧ t.tagTableTagWidth < 32

/-- The three folded histories of one table. -/
structure Table where
  computeIndices : FoldedHistory
  computeTags0 : FoldedHistory
  computeTags1 : FoldedHistory
  deriving DecidableEq

/-- Their values, as a branch keeps them. -/
structure Saved where
  ci : Nat
  ct0 : Nat
  ct1 : Nat

namespace Table

/-- The part of `initFoldedHistories` for one table. -/
def init (t : TableParams) : Table where
  computeIndices := .init t.histLength t.logTagTableSize
  computeTags0 := .init t.histLength t.tagTableTagWidth
  computeTags1 := .init t.histLength (t.tagTableTagWidth - 1)

/-- The three folded histories of a table. -/
def folds (t : Table) : List FoldedHistory := [t.computeIndices, t.computeTags0, t.computeTags1]

/-- Each with one bit more. -/
def update (h : Nat → Bool) (t : Table) : Table where
  computeIndices := t.computeIndices.update h
  computeTags0 := t.computeTags0.update h
  computeTags1 := t.computeTags1.update h

/-- What a branch keeps of them. -/
def save (t : Table) : Saved where
  ci := t.computeIndices.comp
  ct0 := t.computeTags0.comp
  ct1 := t.computeTags1.comp

/-- What it puts back. -/
def restore (t : Table) (s : Saved) : Table where
  computeIndices := { t.computeIndices with comp := s.ci }
  computeTags0 := { t.computeTags0 with comp := s.ct0 }
  computeTags1 := { t.computeTags1 with comp := s.ct1 }

end Table

/-! ## The histories of a thread -/

/-- What a branch needs to undo its bits. -/
structure BranchInfo where
  pathHist : Nat := 0
  ptGhist : Nat := 0
  saved : List Saved := []

/-- The history of a thread. -/
structure ThreadHistory where
  pathHist : Nat := 0
  globalHistory : Nat → Bool := fun _ => false
  gHist : Nat := 0
  ptGhist : Nat := 0
  tables : List Table

namespace ThreadHistory

variable (c : Config) (t : ThreadHistory)

/-- No branch yet. -/
def init : ThreadHistory where
  tables := c.tables.map Table.init

/-- The outcomes from `gHist` on. -/
def bits (i : Nat) : Bool := t.globalHistory (t.gHist + i)

/-- `tab[histBufferSize - maxHist + i] = tab[i]`, for `i` from zero. -/
def rollOver (tab : Nat → Bool) : Nat → Bool := (List.range c.maxHist).foldl
    (fun tab i => Function.update tab (c.histBufferSize - c.maxHist + i) (tab i)) tab

/-- One bit more; at the end the buffer is moved back. -/
def updateGHist (dir : Bool) : ThreadHistory :=
  let t := if t.ptGhist = 0 then
    { t with
      globalHistory := rollOver c t.globalHistory
      ptGhist := c.histBufferSize - c.maxHist
      gHist := c.histBufferSize - c.maxHist }
    else t
  { t with
    ptGhist := t.ptGhist - 1
    gHist := t.gHist - 1
    globalHistory := Function.update t.globalHistory (t.gHist - 1) dir }

/-- The path, one branch further. -/
def nextPath (pathHist : Nat) (branch_pc : Addr) : Nat :=
  ((pathHist <<< 1) + (branch_pc >>> c.instShiftAmt) % 2) &&& (2 ^ c.pathHistBits - 1)

/-- The bits of a branch. -/
def updateHistories (branch_pc : Addr) (taken : Bool) (bi : BranchInfo) (speculative : Bool) :
    Option (BranchInfo × ThreadHistory) :=
  if speculative ≠ c.speculativeHistUpdate then some (bi, t)
  else
    let t := t.updateGHist c taken
    let t := { t with pathHist := nextPath c t.pathHist branch_pc }
    let bi := if speculative then
      { pathHist := t.pathHist, ptGhist := t.ptGhist, saved := t.tables.map Table.save } else bi
    let t := { t with tables := t.tables.map (Table.update t.bits) }
    if t.gHist = t.ptGhist then some (bi, t) else none

/-- The folded histories of a branch, taken up again. -/
def refold (bi : BranchInfo) : ThreadHistory :=
  { t with tables := (List.zipWith Table.restore t.tables bi.saved).map (Table.update t.bits) }

/-- `squash`, with the direction corrected. -/
def squash (taken : Bool) (bi : BranchInfo) : ThreadHistory :=
  if c.speculativeHistUpdate = true then
    { t with
      pathHist := bi.pathHist
      ptGhist := bi.ptGhist
      gHist := bi.ptGhist
      globalHistory := Function.update t.globalHistory bi.ptGhist taken : ThreadHistory }.refold bi
  else t

/-- `btbUpdate`: a BTB miss resets the prediction. -/
def btbUpdate (bi : BranchInfo) : Option ThreadHistory :=
  if c.speculativeHistUpdate = true then
    if t.gHist = t.ptGhist then
      some ({ t with
        globalHistory := Function.update t.globalHistory t.gHist false : ThreadHistory }.refold bi)
    else none
  else some t

end ThreadHistory

/-! ## Runs -/

/-- A branch, and the direction it has in the end. -/
structure Branch where
  pc : Addr
  taken : Bool
  deriving DecidableEq

/-- An entry of the unit's history; `predTaken` is the direction last told to the predictor. -/
structure PredictorHistory where
  seqNum : Nat
  pc : Addr
  predTaken : Bool
  bpHistory : BranchInfo

/-- The branch of a record. -/
def PredictorHistory.branch (h : PredictorHistory) : Branch := { pc := h.pc, taken := h.predTaken }

/-- The histories, and the branches in flight. -/
structure Run where
  tHist : ThreadHistory
  /-- The branches in flight, the youngest first. -/
  predHist : List PredictorHistory := []
  committed : List Branch := []

/-- The calls. -/
inductive Event
  | lookup (seqNum : Nat) (branch_pc : Addr) (retval btbMiss : Bool)
  | uncondBranch (seqNum : Nat) (br_pc : Addr) (btbMiss : Bool)
  | update (done_sn : Nat)
  | squash (squashed_sn : Nat)
  | squashMispredict (squashed_sn : Nat) (actually_taken : Bool)
  deriving DecidableEq

/-- The entries that `BPredUnit::update` commits, the oldest first. -/
def updateLoop (c : Config) (done_sn : Nat) :
    List PredictorHistory → ThreadHistory → Option (List PredictorHistory × ThreadHistory)
  | [], t => some ([], t)
  | h :: rest, t =>
    if h.seqNum ≤ done_sn then
      (t.updateHistories c h.pc h.predTaken h.bpHistory false).bind fun x =>
        updateLoop c done_sn rest x.2
    else some (h :: rest, t)

namespace Run

variable (c : Config) (r : Run)

/-- Before the first call. -/
def init : Run where
  tHist := ThreadHistory.init c

/-- `lookup` and `uncondBranch`, with the correction of a BTB miss right after. -/
def predict (seqNum : Nat) (pc : Addr) (taken btbMiss : Bool) : Option Run :=
  (r.tHist.updateHistories c pc taken {} true).bind fun x =>
    (if btbMiss = true then x.2.btbUpdate c x.1 else some x.2).map fun t =>
      { r with
        tHist := t
        predHist := { seqNum := seqNum, pc := pc, predTaken := taken && !btbMiss,
                      bpHistory := x.1 } :: r.predHist }

/-- The entries that are not younger. -/
def older (squashed_sn : Nat) : List PredictorHistory :=
  r.predHist.dropWhile fun h => h.seqNum > squashed_sn

/-- A call. -/
def step : Event → Option Run
  | .lookup seqNum branch_pc retval btbMiss => r.predict c seqNum branch_pc retval btbMiss
  | .uncondBranch seqNum br_pc btbMiss => r.predict c seqNum br_pc true btbMiss
  | .update done_sn =>
    (updateLoop c done_sn r.predHist.reverse r.tHist).map fun x =>
      { tHist := x.2
        predHist := x.1.reverse
        committed := (r.predHist.drop x.1.length).map PredictorHistory.branch ++ r.committed }
  | .squash squashed_sn =>
    -- what is younger is deleted
    some { r with predHist := r.older squashed_sn }
  | .squashMispredict squashed_sn actually_taken =>
    match r.older squashed_sn with
    | [] => some { r with predHist := [] }
    | h :: rest =>
      if h.seqNum = squashed_sn then
        some { r with
          tHist := r.tHist.squash c actually_taken h.bpHistory
          predHist := { h with predTaken := actually_taken } :: rest }
      else none

/-- The surviving branches, the youngest first. -/
def survivors : List Branch := r.predHist.map PredictorHistory.branch ++ r.committed

/-- A predictor that saw only some branches, the youngest first. -/
def saw : List Branch → Option ThreadHistory
  | [] => some (ThreadHistory.init c)
  | b :: bs => (saw bs).bind fun t => (t.updateHistories c b.pc b.taken {} true).map Prod.snd

/-- A predictor that saw only the surviving branches. -/
def reference : Option ThreadHistory := saw c r.survivors

/-- Few branches are in flight. -/
def Few : Event → Prop
  | .lookup .. => r.predHist.length + 1 < c.histBufferSize - 2 * c.maxHist
  | .uncondBranch .. => r.predHist.length + 1 < c.histBufferSize - 2 * c.maxHist
  | _ => True

/-- No branch is squashed but above one that is corrected. -/
def NoneLost : Event → Prop
  | .squash squashed_sn => (r.older squashed_sn).length = r.predHist.length
  | .squashMispredict squashed_sn _ =>
    (r.older squashed_sn).length = 0 → r.predHist.length = 0
  | _ => True

instance : ∀ e, Decidable (r.Few c e)
  | .lookup .. => by unfold Few; infer_instance
  | .uncondBranch .. => by unfold Few; infer_instance
  | .update _ => isTrue trivial
  | .squash _ => isTrue trivial
  | .squashMispredict .. => isTrue trivial

instance : ∀ e, Decidable (r.NoneLost e)
  | .lookup .. => isTrue trivial
  | .uncondBranch .. => isTrue trivial
  | .update _ => isTrue trivial
  | .squash _ => by unfold NoneLost; infer_instance
  | .squashMispredict .. => by unfold NoneLost; infer_instance

end Run

end Gem5Dvr.Tage
