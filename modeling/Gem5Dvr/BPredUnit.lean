/-
  The branch prediction unit, as it works on the return address stack
  (`cpu/pred/bpred_unit.cc` 130-509).

    1. The functions of the source, for one thread.  What the tables answer (the direction, whether
       the BTB or the indirect predictor has a target) is given; an assertion that fails leaves no
       result.
    2. `Run`: the calls, with the branches that survive and their final directions, and `reference`,
       the stack of a run of those alone.
    3. The crux (`Linked`): a history entry takes the stack of the older survivors to its own, and
       holds what undoes that step.  It does not for a return that was corrected to taken, nor is a
       call pushed that is corrected to taken: `Repairable` leaves these out.
-/
import Mathlib
import Gem5Dvr.Lib.Trace
import Gem5Dvr.ReturnAddrStack

namespace Gem5Dvr.BPred

open List

open ReturnAddrStack (Rep SameLive)

/-! ## The unit -/

structure StaticInst where
  isUncondCtrl : Bool := false
  isReturn : Bool := false
  isCall : Bool := false
  isDirectCtrl : Bool := false
  deriving DecidableEq, Repr

structure PredictorHistory where
  seqNum : Nat
  pc : Addr
  inst : StaticInst
  predTaken : Bool
  RASTarget : Option Addr := none
  RASIndex : Nat := 0
  usedRAS : Bool := false
  pushedRAS : Bool := false
  wasCall : Bool := false
  wasReturn : Bool := false
  wasIndirect : Bool := false

structure BPredUnit where
  predHist : List PredictorHistory := []
  RAS : ReturnAddrStack
  /-- There is an indirect predictor. -/
  iPred : Bool := true

namespace BPredUnit

variable (u : BPredUnit)

/-- `predict`: the prediction of the direction, and whether the table that is asked for the target
    has one. -/
def predict (inst : StaticInst) (seqNum : Nat) (pc : Addr) (lookup hit : Bool) : BPredUnit × Bool :=
  let pred_taken := inst.isUncondCtrl || lookup
  let record : PredictorHistory :=
    { seqNum := seqNum, pc := pc, inst := inst, predTaken := pred_taken }
  if pred_taken = true then
    if inst.isReturn = true then
      ({ u with
        predHist := { record with
          wasReturn := true
          usedRAS := true
          RASIndex := u.RAS.tos
          RASTarget := u.RAS.top } :: u.predHist
        RAS := u.RAS.pop }, true)
    else
      let RAS := if inst.isCall then u.RAS.push pc else u.RAS
      let record := { record with
        pushedRAS := inst.isCall
        wasCall := inst.isCall
        wasIndirect := !(inst.isDirectCtrl || !u.iPred) }
      if hit = true then ({ u with predHist := record :: u.predHist, RAS := RAS }, true)
      else
        -- no target: predicted not taken after all
        let record := { record with predTaken := false }
        if inst.isCall = true ∧ inst.isUncondCtrl = false then
          ({ u with
            predHist := { record with pushedRAS := false } :: u.predHist
            RAS := RAS.pop }, false)
        else ({ u with predHist := record :: u.predHist, RAS := RAS }, false)
  else
    ({ u with predHist := { record with wasReturn := inst.isReturn } :: u.predHist }, false)

/-- `update`, up to a sequence number: what is left of the history. -/
def update (done_sn : Nat) : BPredUnit :=
  { u with predHist := (u.predHist.reverse.dropWhile fun h => h.seqNum ≤ done_sn).reverse }

/-- The stack without the step of a history entry. -/
def undo (h : PredictorHistory) (RAS : ReturnAddrStack) : ReturnAddrStack :=
  if h.usedRAS = true then RAS.restore h.RASIndex h.RASTarget
  else if h.wasCall = true ∧ h.pushedRAS = true then RAS.pop
  else RAS

/-- The loop of `squash`. -/
def squashLoop (squashed_sn : Nat) :
    List PredictorHistory → ReturnAddrStack → List PredictorHistory × ReturnAddrStack
  | [], RAS => ([], RAS)
  | h :: rest, RAS =>
    if h.seqNum > squashed_sn then squashLoop squashed_sn rest (undo h RAS) else (h :: rest, RAS)

/-- `squash` of what is younger. -/
def squash (squashed_sn : Nat) : BPredUnit :=
  let x := squashLoop squashed_sn u.predHist u.RAS
  { u with predHist := x.1, RAS := x.2 }

/-- The entry of the mispredicted branch, and the stack, with the direction corrected. -/
def correct (h : PredictorHistory) (actually_taken : Bool) (RAS : ReturnAddrStack) :
    PredictorHistory × ReturnAddrStack :=
  let hist := { h with predTaken := actually_taken }
  if actually_taken = true then
    if hist.wasReturn = true ∧ hist.usedRAS = false then ({ hist with usedRAS := true }, RAS.pop)
    else (hist, RAS)
  else if hist.usedRAS = true then
    ({ hist with usedRAS := false }, RAS.restore hist.RASIndex hist.RASTarget)
  else if hist.wasCall = true ∧ hist.pushedRAS = true then
    ({ hist with pushedRAS := false }, RAS.pop)
  else (hist, RAS)

/-- `squash` of a mispredicted branch. -/
def squashMispredict (squashed_sn : Nat) (actually_taken : Bool) : Option BPredUnit :=
  let u := u.squash squashed_sn
  match u.predHist with
  | [] => some u
  | h :: rest =>
    if h.seqNum = squashed_sn then
      let x := correct h actually_taken u.RAS
      some { u with predHist := x.1 :: rest, RAS := x.2 }
    else none

end BPredUnit

/-! ## Runs -/

/-- A branch, and the direction it has in the end. -/
structure Branch where
  inst : StaticInst
  pc : Addr
  taken : Bool
  deriving DecidableEq, Repr

/-- A return that is taken pops, a call that is taken pushes. -/
def Branch.process (b : Branch) (RAS : ReturnAddrStack) : ReturnAddrStack :=
  if b.taken = true then
    if b.inst.isReturn = true then RAS.pop else if b.inst.isCall = true then RAS.push b.pc else RAS
  else RAS

structure Run where
  unit : BPredUnit
  /-- The branches of the history, the youngest first. -/
  flight : List Branch := []
  committed : List Branch := []

inductive Event
  | predict (inst : StaticInst) (seqNum : Nat) (pc : Addr) (lookup hit : Bool)
  | update (done_sn : Nat)
  | squash (squashed_sn : Nat)
  | squashMispredict (squashed_sn : Nat) (actually_taken : Bool)
  deriving DecidableEq, Repr

namespace Run

variable (r : Run)

def init (numEntries : Nat) (iPred : Bool) : Run where
  unit := { RAS := { numEntries := numEntries }, iPred := iPred }

/-- The branches that are in the history. -/
def keep (n : Nat) : List Branch := r.flight.drop (r.flight.length - n)

/-- The first branch of a history has another direction. -/
def redirect (actually_taken : Bool) : List Branch → List Branch
  | [] => []
  | b :: bs => { b with taken := actually_taken } :: bs

def step : Event → Option Run
  | .predict inst seqNum pc lookup hit =>
    let x := r.unit.predict inst seqNum pc lookup hit
    some { r with
      unit := x.1
      flight := { inst := inst, pc := pc, taken := inst.isUncondCtrl || x.2 } :: r.flight }
  | .update done_sn =>
    let u := r.unit.update done_sn
    let n := u.predHist.length
    some { unit := u, flight := r.flight.take n, committed := r.flight.drop n ++ r.committed }
  | .squash squashed_sn =>
    let u := r.unit.squash squashed_sn
    some { r with unit := u, flight := r.keep u.predHist.length }
  | .squashMispredict squashed_sn actually_taken =>
    (r.unit.squashMispredict squashed_sn actually_taken).map fun u =>
      { r with unit := u, flight := redirect actually_taken (r.keep u.predHist.length) }

/-- The stack of a run of the surviving branches alone. -/
def reference : ReturnAddrStack :=
  (r.flight ++ r.committed).foldr Branch.process { numEntries := r.unit.RAS.numEntries }

/-- The number of live entries stays between none and the size: a call that is predicted taken finds
    room, and a return that is predicted or corrected to taken finds an entry. -/
def Bounded : Event → Prop
  | .predict inst _ _ lookup _ => (inst.isUncondCtrl || lookup) = true →
    (inst.isReturn = true → r.unit.RAS.usedEntries ≠ 0) ∧
      (inst.isReturn = false → inst.isCall = true → r.unit.RAS.usedEntries < r.unit.RAS.numEntries)
  | .update _ => True
  | .squash _ => True
  | .squashMispredict squashed_sn actually_taken =>
    ∀ h ∈ (r.unit.squash squashed_sn).predHist.head?, actually_taken = true →
      h.wasReturn = true → h.usedRAS = false → (r.unit.squash squashed_sn).RAS.usedEntries ≠ 0

instance : ∀ e, Decidable (r.Bounded e)
  | .predict .. => by unfold Bounded; infer_instance
  | .update _ => isTrue trivial
  | .squash _ => isTrue trivial
  | .squashMispredict .. => by unfold Bounded; infer_instance

/-- What an entry holds undoes its step. -/
def Recorded (h : PredictorHistory) : Prop := h.usedRAS = true → h.RASTarget ≠ none

instance : DecidablePred Recorded := fun h =>
  inferInstanceAs (Decidable (h.usedRAS = true → h.RASTarget ≠ none))

/-- What is undone was recorded, and a call that is corrected to taken had been pushed. -/
def Repairable : Event → Prop
  | .predict .. => True
  | .update _ => True
  | .squash squashed_sn =>
    ∀ h ∈ r.unit.predHist.takeWhile fun h => h.seqNum > squashed_sn, Recorded h
  | .squashMispredict squashed_sn actually_taken =>
    (∀ h ∈ r.unit.predHist.takeWhile fun h => h.seqNum > squashed_sn, Recorded h) ∧
      ∀ h ∈ (r.unit.predHist.dropWhile fun h => h.seqNum > squashed_sn).head?,
        (actually_taken = false → Recorded h) ∧
          (actually_taken = true → h.inst.isCall = true → h.inst.isReturn = false →
            h.wasCall = true ∧ h.pushedRAS = true)

instance : ∀ e, Decidable (r.Repairable e)
  | .predict .. => isTrue trivial
  | .update _ => isTrue trivial
  | .squash _ => by unfold Repairable; infer_instance
  | .squashMispredict .. => by unfold Repairable; infer_instance

end Run

/-! ## The steps of branches -/

/-- The list of calls after a branch, within the bounds. -/
def Branch.effect (n : Nat) (b : Branch) (s : List Addr) : Option (List Addr) :=
  if b.taken = true then
    if b.inst.isReturn = true then
      match s with
      | [] => none
      | _ :: s => some s
    else if b.inst.isCall = true then if s.length < n then some (b.pc :: s) else none
    else some s
  else some s

/-- The list of calls after branches, the youngest first. -/
def stackOf (n : Nat) : List Branch → Option (List Addr)
  | [] => some []
  | b :: bs => (stackOf n bs).bind (b.effect n)

variable {n : Nat} {b : Branch} {s s₀ base : List Addr} {h : PredictorHistory}
  {ras : ReturnAddrStack}

/-- A branch works on the stack as on the list. -/
theorem rep_process (hr : Rep ras s₀) (hn : ras.numEntries = n) (he : b.effect n s₀ = some s) :
    Rep (b.process ras) s := by
  unfold Branch.effect at he
  unfold Branch.process
  split at he
  · rename_i ht
    rw [if_pos ht]
    split at he
    · rename_i hret
      rw [if_pos hret]
      match s₀ with
      | [] => cases he
      | a :: s₁ =>
        cases he
        exact hr.pop
    · rename_i hret
      rw [if_neg hret]
      split at he
      · rename_i hcall
        rw [if_pos hcall]
        split at he
        · rename_i hlt
          cases he
          exact hr.push (hn ▸ hlt) b.pc
        · cases he
      · rename_i hcall
        rw [if_neg hcall]
        cases he
        exact hr
  · rename_i ht
    rw [if_neg ht]
    cases he
    exact hr

theorem process_numEntries (b : Branch) (ras : ReturnAddrStack) :
    (b.process ras).numEntries = ras.numEntries := by
  unfold Branch.process
  split
  · split
    · rfl
    · split
      · rfl
      · rfl
  · rfl

theorem foldr_numEntries (ras : ReturnAddrStack) : ∀ bs : List Branch,
    (bs.foldr Branch.process ras).numEntries = ras.numEntries := by
  intro bs
  induction bs with
  | nil => rfl
  | cons b bs ih => exact (process_numEntries b _).trans ih

/-- The stack of a run of branches stands for their list. -/
theorem rep_foldr (hn : 0 < n) : ∀ {bs : List Branch} {s : List Addr}, stackOf n bs = some s →
    Rep (bs.foldr Branch.process { numEntries := n }) s := by
  intro bs
  induction bs with
  | nil =>
    intro s hs
    cases hs
    exact ⟨hn, Nat.zero_le n, rfl, (Nat.zero_mod n).symm, trivial⟩
  | cons b bs ih =>
    intro s hs
    obtain ⟨s₀, hs₀, he⟩ := Option.bind_eq_some_iff.mp hs
    exact rep_process (ih hs₀) (foldr_numEntries _ bs) he

/-! ## The history -/

/-- What a history entry says of its branch, and of the list before it. -/
structure Matches (n : Nat) (h : PredictorHistory) (b : Branch) (s₀ : List Addr) : Prop where
  inst : h.inst = b.inst
  wasReturn : h.wasReturn = b.inst.isReturn
  used : h.usedRAS = true ↔ b.taken = true ∧ b.inst.isReturn = true
  pushed : h.wasCall = true ∧ h.pushedRAS = true ↔
    b.taken = true ∧ b.inst.isReturn = false ∧ b.inst.isCall = true
  record : h.RASTarget ≠ none →
    ∃ a s, s₀ = a :: s ∧ h.RASIndex = s₀.length % n ∧ h.RASTarget = some a
  room : s₀.length ≤ n

/-- The history entries take the list of the committed branches, `base`, to the present one. -/
def Linked (n : Nat) (base : List Addr) : List PredictorHistory → List Branch → List Addr → Prop
  | [], [], s => s = base
  | h :: hs, b :: bs, s =>
    ∃ s₀, Linked n base hs bs s₀ ∧ b.effect n s₀ = some s ∧ Matches n h b s₀
  | _, _, _ => False

variable {hs hs' : List PredictorHistory} {bs cs : List Branch}

theorem Linked.length_eq : ∀ {hs : List PredictorHistory} {bs : List Branch} {s : List Addr},
    Linked n base hs bs s → hs.length = bs.length := by
  intro hs
  induction hs with
  | nil =>
    intro bs s h
    cases bs with
    | nil => rfl
    | cons b bs => exact h.elim
  | cons h hs ih =>
    intro bs s hl
    cases bs with
    | nil => exact hl.elim
    | cons b bs =>
      obtain ⟨s₀, hl, -⟩ := hl
      exact congrArg (· + 1) (ih hl)

theorem Linked.stackOf_eq : ∀ {hs : List PredictorHistory} {bs : List Branch} {s : List Addr},
    Linked n base hs bs s → stackOf n cs = some base → stackOf n (bs ++ cs) = some s := by
  intro hs
  induction hs with
  | nil =>
    intro bs s h hc
    cases bs with
    | nil => rw [nil_append, hc, show s = base from h]
    | cons b bs => exact h.elim
  | cons h hs ih =>
    intro bs s hl hc
    cases bs with
    | nil => exact hl.elim
    | cons b bs =>
      obtain ⟨s₀, hl, he, -⟩ := hl
      show (stackOf n (bs ++ cs)).bind _ = _
      rw [ih hl hc]
      exact he

/-- A history cut in two. -/
theorem Linked.split : ∀ {hs : List PredictorHistory} {bs : List Branch} {s : List Addr},
    Linked n base (hs ++ hs') bs s → ∃ mid, Linked n base hs' (bs.drop hs.length) mid ∧
        Linked n mid hs (bs.take hs.length) s := by
  intro hs
  induction hs with
  | nil => exact fun h => ⟨_, h, rfl⟩
  | cons h hs ih =>
    intro bs s hl
    cases bs with
    | nil => exact hl.elim
    | cons b bs =>
      obtain ⟨s₀, hl, hrest⟩ := hl
      obtain ⟨mid, hold, hnew⟩ := ih hl
      exact ⟨mid, hold, s₀, hnew, hrest⟩

/-- An entry that is recorded undoes its step. -/
theorem rep_undo (hr : Rep ras s) (hn : ras.numEntries = n) (he : b.effect n s₀ = some s)
    (hm : Matches n h b s₀) (hrec : Run.Recorded h) : Rep (BPredUnit.undo h ras) s₀ := by
  unfold Branch.effect at he
  unfold BPredUnit.undo
  by_cases hused : h.usedRAS = true
  · rw [if_pos hused]
    obtain ⟨ht, hret⟩ := hm.used.mp hused
    rw [if_pos ht, if_pos hret] at he
    obtain ⟨a, s₁, rfl, hidx, htarget⟩ := hm.record (hrec hused)
    cases he
    rw [hidx, htarget, ← hn]
    have hroom := hm.room
    rw [length_cons] at hroom
    exact hr.restore (by omega) a
  · rw [if_neg hused]
    by_cases hpushed : h.wasCall = true ∧ h.pushedRAS = true
    · rw [if_pos hpushed]
      obtain ⟨ht, hret, hcall⟩ := hm.pushed.mp hpushed
      rw [if_pos ht, if_neg (by rw [hret]; exact Bool.false_ne_true), if_pos hcall] at he
      split at he
      · cases he
        exact hr.pop
      · cases he
    · rw [if_neg hpushed]
      have hsame : s = s₀ := by
        split at he
        · rename_i ht
          split at he
          · rename_i hret
            exact absurd (hm.used.mpr ⟨ht, hret⟩) hused
          · rename_i hret
            split at he
            · rename_i hcall
              exact absurd (hm.pushed.mpr ⟨ht, Bool.eq_false_iff.mpr hret, hcall⟩) hpushed
            · exact (Option.some.inj he).symm
        · exact (Option.some.inj he).symm
      rw [← hsame]
      exact hr

theorem undo_numEntries (h : PredictorHistory) (ras : ReturnAddrStack) :
    (BPredUnit.undo h ras).numEntries = ras.numEntries := by
  unfold BPredUnit.undo
  split
  · rfl
  · split
    · rfl
    · rfl

variable {sn : Nat} {r' : Run}

/-- The loop of `squash`, over entries that are recorded. -/
theorem squashLoop_spec : ∀ {hs : List PredictorHistory} {bs : List Branch}
    {s : List Addr} {ras : ReturnAddrStack}, Linked n base hs bs s → Rep ras s →
    ras.numEntries = n → (∀ h ∈ hs.takeWhile fun h => h.seqNum > sn, Run.Recorded h) →
    (BPredUnit.squashLoop sn hs ras).1 = hs.dropWhile (fun h => h.seqNum > sn) ∧
      (BPredUnit.squashLoop sn hs ras).2.numEntries = n ∧
      ∃ s', Rep (BPredUnit.squashLoop sn hs ras).2 s' ∧
        Linked n base (hs.dropWhile fun h => h.seqNum > sn)
          (bs.drop (bs.length - (hs.dropWhile fun h => h.seqNum > sn).length)) s' := by
  intro hs
  induction hs with
  | nil =>
    intro bs s ras hl hr hn _
    refine ⟨rfl, hn, s, hr, ?_⟩
    cases bs with
    | nil => exact hl
    | cons b bs => exact hl.elim
  | cons h hs ih =>
    intro bs s ras hl hr hn hrec
    rw [BPredUnit.squashLoop]
    by_cases hgt : h.seqNum > sn
    · rw [if_pos hgt, dropWhile_cons_of_pos (by simpa using hgt)]
      rw [takeWhile_cons_of_pos (by simpa using hgt)] at hrec
      cases bs with
      | nil => exact hl.elim
      | cons b bs =>
        obtain ⟨s₀, hl, he, hm⟩ := hl
        have hundo := rep_undo hr hn he hm (hrec h mem_cons_self)
        obtain ⟨hhist, hnum, s', hr', hl'⟩ := ih hl hundo ((undo_numEntries h ras).trans hn)
          fun x hx => hrec x (mem_cons_of_mem h hx)
        refine ⟨hhist, hnum, s', hr', ?_⟩
        have hlen := hl.length_eq
        have hle : (hs.dropWhile fun h => decide (h.seqNum > sn)).length ≤ hs.length :=
          (dropWhile_sublist _).length_le
        rw [length_cons, show bs.length + 1 -
            (hs.dropWhile fun h => decide (h.seqNum > sn)).length =
          bs.length - (hs.dropWhile fun h => decide (h.seqNum > sn)).length + 1 by omega,
          drop_succ_cons]
        exact hl'
    · rw [if_neg hgt, dropWhile_cons_of_neg (by simpa using hgt)]
      refine ⟨rfl, hn, s, hr, ?_⟩
      rw [hl.length_eq, Nat.sub_self, drop_zero]
      exact hl

/-! ## The invariant -/

/-- The stack stands for the list of the surviving branches. -/
def Inv (n : Nat) (r : Run) : Prop :=
  ∃ base s, stackOf n r.committed = some base ∧ Linked n base r.unit.predHist r.flight s ∧
    Rep r.unit.RAS s ∧ r.unit.RAS.numEntries = n

variable {r : Run}

theorem inv_init (hn : 0 < n) (iPred : Bool) : Inv n (Run.init n iPred) :=
  ⟨[], [], rfl, rfl, ⟨hn, Nat.zero_le n, rfl, (Nat.zero_mod n).symm, trivial⟩, rfl⟩

/-- A stack that is so kept is that of the surviving branches alone. -/
theorem Inv.sameLive (h : Inv n r) : SameLive r.unit.RAS r.reference := by
  obtain ⟨base, s, hbase, hl, hr, hn⟩ := h
  have hpos : 0 < n := hn ▸ hr.pos
  refine hr.sameLive (s := r.reference) ?_ ?_
  · rw [Run.reference, hn]
    exact rep_foldr hpos (hl.stackOf_eq hbase)
  · exact (foldr_numEntries { numEntries := r.unit.RAS.numEntries } _).symm

/-- One prediction: the list of calls is followed, and the entry matches. -/
theorem predict_spec {u : BPredUnit} (inst : StaticInst) (seqNum : Nat) (pc : Addr)
    (lookup hit : Bool) (hr : Rep u.RAS s) (hn : u.RAS.numEntries = n)
    (hbound : (inst.isUncondCtrl || lookup) = true →
      (inst.isReturn = true → u.RAS.usedEntries ≠ 0) ∧
        (inst.isReturn = false → inst.isCall = true → u.RAS.usedEntries < u.RAS.numEntries)) :
    ∃ h s', (u.predict inst seqNum pc lookup hit).1.predHist = h :: u.predHist ∧
      Branch.effect n ⟨inst, pc, inst.isUncondCtrl || (u.predict inst seqNum pc lookup hit).2⟩ s =
        some s' ∧
      Matches n h ⟨inst, pc, inst.isUncondCtrl || (u.predict inst seqNum pc lookup hit).2⟩ s ∧
      Rep (u.predict inst seqNum pc lookup hit).1.RAS s' ∧
      (u.predict inst seqNum pc lookup hit).1.RAS.numEntries = n := by
  have hroom : s.length ≤ n := hn ▸ hr.room
  unfold BPredUnit.predict
  by_cases htaken : (inst.isUncondCtrl || lookup) = true
  · obtain ⟨hempty, hfull⟩ := hbound htaken
    simp only [if_pos htaken]
    by_cases hret : inst.isReturn = true
    · -- the top is what is popped
      simp only [if_pos hret, Bool.or_true]
      match s with
      | [] => exact absurd hr.used (hempty hret)
      | a :: s₁ =>
        obtain ⟨htop, htos⟩ := hr.top
        refine ⟨_, s₁, rfl, ?_, ⟨rfl, hret.symm, ?_, ?_, ?_, hroom⟩, hr.pop, hn⟩
        · simp [Branch.effect, hret]
        · simp [hret]
        · simp [hret]
        · exact fun _ => ⟨a, s₁, rfl, hn ▸ htos, htop⟩
    · simp only [if_neg hret]
      have hret' : inst.isReturn = false := Bool.eq_false_iff.mpr hret
      by_cases hcall : inst.isCall = true
      · have hlt : s.length < u.RAS.numEntries := hr.used ▸ hfull hret' hcall
        have hpush := hr.push hlt pc
        have heffect : Branch.effect n ⟨inst, pc, true⟩ s = some (pc :: s) := by
          simp only [Branch.effect, if_true, if_neg hret, if_pos hcall, if_pos (hn ▸ hlt)]
        simp only [if_pos hcall]
        by_cases hhit : hit = true
        · simp only [if_pos hhit, Bool.or_true]
          refine ⟨_, _, rfl, heffect, ⟨rfl, hret'.symm, ?_, ?_, ?_, hroom⟩, hpush, hn⟩
          · simp [hret']
          · simp [hcall, hret']
          · exact fun hx => absurd rfl hx
        · simp only [if_neg hhit]
          by_cases hcond : inst.isUncondCtrl = false
          · -- pushed and popped again
            simp only [hcall, hcond, and_self, if_true]
            refine ⟨_, s, rfl, ?_, ⟨rfl, hret'.symm, ?_, ?_, ?_, hroom⟩, hpush.pop, hn⟩
            · simp [Branch.effect]
            · simp
            · simp
            · exact fun hx => absurd rfl hx
          · have huncond : inst.isUncondCtrl = true := Bool.not_eq_false _ ▸ hcond
            simp only [huncond, Bool.true_eq_false, and_false, if_false]
            refine ⟨_, _, rfl, heffect, ⟨rfl, hret'.symm, ?_, ?_, ?_, hroom⟩, hpush, hn⟩
            · simp [hret']
            · simp [hcall, hret']
            · exact fun hx => absurd rfl hx
      · have hcall' : inst.isCall = false := Bool.eq_false_iff.mpr hcall
        have heffect : ∀ t, Branch.effect n ⟨inst, pc, t⟩ s = some s := fun t => by
          simp only [Branch.effect, if_neg hret, if_neg hcall, ite_self]
        simp only [hcall', Bool.false_eq_true, if_false, false_and]
        by_cases hhit : hit = true
        · simp only [if_pos hhit]
          refine ⟨_, s, rfl, heffect _, ⟨rfl, hret'.symm, ?_, ?_, ?_, hroom⟩, hr, hn⟩
          · simp [hret']
          · simp [hcall']
          · exact fun hx => absurd rfl hx
        · simp only [if_neg hhit]
          refine ⟨_, s, rfl, heffect _, ⟨rfl, hret'.symm, ?_, ?_, ?_, hroom⟩, hr, hn⟩
          · simp [hret']
          · simp [hcall']
          · exact fun hx => absurd rfl hx
  · have hnot : inst.isUncondCtrl = false := by
      cases hu : inst.isUncondCtrl with
      | true => exact absurd (by rw [hu, Bool.true_or]) htaken
      | false => rfl
    rw [if_neg htaken]
    simp only [hnot, Bool.or_false]
    refine ⟨_, s, rfl, ?_, ⟨rfl, rfl, ?_, ?_, ?_, hroom⟩, hr, hn⟩
    · simp [Branch.effect]
    · simp
    · simp
    · exact fun hx => absurd rfl hx

theorem Inv.predict (h : Inv n r) {inst : StaticInst} {seqNum : Nat} {pc : Addr}
    {lookup hit : Bool} (hbound : r.Bounded (.predict inst seqNum pc lookup hit))
    (hstep : r.step (.predict inst seqNum pc lookup hit) = some r') : Inv n r' := by
  obtain ⟨base, s, hbase, hl, hr, hn⟩ := h
  obtain ⟨x, s', hhist, heff, hm, hr', hn'⟩ := predict_spec inst seqNum pc lookup hit hr hn hbound
  cases hstep
  refine ⟨base, s', hbase, ?_, hr', hn'⟩
  show Linked n base (r.unit.predict inst seqNum pc lookup hit).1.predHist _ s'
  rw [hhist]
  exact ⟨s, hl, heff, hm⟩

theorem Inv.update (h : Inv n r) {done_sn : Nat}
    (hstep : r.step (.update done_sn) = some r') : Inv n r' := by
  obtain ⟨base, s, hbase, hl, hr, hn⟩ := h
  cases hstep
  have hcut : r.unit.predHist = (r.unit.update done_sn).predHist ++
      (r.unit.predHist.reverse.takeWhile fun h => h.seqNum ≤ done_sn).reverse := by
    rw [BPredUnit.update, ← reverse_append, takeWhile_append_dropWhile, reverse_reverse]
  rw [hcut] at hl
  obtain ⟨mid, hold, hnew⟩ := hl.split
  exact ⟨mid, s, hold.stackOf_eq hbase, hnew, hr, hn⟩

/-- What `squash` leaves, where what it undoes was recorded. -/
theorem Inv.squash_spec (h : Inv n r)
    (hrec : ∀ h ∈ r.unit.predHist.takeWhile fun h => h.seqNum > sn, Run.Recorded h) :
    (r.unit.squash sn).predHist = r.unit.predHist.dropWhile (fun h => h.seqNum > sn) ∧
      Inv n { r with
        unit := r.unit.squash sn, flight := r.keep (r.unit.squash sn).predHist.length } := by
  obtain ⟨base, s, hbase, hl, hr, hn⟩ := h
  obtain ⟨hhist, hnum, s', hr', hl'⟩ := squashLoop_spec hl hr hn hrec
  refine ⟨hhist, base, s', hbase, ?_, hr', hnum⟩
  show Linked n base (r.unit.squash sn).predHist (r.keep (r.unit.squash sn).predHist.length) s'
  rw [show (r.unit.squash sn).predHist = _ from hhist]
  exact hl'

/-- The entry of a branch that is corrected to not taken matches, and its step is undone. -/
theorem correct_not_taken (hr : Rep ras s) (hn : ras.numEntries = n)
    (he : b.effect n s₀ = some s) (hm : Matches n h b s₀) (hrec : Run.Recorded h) :
    Matches n (BPredUnit.correct h false ras).1 { b with taken := false } s₀ ∧
      Rep (BPredUnit.correct h false ras).2 s₀ ∧
      (BPredUnit.correct h false ras).2.numEntries = n := by
  have hundo := rep_undo hr hn he hm hrec
  unfold BPredUnit.undo at hundo
  unfold BPredUnit.correct
  by_cases hused : h.usedRAS = true
  · have hret := (hm.used.mp hused).2
    simp only [Bool.false_eq_true, if_false, if_pos hused] at hundo ⊢
    refine ⟨⟨hm.inst, hm.wasReturn, ?_, ?_, hm.record, hm.room⟩, hundo, hn⟩
    · simp
    · have := hm.pushed
      simp only [hret, Bool.true_eq_false, false_and, and_false, iff_false] at this ⊢
      exact this
  · simp only [Bool.false_eq_true, if_false, if_neg hused] at hundo ⊢
    have hused' : h.usedRAS = true ↔ false = true ∧ b.inst.isReturn = true := by simp [hused]
    by_cases hpushed : h.wasCall = true ∧ h.pushedRAS = true
    · rw [if_pos hpushed] at hundo ⊢
      exact ⟨⟨hm.inst, hm.wasReturn, hused', by simp, hm.record, hm.room⟩, hundo, hn⟩
    · rw [if_neg hpushed] at hundo ⊢
      exact ⟨⟨hm.inst, hm.wasReturn, hused', by simpa using hpushed, hm.record, hm.room⟩, hundo, hn⟩

/-- The entry of a branch that is corrected to taken matches, when a call had been pushed. -/
theorem correct_taken (hr : Rep ras s) (hn : ras.numEntries = n)
    (he : b.effect n s₀ = some s) (hm : Matches n h b s₀)
    (hpush : h.inst.isCall = true → h.inst.isReturn = false → h.wasCall = true ∧ h.pushedRAS = true)
    (hbound : h.wasReturn = true → h.usedRAS = false → ras.usedEntries ≠ 0) :
    ∃ s', Branch.effect n { b with taken := true } s₀ = some s' ∧
      Matches n (BPredUnit.correct h true ras).1 { b with taken := true } s₀ ∧
      Rep (BPredUnit.correct h true ras).2 s' ∧
      (BPredUnit.correct h true ras).2.numEntries = n := by
  unfold BPredUnit.correct
  by_cases hlate : h.wasReturn = true ∧ h.usedRAS = false
  · -- a return that was not taken so far: popped now, and not recorded
    have hret : b.inst.isReturn = true := hm.wasReturn ▸ hlate.1
    have hnot : b.taken = false := by
      by_contra ht
      have := hm.used.mpr ⟨Bool.not_eq_false _ ▸ ht, hret⟩
      rw [hlate.2] at this
      exact Bool.false_ne_true this
    have hsame : s₀ = s := by
      unfold Branch.effect at he
      rw [if_neg (by rw [hnot]; exact Bool.false_ne_true)] at he
      exact Option.some.inj he
    subst hsame
    match s₀ with
    | [] => exact absurd hr.used (hbound hlate.1 hlate.2)
    | a :: s₁ =>
      simp only [if_true, if_pos hlate]
      refine ⟨s₁, ?_, ⟨hm.inst, hm.wasReturn, ?_, ?_, hm.record, hm.room⟩, hr.pop, hn⟩
      · simp [Branch.effect, hret]
      · simp [hret]
      · simpa [hret] using hm.pushed
  · simp only [if_true, if_neg hlate]
    by_cases hother : b.inst.isReturn = false ∧ b.inst.isCall = false
    · -- the stack does not follow such a branch
      have heff : ∀ t, Branch.effect n { b with taken := t } s₀ = some s₀ := fun t => by
        simp [Branch.effect, hother]
      have hsame : s₀ = s := Option.some.inj ((heff b.taken).symm.trans he)
      subst hsame
      refine ⟨s₀, heff true, ⟨hm.inst, hm.wasReturn, ?_, ?_, hm.record, hm.room⟩, hr, hn⟩
      · simpa [hother] using hm.used
      · simpa [hother] using hm.pushed
    · have htaken : b.taken = true := by
        cases hret : b.inst.isReturn with
        | true =>
          have hused : h.usedRAS = true := by
            by_contra hne
            exact hlate ⟨hm.wasReturn.trans hret, Bool.eq_false_iff.mpr hne⟩
          exact (hm.used.mp hused).1
        | false =>
          have hcall : b.inst.isCall = true := by
            by_contra hne
            exact hother ⟨hret, Bool.eq_false_iff.mpr hne⟩
          exact (hm.pushed.mp (hpush (hm.inst ▸ hcall) (hm.inst ▸ hret))).1
      have hb : { b with taken := true } = b := by rw [← htaken]
      rw [hb]
      exact ⟨s, he, ⟨hm.inst, hm.wasReturn, hm.used, hm.pushed, hm.record, hm.room⟩, hr, hn⟩

theorem Inv.squash (h : Inv n r) (hrep : r.Repairable (.squash sn))
    (hstep : r.step (.squash sn) = some r') : Inv n r' := by
  cases hstep
  exact (h.squash_spec hrep).2

theorem Inv.squashMispredict (h : Inv n r) {taken : Bool}
    (hbound : r.Bounded (.squashMispredict sn taken))
    (hrep : r.Repairable (.squashMispredict sn taken))
    (hstep : r.step (.squashMispredict sn taken) = some r') : Inv n r' := by
  obtain ⟨hhist, base, s, hbase, hl, hr, hn⟩ := h.squash_spec hrep.1
  have hfront := hrep.2
  rw [← hhist] at hfront
  obtain ⟨u', hu', rfl⟩ := Option.map_eq_some_iff.mp hstep
  unfold BPredUnit.squashMispredict at hu'
  replace hbound : ∀ h ∈ (r.unit.squash sn).predHist.head?, taken = true →
    h.wasReturn = true → h.usedRAS = false → (r.unit.squash sn).RAS.usedEntries ≠ 0 := hbound
  generalize r.unit.squash sn = u at hbound hfront hl hr hn hu'
  dsimp only at hbase hl hr hn hu'
  cases hlist : u.predHist with
  | nil =>
    rw [hlist] at hl hu'
    cases hu'
    rw [hlist]
    cases hkeep : r.keep ([] : List PredictorHistory).length with
    | nil =>
      rw [hkeep] at hl
      exact ⟨base, s, hbase, hlist ▸ hl, hr, hn⟩
    | cons b bs =>
      rw [hkeep] at hl
      exact hl.elim
  | cons x rest =>
    rw [hlist] at hl hu' hbound hfront
    simp only at hu'
    split at hu'
    · cases hu'
      show Inv n { r with
        unit := _, flight := Run.redirect taken (r.keep (rest.length + 1)) }
      rw [length_cons] at hl
      cases hkeep : r.keep (rest.length + 1) with
      | nil =>
        rw [hkeep] at hl
        exact hl.elim
      | cons b bs =>
        rw [hkeep] at hl
        obtain ⟨s₀, hold, he, hm⟩ := hl
        obtain ⟨hrec, hpush⟩ := hfront x rfl
        cases taken with
        | false =>
          obtain ⟨hm', hr', hn'⟩ := correct_not_taken hr hn he hm (hrec rfl)
          exact ⟨base, s₀, hbase, ⟨s₀, hold, rfl, hm'⟩, hr', hn'⟩
        | true =>
          obtain ⟨s', he', hm', hr', hn'⟩ :=
            correct_taken hr hn he hm (hpush rfl) (hbound x rfl rfl)
          exact ⟨base, s', hbase, ⟨s₀, hold, he', hm'⟩, hr', hn'⟩
    · cases hu'

theorem Inv.step (h : Inv n r) {e : Event} (hok : r.Bounded e ∧ r.Repairable e)
    (hstep : r.step e = some r') : Inv n r' := by
  cases e with
  | predict inst seqNum pc lookup hit => exact h.predict hok.1 hstep
  | update done_sn => exact h.update hstep
  | squash squashed_sn => exact h.squash hok.2 hstep
  | squashMispredict squashed_sn actually_taken => exact h.squashMispredict hok.1 hok.2 hstep

/-! ## Runs of the unit -/

namespace Run

/-- Wherever what is undone was recorded and no call is corrected to taken that was not pushed, the
    stack is that of a run of the surviving branches alone. -/
theorem stack_of_survivors {numEntries : Nat} (hpos : 0 < numEntries) {iPred : Bool}
    {es : List Event} {r : Run}
    (hok : Trace.Obeys (fun r e => r.Bounded e ∧ r.Repairable e) step (init numEntries iPred) es)
    (hrun : Trace.runs step (init numEntries iPred) es = some r) :
    SameLive r.unit.RAS r.reference :=
  (hok.invariant (Inv numEntries) (fun _ _ _ h hok hstep => h.step hok hstep)
    (inv_init hpos iPred) hrun).sameLive

/-- Two calls, a return that is corrected to not taken, one that is corrected to taken and commits,
    and a call that is squashed. -/
theorem stack_of_survivors_two_calls : ∃ r, Trace.runs step (init 2 true)
        [.predict { isUncondCtrl := true, isCall := true } 1 100 false false,
          .predict { isCall := true } 2 200 true true,
          .predict { isReturn := true } 3 300 true false, .squashMispredict 3 false,
          .predict { isReturn := true } 4 400 false false, .squashMispredict 4 true, .update 4,
          .predict { isCall := true, isDirectCtrl := true } 5 500 true true, .squash 4] = some r ∧
      SameLive r.unit.RAS r.reference := by
  refine (Option.isSome_iff_exists.mp ?_).imp fun r hr => ⟨hr, stack_of_survivors ?_ ?_ hr⟩
  · rfl
  · decide
  · decide

/-- A return that is corrected to taken was not recorded: squashed, it leaves the stack at index
    zero, and empty there.  And a call that is corrected to taken is never pushed. -/
theorem stack_lost_when_corrected : (∃ r, Trace.Obeys Bounded step (init 4 true)
        [.predict { isUncondCtrl := true, isCall := true, isDirectCtrl := true } 1 100 true true,
          .predict { isReturn := true } 2 200 false false, .squashMispredict 2 true, .squash 1] ∧
      Trace.runs step (init 4 true)
        [.predict { isUncondCtrl := true, isCall := true, isDirectCtrl := true } 1 100 true true,
          .predict { isReturn := true } 2 200 false false, .squashMispredict 2 true, .squash 1] =
        some r ∧ ¬ SameLive r.unit.RAS r.reference) ∧
      ∃ r, Trace.Obeys Bounded step (init 4 true)
        [.predict { isCall := true, isDirectCtrl := true } 1 100 false true,
          .squashMispredict 1 true] ∧
      Trace.runs step (init 4 true)
        [.predict { isCall := true, isDirectCtrl := true } 1 100 false true,
          .squashMispredict 1 true] = some r ∧ ¬ SameLive r.unit.RAS r.reference :=
  ⟨⟨_, by decide, rfl, fun h => absurd h.1 (by decide)⟩,
    ⟨_, by decide, rfl, fun h => absurd h.1 (by decide)⟩⟩

end Run

end Gem5Dvr.BPred
