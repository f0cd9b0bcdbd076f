/-
  The squashes that commit asks of the reorder buffer (`cpu/o3/commit.cc` 565-700 and 930-1060, with
  `cpu/o3/rob.cc`).

    1. `Thread`: what `Commit` keeps for a thread, and the calls it makes in `tick`, `commit`,
       `getInsts`, `commitInsts` and `markCompletedInsts`, in any order.
    2. A series of requests is what comes while the thread is in `ROBSquashing`, with the request
       that brought it there.  Commit drops a request that is younger than `youngestSeqNum`, and all
       while a trap is pending.
    3. The crux: `youngestSeqNum` parts the instructions in the buffer just as the smallest number
       of the series does.  It is lowered with each request that is taken, a request that is
       dropped is not below it, and nothing is inserted or retired before the series is over.
-/
import Mathlib.Algebra.GroupWithZero.Nat
import Gem5Dvr.Lib.Trace
import Gem5Dvr.Rob

namespace Gem5Dvr.Rob

open List

scoped instance neZero1 : NeZero 1 := ⟨by decide⟩

/-! ## Commit, one thread -/

inductive CommitStatus
  | Running | Idle | ROBSquashing | TrapPending | FetchTrapPending | SquashAfterPending
  deriving DecidableEq, Repr

/-- The squash of `fromIEW`. -/
structure SquashRequest where
  squashedSeqNum : Nat
  includeSquashInst : Bool
  deriving DecidableEq, Repr

/-- If the squashing instruction is included, one older sequence number. -/
def SquashRequest.squashed_inst (r : SquashRequest) : Nat :=
  if r.includeSquashInst then r.squashedSeqNum - 1 else r.squashedSeqNum

/-- The first six fields are commit's.  `series` records the numbers asked for, and `before` the
    instructions that were marked when the series began. -/
structure Thread where
  rob : ROB := {}
  commitStatus : CommitStatus := .Idle
  youngestSeqNum : Nat := 0
  lastCommitedSeqNum : Nat := 0
  trapSquash : Bool := false
  tcSquash : Bool := false
  series : List Nat := []
  before : List Nat := []
  deriving DecidableEq, Repr

/-- `squashWidth` and `numEntries`. -/
structure Params where
  squashWidth : Nat
  numEntries : Nat
  deriving DecidableEq, Repr

def Params.width (p : Params) (exiting : Bool) : Nat :=
  if exiting then p.numEntries else p.squashWidth

namespace Thread

variable (p : Params) (t : Thread)

/-- A request is recorded. -/
def request (num : Nat) : Thread :=
  if t.commitStatus = .ROBSquashing then { t with series := t.series ++ [num] }
  else { t with
    series := [num]
    before := (t.rob.instList.filter DynInst.squashed).map DynInst.seqNum }

/-- A request is taken: the buffer squashes, and `youngestSeqNum` is lowered. -/
def squashRob (num youngest : Nat) (exiting : Bool) : Option Thread :=
  (t.rob.squash num (p.width exiting)).map fun rob =>
    { t.request num with rob := rob, youngestSeqNum := youngest, commitStatus := .ROBSquashing }

def squashAll (exiting : Bool) : Option Thread :=
  if t.rob.isEmpty then t.squashRob p t.lastCommitedSeqNum t.lastCommitedSeqNum exiting
  else t.rob.readHeadInst.bind fun head =>
    t.squashRob p (head.seqNum - 1) t.lastCommitedSeqNum exiting

/-- The squashes of commit itself: `squashFromTrap`, `squashFromTC` and `squashFromSquashAfter`. -/
def squashPending (exiting : Bool) : Option Thread :=
  if t.trapSquash then
    if t.tcSquash then none
    else (t.squashAll p exiting).map fun t => { t with trapSquash := false }
  else if t.tcSquash then
    if t.commitStatus = .TrapPending then none
    else (t.squashAll p exiting).map fun t => { t with tcSquash := false }
  else if t.commitStatus = .SquashAfterPending then t.squashAll p exiting
  else some t

/-- The squash of `fromIEW`. -/
def squashFromIEW (r : SquashRequest) (exiting : Bool) : Option Thread :=
  if t.commitStatus = .TrapPending then some t
  else if r.squashedSeqNum ≤ t.youngestSeqNum then
    t.squashRob p r.squashed_inst r.squashed_inst exiting
  else some (t.request r.squashed_inst)

/-- The squashes in `commit`. -/
def commit (fromIEW : Option SquashRequest) (exiting : Bool) : Option Thread :=
  (t.squashPending p exiting).bind fun t =>
    match fromIEW with
    | none => some t
    | some r => t.squashFromIEW p r exiting

/-- The walk in `tick`. -/
def tick (exiting : Bool) : Option Thread :=
  if t.commitStatus = .ROBSquashing then
    if t.rob.isDoneSquashing then some { t with commitStatus := .Running }
    else (t.rob.doSquash (p.width exiting)).map fun rob => { t with rob := rob }
  else some t

/-- One instruction of `getInsts`. -/
def getInst (inst : DynInst) : Thread :=
  if !inst.squashed && t.commitStatus ≠ .ROBSquashing && t.commitStatus ≠ .TrapPending then
    { t with rob := t.rob.insertInst inst, youngestSeqNum := inst.seqNum }
  else t

/-- Whether `getCommittingThread` may choose the thread. -/
def committing : Bool :=
  t.commitStatus = .Running || t.commitStatus = .Idle || t.commitStatus = .FetchTrapPending

/-- One head that is retired in `commitInsts`. -/
def retire : Option Thread :=
  if t.committing && t.rob.isHeadReady then
    t.rob.readHeadInst.bind fun head => t.rob.retireHead.map fun rob =>
      { t with
        rob := rob
        lastCommitedSeqNum := if head.squashed then t.lastCommitedSeqNum else head.seqNum }
  else none

/-- A head that is not executed: `commitHead` clears `CanCommit`. -/
def stall : Option Thread :=
  match t.rob.instList with
  | [] => none
  | head :: rest =>
    if t.committing && t.rob.isHeadReady && !head.squashed then
      some { t with rob := { t.rob with instList := { head with canCommit := false } :: rest } }
    else none

/-- A head that is executed with a fault. -/
def trap : Option Thread :=
  if t.committing && t.rob.isHeadReady then some { t with commitStatus := .TrapPending } else none

/-- `handleInterrupt`, when nothing is in flight. -/
def handleInterrupt : Option Thread :=
  if t.rob.instList.isEmpty then some { t with commitStatus := .TrapPending } else none

def squashAfter : Option Thread :=
  if t.committing then some { t with commitStatus := .SquashAfterPending } else none

/-- One instruction of `markCompletedInsts`. -/
def markCompleted (seqNum : Nat) : Thread :=
  { t with rob := { t.rob with
    instList := t.rob.instList.map fun inst =>
      if inst.seqNum = seqNum ∧ inst.squashed = false then { inst with canCommit := true }
      else inst } }

end Thread

/-! ## Runs -/

inductive Event
  | tick (exiting : Bool)
  | commit (fromIEW : Option SquashRequest) (exiting : Bool)
  | getInst (inst : DynInst)
  | retire
  | stall
  | trap
  | handleInterrupt
  | squashAfter
  | trapEvent
  | tcEvent
  | markCompleted (seqNum : Nat)
  deriving DecidableEq, Repr

/-- The instructions come in program order, numbered from 1, and one that is included in its own
    squash has a number. -/
def Event.valid (t : Thread) : Event → Bool
  | .commit (some r) _ => !r.includeSquashInst || decide (0 < r.squashedSeqNum)
  | .getInst inst => t.rob.instList.all (fun i => decide (i.seqNum < inst.seqNum)) &&
      decide (t.lastCommitedSeqNum < inst.seqNum)
  | _ => true

def Thread.step (p : Params) (t : Thread) (e : Event) : Option Thread :=
  if e.valid t then
    match e with
    | .tick exiting => t.tick p exiting
    | .commit fromIEW exiting => t.commit p fromIEW exiting
    | .getInst inst => some (t.getInst inst)
    | .retire => t.retire
    | .stall => t.stall
    | .trap => t.trap
    | .handleInterrupt => t.handleInterrupt
    | .squashAfter => t.squashAfter
    | .trapEvent => some { t with trapSquash := true }
    | .tcEvent => some { t with tcSquash := true }
    | .markCompleted seqNum => some (t.markCompleted seqNum)
  else none

/-- An event of one of the threads. -/
def step {n : Nat} (p : Params) (ts : Fin n → Thread) (e : Fin n × Event) :
    Option (Fin n → Thread) :=
  ((ts e.1).step p e.2).map fun t => Function.update ts e.1 t

/-! ## The invariant -/

/-- A series is on. -/
structure Squashing (t : Thread) : Prop where
  least : ∀ i ∈ t.rob.instList, (∃ r ∈ t.series, r < i.seqNum) ↔ t.youngestSeqNum < i.seqNum
  swept : t.rob.doneSquashing = true → AllSwept t.youngestSeqNum t.rob.instList
  exact : ∀ i ∈ t.rob.instList, i.squashed = true →
    t.youngestSeqNum < i.seqNum ∨ i.seqNum ∈ t.before

/-- The walk is on. -/
structure Walking (t : Thread) : Prop where
  status : t.commitStatus = .ROBSquashing
  way : t.rob.OnWay
  target : ∀ i ∈ t.rob.instList, t.rob.squashedSeqNum < i.seqNum ↔ t.youngestSeqNum < i.seqNum

structure Inv (t : Thread) : Prop where
  entries : t.rob.threadEntries = t.rob.instList.length
  order : InOrder t.rob.instList
  committed : ∀ i ∈ t.rob.instList, t.lastCommitedSeqNum < i.seqNum
  walking : t.rob.doneSquashing = false → Walking t
  squashing : t.commitStatus = .ROBSquashing → Squashing t

section steps

variable {p : Params} {t t' : Thread}

theorem Inv.initial : Inv {} :=
  ⟨rfl, List.Pairwise.nil, fun _ hi => absurd hi not_mem_nil, fun h => Bool.noConfusion h,
    fun h => CommitStatus.noConfusion h⟩

theorem Inv.flags (h : Inv t) (trap tc : Bool) :
    Inv { t with trapSquash := trap, tcSquash := tc } := by
  refine ⟨h.entries, h.order, h.committed, fun hd => ?_, fun hs => ?_⟩
  · have hw := h.walking hd
    exact ⟨hw.status, hw.way, hw.target⟩
  · have hser := h.squashing hs
    exact ⟨hser.least, hser.swept, hser.exact⟩

/-- Away from a series no walk is on. -/
theorem Inv.done (h : Inv t) (hs : t.commitStatus ≠ .ROBSquashing) :
    t.rob.doneSquashing = true := by
  by_contra hne
  exact hs (h.walking (Bool.eq_false_iff.mpr hne)).status

theorem Inv.isEmpty (h : Inv t) : t.rob.isEmpty = true ↔ t.rob.instList = [] := by
  rw [ROB.isEmpty, h.entries, beq_iff_eq, length_eq_zero_iff]

variable {num : Nat} {exiting : Bool}

theorem Walked.committed {c : Nat} {l l' : List DynInst} (hw : Walked num l l')
    (h : ∀ i ∈ l, c < i.seqNum) : ∀ i ∈ l', c < i.seqNum := by
  intro b hb
  obtain ⟨a, ha, hm⟩ := hw.mem hb
  rw [hm.seqNum]
  exact h a ha

/-- What a series says of the instructions, after a request for `num` that parts them as `youngest`
    does. -/
theorem series_request {youngest : Nat} {i : DynInst} (h : Inv t) (hi : i ∈ t.rob.instList)
    (hnum : num < i.seqNum ↔ youngest < i.seqNum)
    (hlow : t.commitStatus = .ROBSquashing → t.youngestSeqNum < i.seqNum → youngest < i.seqNum) :
    (∃ r ∈ (t.request num).series, r < i.seqNum) ↔ youngest < i.seqNum := by
  unfold Thread.request
  split
  · rename_i hs
    have hleast := (h.squashing hs).least i hi
    constructor
    · rintro ⟨r, hr, hlt⟩
      rcases mem_append.mp hr with hr | hr
      · exact hlow hs (hleast.mp ⟨r, hr, hlt⟩)
      · rw [mem_singleton.mp hr] at hlt
        exact hnum.mp hlt
    · intro hlt
      exact ⟨num, mem_append_right _ mem_cons_self, hnum.mpr hlt⟩
  · constructor
    · rintro ⟨r, hr, hlt⟩
      rw [mem_singleton.mp hr] at hlt
      exact hnum.mp hlt
    · intro hlt
      exact ⟨num, mem_cons_self, hnum.mpr hlt⟩

theorem before_request (num : Nat) {i : DynInst} (h : Inv t) (hi : i ∈ t.rob.instList)
    (hmarked : i.squashed = true) :
    t.commitStatus = .ROBSquashing ∧ t.youngestSeqNum < i.seqNum ∨
      i.seqNum ∈ (t.request num).before := by
  unfold Thread.request
  split
  · rename_i hs
    rcases (h.squashing hs).exact i hi hmarked with hlt | hb
    · exact Or.inl ⟨hs, hlt⟩
    · exact Or.inr hb
  · exact Or.inr (mem_map_of_mem (mem_filter.mpr ⟨hi, hmarked⟩))

/-- A request that is taken: it parts the instructions as the new `youngestSeqNum`, which is not
    above the old one. -/
theorem inv_squashRob {youngest : Nat} (h : Inv t)
    (hnum : ∀ i ∈ t.rob.instList, num < i.seqNum ↔ youngest < i.seqNum)
    (hlow : t.commitStatus = .ROBSquashing → ∀ i ∈ t.rob.instList,
      t.youngestSeqNum < i.seqNum → youngest < i.seqNum)
    (hstep : t.squashRob p num youngest exiting = some t') :
    Inv t' ∧ t'.lastCommitedSeqNum = t.lastCommitedSeqNum ∧ t'.youngestSeqNum = youngest := by
  have hcommitted : (t.request num).lastCommitedSeqNum = t.lastCommitedSeqNum := by
    unfold Thread.request
    split <;> rfl
  obtain ⟨rob, hrob, rfl⟩ := Option.map_eq_some_iff.mp hstep
  refine ⟨?_, hcommitted, rfl⟩
  by_cases hnil : t.rob.instList = []
  · -- the buffer is empty, and no walk is on
    have hdone : t.rob.doneSquashing = true := by
      by_contra hne
      obtain ⟨it, -, hlen, -⟩ := (h.walking (Bool.eq_false_iff.mpr hne)).way
      rw [hnil] at hlen
      exact Nat.not_lt_zero _ hlen
    have hsame : t.rob.squash num (p.width exiting) = some t.rob := by
      rw [ROB.squash, if_pos (h.isEmpty.mpr hnil)]
    obtain rfl : t.rob = rob := Option.some.inj (hsame.symm.trans hrob)
    have hnone : ∀ i, i ∉ t.rob.instList := fun i hi => by simp [hnil] at hi
    refine ⟨h.entries, h.order, fun i hi => absurd hi (hnone i), fun hd => ?_, fun _ => ?_⟩
    · exact absurd hd (by simp [hdone])
    · exact ⟨fun i hi => absurd hi (hnone i), fun _ i hi => absurd hi (hnone i),
        fun i hi => absurd hi (hnone i)⟩
  · obtain ⟨rob', heq, hw, htarget, hent, hwalk⟩ :=
      ROB.squash_spec num (p.width exiting) h.order h.entries hnil
    obtain rfl : rob' = rob := Option.some.inj (heq.symm.trans hrob)
    -- the new list parts as the old one
    have hnum' : ∀ i ∈ rob'.instList, num < i.seqNum ↔ youngest < i.seqNum := by
      intro b hb
      obtain ⟨a, ha, hm⟩ := hw.mem hb
      rw [hm.seqNum]
      exact hnum a ha
    refine ⟨?_, h.order.walked hw, ?_, ?_, fun _ => ⟨?_, ?_, ?_⟩⟩
    · rw [hent, hw.length]
      exact h.entries
    · rw [hcommitted]
      exact hw.committed h.committed
    · intro hd
      refine ⟨rfl, ?_, ?_⟩
      · have hd : rob'.doneSquashing = false := hd
        simpa [ROB.Walk, hd] using hwalk
      · rw [htarget]
        exact hnum'
    · intro b hb
      obtain ⟨a, ha, hm⟩ := hw.mem hb
      rw [hm.seqNum]
      exact series_request h ha (hnum a ha) fun hs => hlow hs a ha
    · intro hd b hb hlt
      have hd : rob'.doneSquashing = true := hd
      have hall : AllSwept rob'.squashedSeqNum rob'.instList := by simpa [ROB.Walk, hd] using hwalk
      exact hall b hb (by rw [htarget]; exact (hnum' b hb).mpr hlt)
    · intro b hb hmarked
      obtain ⟨a, ha, rfl | ⟨hlt, rfl⟩⟩ := hw.mem hb
      · rcases before_request num h ha hmarked with ⟨hs, hlt⟩ | hbefore
        · exact Or.inl (hlow hs b ha hlt)
        · exact Or.inr hbefore
      · exact Or.inl ((hnum a ha).mp hlt)

theorem inv_squashAll (h : Inv t) (hstep : t.squashAll p exiting = some t') :
    Inv t' := by
  unfold Thread.squashAll at hstep
  split at hstep
  · rename_i hempty
    have hnil := h.isEmpty.mp hempty
    refine (inv_squashRob h (fun i _ => Iff.rfl) (fun _ i hi => ?_) hstep).1
    simp [hnil] at hi
  · obtain ⟨head, hhead, hstep⟩ := Option.bind_eq_some_iff.mp hstep
    obtain ⟨rest, hlist⟩ := head?_eq_some_iff.mp hhead
    -- all instructions of the thread are younger than both numbers
    have hall : ∀ i ∈ t.rob.instList, head.seqNum ≤ i.seqNum := by
      intro i hi
      rw [hlist] at hi
      rcases mem_cons.mp hi with rfl | hi
      · exact Nat.le_refl _
      · have hord := h.order
        rw [InOrder, hlist, map_cons, pairwise_cons] at hord
        exact Nat.le_of_lt (hord.1 i.seqNum (mem_map_of_mem hi))
    refine (inv_squashRob h (fun i hi => ?_) (fun _ i hi _ => h.committed i hi) hstep).1
    have hle := hall i hi
    have hc := h.committed i hi
    constructor
    · exact fun _ => hc
    · intro _
      omega

theorem inv_squashPending (h : Inv t) (hstep : t.squashPending p exiting = some t') : Inv t' := by
  unfold Thread.squashPending at hstep
  split at hstep
  · split at hstep
    · cases hstep
    · obtain ⟨u, hu, rfl⟩ := Option.map_eq_some_iff.mp hstep
      exact (inv_squashAll h hu).flags false u.tcSquash
  · split at hstep
    · split at hstep
      · cases hstep
      · obtain ⟨u, hu, rfl⟩ := Option.map_eq_some_iff.mp hstep
        exact (inv_squashAll h hu).flags u.trapSquash false
    · split at hstep
      · exact inv_squashAll h hstep
      · cases hstep
        exact h

theorem inv_squashFromIEW {r : SquashRequest} (h : Inv t)
    (hstep : t.squashFromIEW p r exiting = some t') : Inv t' := by
  have hle : r.squashed_inst ≤ r.squashedSeqNum ∧ r.squashedSeqNum ≤ r.squashed_inst + 1 := by
    unfold SquashRequest.squashed_inst
    split <;> omega
  unfold Thread.squashFromIEW at hstep
  split at hstep
  · cases hstep
    exact h
  · split at hstep
    · refine (inv_squashRob h (fun i _ => Iff.rfl) (fun _ i _ hlt => ?_) hstep).1
      omega
    · -- a request that is dropped asks for nothing below `youngestSeqNum`
      cases hstep
      have hrequest : (t.request r.squashed_inst).rob = t.rob ∧
          (t.request r.squashed_inst).commitStatus = t.commitStatus ∧
          (t.request r.squashed_inst).youngestSeqNum = t.youngestSeqNum ∧
          (t.request r.squashed_inst).lastCommitedSeqNum = t.lastCommitedSeqNum := by
        unfold Thread.request
        split <;> exact ⟨rfl, rfl, rfl, rfl⟩
      obtain ⟨hrob, hstatus, hyoung, hlast⟩ := hrequest
      refine ⟨by rw [hrob]; exact h.entries, by rw [hrob]; exact h.order, ?_, fun hd => ?_,
        fun hs => ⟨?_, ?_, ?_⟩⟩
      · rw [hrob, hlast]
        exact h.committed
      · rw [hrob] at hd
        have hw := h.walking hd
        exact ⟨hstatus.trans hw.status, by rw [hrob]; exact hw.way,
          by rw [hrob, hyoung]; exact hw.target⟩
      · rw [hstatus] at hs
        rw [hrob, hyoung]
        intro i hi
        have hleast := (h.squashing hs).least i hi
        unfold Thread.request
        rw [if_pos hs]
        constructor
        · rintro ⟨q, hq, hlt⟩
          rcases mem_append.mp hq with hq | hq
          · exact hleast.mp ⟨q, hq, hlt⟩
          · rw [mem_singleton.mp hq] at hlt
            omega
        · intro hlt
          obtain ⟨q, hq, hlt⟩ := hleast.mpr hlt
          exact ⟨q, mem_append_left _ hq, hlt⟩
      · rw [hstatus] at hs
        rw [hrob, hyoung]
        exact (h.squashing hs).swept
      · rw [hstatus] at hs
        rw [hrob, hyoung]
        intro i hi hmarked
        rcases before_request r.squashed_inst h hi hmarked with ⟨-, hlt⟩ | hb
        · exact Or.inl hlt
        · exact Or.inr hb

theorem inv_commit {r : Option SquashRequest} (h : Inv t)
    (hstep : t.commit p r exiting = some t') : Inv t' := by
  obtain ⟨u, hu, hstep⟩ := Option.bind_eq_some_iff.mp hstep
  have hinv := inv_squashPending h hu
  cases r with
  | none =>
    cases hstep
    exact hinv
  | some q => exact inv_squashFromIEW hinv hstep

theorem inv_tick (h : Inv t) (hstep : t.tick p exiting = some t') : Inv t' := by
  unfold Thread.tick at hstep
  split at hstep
  · rename_i hs
    split at hstep
    · rename_i hdone
      cases hstep
      refine ⟨h.entries, h.order, h.committed, fun hd => ?_, fun hr => CommitStatus.noConfusion hr⟩
      exact absurd hd (by simpa [ROB.isDoneSquashing] using hdone)
    · rename_i hnot
      obtain ⟨rob', hrob, rfl⟩ := Option.map_eq_some_iff.mp hstep
      have hnot : t.rob.doneSquashing = false := by simpa [ROB.isDoneSquashing] using hnot
      have hwalk := h.walking hnot
      have hser := h.squashing hs
      obtain ⟨rob'', heq, hw, htarget, hent, hend, -⟩ :=
        hwalk.way.doSquash (p.width exiting) h.order hnot
      obtain rfl : rob'' = rob' := Option.some.inj (heq.symm.trans hrob)
      have hpart : ∀ i ∈ rob''.instList,
          t.rob.squashedSeqNum < i.seqNum ↔ t.youngestSeqNum < i.seqNum := by
        intro b hb
        obtain ⟨a, ha, hm⟩ := hw.mem hb
        rw [hm.seqNum]
        exact hwalk.target a ha
      refine ⟨?_, h.order.walked hw, hw.committed h.committed, fun hd => ⟨hs, ?_, ?_⟩,
        fun _ => ⟨?_, fun hd b hb hlt => ?_, ?_⟩⟩
      · rw [hent, hw.length]
        exact h.entries
      · have hd : rob''.doneSquashing = false := hd
        simpa [ROB.Walk, hd] using hend
      · rw [htarget]
        exact hpart
      · intro b hb
        obtain ⟨a, ha, hm⟩ := hw.mem hb
        rw [hm.seqNum]
        exact hser.least a ha
      · have hd : rob''.doneSquashing = true := hd
        have hall : AllSwept rob''.squashedSeqNum rob''.instList := by
          simpa [ROB.Walk, hd] using hend
        exact hall b hb (by rw [htarget]; exact (hpart b hb).mpr hlt)
      · intro b hb hmarked
        obtain ⟨a, ha, rfl | ⟨hlt, rfl⟩⟩ := hw.mem hb
        · exact hser.exact b ha hmarked
        · exact Or.inl ((hwalk.target a ha).mp hlt)
  · cases hstep
    exact h

/-- A call that is made away from a series, and that starts none. -/
theorem Inv.away (hs : t'.commitStatus ≠ .ROBSquashing) (hd : t'.rob.doneSquashing = true)
    (hentries : t'.rob.threadEntries = t'.rob.instList.length) (hord : InOrder t'.rob.instList)
    (hc : ∀ i ∈ t'.rob.instList, t'.lastCommitedSeqNum < i.seqNum) : Inv t' :=
  ⟨hentries, hord, hc, fun h => absurd h (by simp [hd]), fun h => absurd h hs⟩

theorem committing_ne (h : t.committing = true) : t.commitStatus ≠ .ROBSquashing := by
  rintro hs
  simp [Thread.committing, hs] at h

theorem inv_getInst {inst : DynInst} (h : Inv t)
    (hord : ∀ i ∈ t.rob.instList, i.seqNum < inst.seqNum)
    (hc : t.lastCommitedSeqNum < inst.seqNum) : Inv (t.getInst inst) := by
  unfold Thread.getInst
  split
  · rename_i hguard
    have hs : t.commitStatus ≠ .ROBSquashing := by
      simp only [Bool.and_eq_true, decide_eq_true_eq] at hguard
      exact hguard.1.2
    refine Inv.away hs (h.done hs) ?_ ?_ ?_
    · show t.rob.threadEntries + 1 = (t.rob.instList ++ [inst]).length
      rw [length_append, h.entries]
      rfl
    · show InOrder (t.rob.instList ++ [inst])
      rw [InOrder, map_append, pairwise_append]
      refine ⟨h.order, pairwise_singleton _ _, ?_⟩
      intro a ha b hb
      obtain ⟨i, hi, rfl⟩ := mem_map.mp ha
      rw [mem_singleton.mp hb]
      exact hord i hi
    · intro i hi
      rcases mem_append.mp hi with hi | hi
      · exact h.committed i hi
      · rw [mem_singleton.mp hi]
        exact hc
  · exact h

theorem inv_retire (h : Inv t) (hstep : t.retire = some t') : Inv t' := by
  unfold Thread.retire at hstep
  split at hstep
  · rename_i hguard
    have hs := committing_ne (Bool.and_eq_true_iff.mp hguard).1
    obtain ⟨head, hhead, hstep⟩ := Option.bind_eq_some_iff.mp hstep
    obtain ⟨rob, hrob, rfl⟩ := Option.map_eq_some_iff.mp hstep
    obtain ⟨rest, hlist⟩ := head?_eq_some_iff.mp hhead
    have hretire : rob.instList = rest ∧ rob.threadEntries = t.rob.threadEntries - 1 ∧
        rob.doneSquashing = t.rob.doneSquashing := by
      unfold ROB.retireHead at hrob
      rw [hlist] at hrob
      dsimp only at hrob
      split at hrob
      · cases hrob
      · split at hrob
        · cases hrob
        · cases hrob
          exact ⟨rfl, rfl, rfl⟩
    obtain ⟨hl, hent, hdone⟩ := hretire
    have hord := h.order
    rw [InOrder, hlist, map_cons, pairwise_cons] at hord
    refine Inv.away hs (hdone.trans (h.done hs)) ?_ ?_ ?_
    · show rob.threadEntries = rob.instList.length
      rw [hent, h.entries, hl, hlist, length_cons]
      rfl
    · show InOrder rob.instList
      rw [hl]
      exact hord.2
    · show ∀ i ∈ rob.instList, (if head.squashed = true then _ else _) < i.seqNum
      rw [hl]
      intro i hi
      split
      · exact h.committed i (by rw [hlist]; exact mem_cons_of_mem _ hi)
      · exact hord.1 i.seqNum (mem_map_of_mem hi)
  · cases hstep

theorem inv_stall (h : Inv t) (hstep : t.stall = some t') : Inv t' := by
  unfold Thread.stall at hstep
  split at hstep
  · cases hstep
  · rename_i head rest hlist
    split at hstep
    · rename_i hguard
      have hs := committing_ne (Bool.and_eq_true_iff.mp (Bool.and_eq_true_iff.mp hguard).1).1
      cases hstep
      refine Inv.away hs (h.done hs) ?_ ?_ ?_
      · exact h.entries.trans (by rw [hlist]; rfl)
      · have hord := h.order
        rw [InOrder, hlist] at hord
        exact hord
      · intro i hi
        rcases mem_cons.mp hi with rfl | hi
        · exact h.committed head (by rw [hlist]; exact mem_cons_self)
        · exact h.committed i (by rw [hlist]; exact mem_cons_of_mem _ hi)
    · cases hstep

theorem inv_status {status : CommitStatus} (h : Inv t) (hdone : t.rob.doneSquashing = true)
    (hs : status ≠ .ROBSquashing) : Inv { t with commitStatus := status } :=
  Inv.away hs hdone h.entries h.order h.committed

theorem inv_markCompleted (seqNum : Nat) (h : Inv t) : Inv (t.markCompleted seqNum) := by
  let f : DynInst → DynInst := fun inst =>
    if inst.seqNum = seqNum ∧ inst.squashed = false then { inst with canCommit := true } else inst
  have hf : ∀ a, (f a).seqNum = a.seqNum ∧ (f a).squashed = a.squashed ∧
      (a.canCommit = true → (f a).canCommit = true) := by
    intro a
    dsimp only [f]
    split
    · exact ⟨rfl, rfl, fun _ => rfl⟩
    · exact ⟨rfl, rfl, fun hc => hc⟩
  have hmem : ∀ b ∈ t.rob.instList.map f, ∃ a ∈ t.rob.instList, b = f a := by
    intro b hb
    obtain ⟨a, ha, rfl⟩ := mem_map.mp hb
    exact ⟨a, ha, rfl⟩
  have hseq : (t.rob.instList.map f).map DynInst.seqNum = t.rob.instList.map DynInst.seqNum := by
    rw [map_map]
    exact map_congr_left fun a _ => (hf a).1
  refine ⟨?_, ?_, ?_, fun hd => ⟨(h.walking hd).status, ?_, ?_⟩, fun hs => ⟨?_, ?_, ?_⟩⟩
  · exact h.entries.trans (length_map f).symm
  · show ((t.rob.instList.map f).map DynInst.seqNum).Pairwise (· < ·)
    rw [hseq]
    exact h.order
  · intro b hb
    obtain ⟨a, ha, rfl⟩ := hmem b hb
    rw [(hf a).1]
    exact h.committed a ha
  · obtain ⟨it, hit, hlen, hswept⟩ := (h.walking hd).way
    have hlen' : it < (t.rob.instList.map f).length := by rwa [length_map]
    refine ⟨it, hit, hlen', fun j b hj hb hlt => ?_⟩
    obtain ⟨a, ha, rfl⟩ := Option.map_eq_some_iff.mp (getElem?_map.symm.trans hb)
    rw [(hf a).1] at hlt
    have hmarks := hswept j a hj ha hlt
    exact ⟨(hf a).2.1.trans hmarks.1, (hf a).2.2 hmarks.2⟩
  · intro b hb
    obtain ⟨a, ha, rfl⟩ := hmem b hb
    rw [(hf a).1]
    exact (h.walking hd).target a ha
  · intro b hb
    obtain ⟨a, ha, rfl⟩ := hmem b hb
    rw [(hf a).1]
    exact (h.squashing hs).least a ha
  · intro hd b hb hlt
    obtain ⟨a, ha, rfl⟩ := hmem b hb
    rw [(hf a).1] at hlt
    have hmarks := (h.squashing hs).swept hd a ha hlt
    exact ⟨(hf a).2.1.trans hmarks.1, (hf a).2.2 hmarks.2⟩
  · intro b hb hmarked
    obtain ⟨a, ha, rfl⟩ := hmem b hb
    rw [(hf a).2.1] at hmarked
    rw [(hf a).1]
    exact (h.squashing hs).exact a ha hmarked

theorem inv_step {e : Event} (h : Inv t) (hstep : t.step p e = some t') : Inv t' := by
  unfold Thread.step at hstep
  split at hstep
  · rename_i hvalid
    cases e with
    | tick exiting => exact inv_tick h hstep
    | commit fromIEW exiting => exact inv_commit h hstep
    | getInst inst =>
      cases hstep
      simp only [Event.valid, Bool.and_eq_true, all_eq_true, decide_eq_true_eq] at hvalid
      exact inv_getInst h hvalid.1 hvalid.2
    | retire => exact inv_retire h hstep
    | stall => exact inv_stall h hstep
    | trap =>
      dsimp only [Thread.trap] at hstep
      split at hstep
      · rename_i hguard
        cases hstep
        have hs := committing_ne (Bool.and_eq_true_iff.mp hguard).1
        exact inv_status h (h.done hs) CommitStatus.noConfusion
      · cases hstep
    | handleInterrupt =>
      dsimp only [Thread.handleInterrupt] at hstep
      split at hstep
      · rename_i hempty
        cases hstep
        refine inv_status h ?_ CommitStatus.noConfusion
        by_contra hne
        obtain ⟨it, -, hlen, -⟩ := (h.walking (Bool.eq_false_iff.mpr hne)).way
        rw [List.isEmpty_iff.mp hempty] at hlen
        exact Nat.not_lt_zero _ hlen
      · cases hstep
    | squashAfter =>
      dsimp only [Thread.squashAfter] at hstep
      split at hstep
      · rename_i hguard
        cases hstep
        exact inv_status h (h.done (committing_ne hguard)) CommitStatus.noConfusion
      · cases hstep
    | trapEvent =>
      cases hstep
      exact h.flags true t.tcSquash
    | tcEvent =>
      cases hstep
      exact h.flags t.trapSquash true
    | markCompleted seqNum =>
      cases hstep
      exact inv_markCompleted seqNum h
  · cases hstep

end steps

/-! ## Every run -/

variable {n : Nat} {p : Params}

theorem inv_runs {es : List (Fin n × Event)} {ts : Fin n → Thread}
    (h : Trace.runs (step p) (fun _ => {}) es = some ts) (tid : Fin n) : Inv (ts tid) := by
  refine Trace.runs_invariant (fun ts => ∀ tid, Inv (ts tid)) ?_ (fun _ => Inv.initial) h tid
  intro ts e ts' hinv hstep i
  obtain ⟨t, ht, rfl⟩ := Option.map_eq_some_iff.mp hstep
  by_cases hi : i = e.1
  · subst hi
    rw [Function.update_self]
    exact inv_step (hinv e.1) ht
  · rw [Function.update_of_ne hi]
    exact hinv i

/-- In every run, in every state where a thread squashes: when `isDoneSquashing` is true, every
    instruction in the buffer that is younger than a request of the series, and so than the oldest,
    is squashed and able to commit; and at any time one that is younger than none of them is
    squashed only if it was when the series began. -/
theorem squash_complete_exact (es : List (Fin n × Event)) (ts : Fin n → Thread)
    (h : Trace.runs (step p) (fun _ => {}) es = some ts) (tid : Fin n)
    (hs : (ts tid).commitStatus = .ROBSquashing) :
    ((ts tid).rob.isDoneSquashing = true → ∀ inst ∈ (ts tid).rob.instList,
        (∃ r ∈ (ts tid).series, r < inst.seqNum) →
          inst.squashed = true ∧ inst.readyToCommit = true) ∧
      ∀ inst ∈ (ts tid).rob.instList, (∀ r ∈ (ts tid).series, inst.seqNum ≤ r) →
        inst.squashed = true → inst.seqNum ∈ (ts tid).before := by
  have hinv := inv_runs h tid
  have hser := hinv.squashing hs
  constructor
  · intro hdone inst hi hr
    exact hser.swept hdone inst hi ((hser.least inst hi).mp hr)
  · intro inst hi hr hmarked
    rcases hser.exact inst hi hmarked with hlt | hb
    · obtain ⟨r, hmem, hlt⟩ := (hser.least inst hi).mpr hlt
      have hle := hr r hmem
      omega
    · exact hb

/-- A squash to 3 is on its way when one to 1 comes, and one to 2 is dropped. -/
def olderRequest : List (Fin 1 × Event) :=
  [.getInst ⟨1, false, false⟩, .getInst ⟨2, false, false⟩, .getInst ⟨3, false, false⟩,
    .getInst ⟨4, false, false⟩, .getInst ⟨5, false, false⟩, .commit (some ⟨3, false⟩) false,
    .commit (some ⟨2, true⟩) false, .tick false, .commit (some ⟨3, true⟩) false, .tick false,
    .tick false].map fun e => (0, e)

theorem olderRequest_isSome :
    (Trace.runs (step ⟨1, 8⟩) (fun _ => {}) olderRequest).isSome = true := by decide

/-- The older of the requests is carried out to its end. -/
theorem squash_complete_exact_olderRequest :
    let t := (Trace.runs (step ⟨1, 8⟩) (fun _ => {}) olderRequest).get olderRequest_isSome 0
    t.series = [3, 1, 2] ∧ t.rob.isDoneSquashing = true ∧ ∀ inst ∈ t.rob.instList, 1 < inst.seqNum →
        inst.squashed = true ∧ inst.readyToCommit = true := by
  intro t
  have hseries : t.series = [3, 1, 2] := by decide
  have hdone : t.rob.isDoneSquashing = true := by decide
  have hs : t.commitStatus = .ROBSquashing := by decide
  refine ⟨hseries, hdone, fun inst hi hlt => ?_⟩
  refine (squash_complete_exact olderRequest _ (Option.some_get olderRequest_isSome).symm 0 hs).1
    hdone inst hi ⟨1, ?_, hlt⟩
  show 1 ∈ t.series
  decide

end Gem5Dvr.Rob
