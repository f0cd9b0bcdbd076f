/-
  The nested discovery controller (`DVRNestedController`, `cpu/o3/dvr_nested.hh`, `dvr_nested.cc`
  13-142).

  A stack of at most two discoveries, a root and one child.  A child ends when it is completed, when
  its trigger load commits again, or when it has seen too many commits; only the top of the stack can
  end.

  1. **Program** — the five calls over the array of frames.  Identifiers and counters are `uint64_t`,
     the commits of a frame are an `unsigned`.

  2. **What a call does (`Effect`)** — read on the STACK of the active frames: the seven ways a call
     ends.  Every invariant below is a case analysis on it.

  3. **The crux (`Life`)** — every identifier handed out is on the stack, has ended or was discarded,
     ONCE.  Children end first because a child on the stack has its parent below it.

  Identifiers are new as long as `nextId` has not come round.  The commits of the root go on over all
  its children and have no bound of their own: a child that times out gives the next one a fresh
  count, and the root's may wrap (`commits_wrap`).
-/
import Mathlib.Data.BitVec
import Mathlib.Data.List.FinRange
import Mathlib.Data.List.Count
import Mathlib.Data.List.Perm.Basic
import Mathlib.Logic.Function.Basic
import Mathlib.Tactic.Ring

namespace Gem5Dvr.NestedController

open List Function
open BitVec (allOnes le_def lt_def ofNat ofNat_add toNat_ofNat)

scoped instance neZero2 : NeZero 2 := ⟨by decide⟩

/-! ## The program -/

/-- `gem5::Addr`. -/
abbrev Addr := BitVec 64
/-- The number of an instruction. -/
abbrev InstSeqNum := BitVec 64
/-- The number of a discovery. -/
abbrev DiscoveryId := BitVec 64

/-- A root and one nested discovery. -/
abbrev MaxDepth : Nat := 2

/-- What a call comes to. -/
inductive Event
  | None | Started | Completed | TimedOut | RejectedDepth | RejectedParent | RejectedOrder
  deriving DecidableEq, Repr

/-- What a call returns. -/
structure Result where
  event : Event := .None
  id : DiscoveryId := 0
  parentId : DiscoveryId := 0
  depth : Nat := 0
  triggerPC : Addr := 0
  finalLoadPC : Addr := 0
  committedInstructions : BitVec 32 := 0
  deriving DecidableEq, Repr

/-- The counters. -/
structure Statistics where
  rootStarts : BitVec 64 := 0
  nestedStarts : BitVec 64 := 0
  rootCompletions : BitVec 64 := 0
  nestedCompletions : BitVec 64 := 0
  rootTimeouts : BitVec 64 := 0
  nestedTimeouts : BitVec 64 := 0
  depthRejects : BitVec 64 := 0
  parentRejects : BitVec 64 := 0
  orderRejects : BitVec 64 := 0
  deriving DecidableEq, Repr

/-- A discovery that is open. -/
structure Frame where
  id : DiscoveryId := 0
  parentId : DiscoveryId := 0
  triggerPC : Addr := 0
  triggerSequence : InstSeqNum := 0
  committedInstructions : BitVec 32 := 0
  deriving DecidableEq, Repr

/-- The argument of the constructor, which asserts that it is positive. -/
structure Params where
  maxInstructions : BitVec 32
  maxInstructions_pos : 0 < maxInstructions

/-- The fields of `DVRNestedController`. -/
@[ext] structure Controller (p : Params) where
  frames : Fin MaxDepth → Frame := fun _ => {}
  activeDepth : Nat := 0
  nextId : DiscoveryId := 1
  counters : Statistics := {}
  depth_le : activeDepth ≤ MaxDepth := by decide

namespace Controller

variable {p : Params} (c : Controller p)

/-- The index of `frames[activeDepth - 1]`. -/
def topIndex : Fin MaxDepth :=
  ⟨c.activeDepth - 1, Nat.lt_of_le_of_lt (Nat.sub_le_sub_right c.depth_le 1) (by decide)⟩

/-- The innermost discovery. -/
def top : Frame := c.frames c.topIndex

/-- A call that is turned down, and counted. -/
def reject (event : Event) : Controller p × Result :=
  let counters :=
    match event with
    | .RejectedDepth => { c.counters with depthRejects := c.counters.depthRejects + 1 }
    | .RejectedParent => { c.counters with parentRejects := c.counters.parentRejects + 1 }
    | .RejectedOrder => { c.counters with orderRejects := c.counters.orderRejects + 1 }
    | _ => c.counters
  ({ c with counters := counters }, { event := event, depth := c.activeDepth })

/-- A discovery of its own. -/
def startRoot (trigger_pc : Addr) (sequence : InstSeqNum) : Controller p × Result :=
  if c.activeDepth ≠ 0 then c.reject .RejectedParent
  else
    ({ frames := update c.frames 0 ⟨c.nextId, 0, trigger_pc, sequence, 0⟩
       activeDepth := 1
       nextId := c.nextId + 1
       counters := { c.counters with rootStarts := c.counters.rootStarts + 1 } },
      ⟨.Started, c.nextId, 0, 1, trigger_pc, 0, 0⟩)

/-- A discovery within the innermost one. -/
def startNested (parent_id : DiscoveryId) (trigger_pc : Addr) (sequence : InstSeqNum) :
    Controller p × Result :=
  if c.activeDepth = 0 ∨ c.top.id ≠ parent_id then c.reject .RejectedParent
  else if h : c.activeDepth = MaxDepth then c.reject .RejectedDepth
  else
    have hroom : c.activeDepth < MaxDepth := Nat.lt_of_le_of_ne c.depth_le h
    ({ frames := update c.frames ⟨c.activeDepth, hroom⟩
         ⟨c.nextId, parent_id, trigger_pc, sequence, 0⟩
       activeDepth := c.activeDepth + 1
       nextId := c.nextId + 1
       counters := { c.counters with nestedStarts := c.counters.nestedStarts + 1 }
       depth_le := hroom },
      ⟨.Started, c.nextId, parent_id, c.activeDepth + 1, trigger_pc, 0, 0⟩)

/-- The top frame goes; `depth` reports the depth it had. -/
def pop (counters : Statistics) : Controller p :=
  { c with
    frames := update c.frames c.topIndex {}
    activeDepth := c.activeDepth - 1
    counters := counters
    depth_le := Nat.le_trans (Nat.sub_le _ _) c.depth_le }

/-- The innermost discovery is given up. -/
def timeoutTop : Controller p × Result :=
  (c.pop (if c.activeDepth = 1 then { c.counters with rootTimeouts := c.counters.rootTimeouts + 1 }
      else { c.counters with nestedTimeouts := c.counters.nestedTimeouts + 1 }),
    ⟨.TimedOut, c.top.id, c.top.parentId, c.activeDepth, c.top.triggerPC, 0,
      c.top.committedInstructions⟩)

/-- A discovery has found its last load. -/
def complete (id : DiscoveryId) (final_load_pc : Addr) : Controller p × Result :=
  if c.activeDepth = 0 ∨ c.top.id ≠ id then c.reject .RejectedOrder
  else
    (c.pop (if c.activeDepth = 1 then
          { c.counters with rootCompletions := c.counters.rootCompletions + 1 }
        else { c.counters with nestedCompletions := c.counters.nestedCompletions + 1 }),
      ⟨.Completed, c.top.id, c.top.parentId, c.activeDepth, c.top.triggerPC, final_load_pc,
        c.top.committedInstructions⟩)

/-- The loop of `observeCommit` over the active frames. -/
def countCommit : Controller p :=
  { c with frames := fun i =>
      if i.val < c.activeDepth then
        { c.frames i with committedInstructions := (c.frames i).committedInstructions + 1 }
      else c.frames i }

/-- An instruction commits; the innermost discovery may time out. -/
def observeCommit (pc : Addr) (sequence : InstSeqNum) : Controller p × Result :=
  if c.activeDepth = 0 then (c, {})
  else if 1 < c.activeDepth ∧ c.top.triggerSequence < sequence ∧ pc = c.top.triggerPC then
    c.complete c.top.id pc
  else if p.maxInstructions ≤ c.countCommit.top.committedInstructions then c.countCommit.timeoutTop
  else (c.countCommit, {})

/-- No discovery is open; numbers and counters go on. -/
def reset : Controller p := { c with frames := fun _ => {}, activeDepth := 0, depth_le := Nat.zero_le _ }

end Controller

/-- The calls. -/
inductive Call
  | startRoot (trigger_pc : Addr) (sequence : InstSeqNum)
  | startNested (parent_id : DiscoveryId) (trigger_pc : Addr) (sequence : InstSeqNum)
  | observeCommit (pc : Addr) (sequence : InstSeqNum)
  | complete (id : DiscoveryId) (final_load_pc : Addr)
  | reset
  deriving DecidableEq, Repr

variable {p : Params}

/-- One call; `reset` returns nothing. -/
def call (c : Controller p) : Call → Controller p × Result
  | .startRoot trigger_pc sequence => c.startRoot trigger_pc sequence
  | .startNested parent_id trigger_pc sequence => c.startNested parent_id trigger_pc sequence
  | .observeCommit pc sequence => c.observeCommit pc sequence
  | .complete id final_load_pc => c.complete id final_load_pc
  | .reset => (c.reset, {})

/-! ## The stack -/

/-- The active frames, the root first. -/
def Controller.stack (c : Controller p) : List Frame :=
  ((finRange MaxDepth).filter fun i => i.val < c.activeDepth).map c.frames

section stack

variable {c : Controller p}

theorem stack_eq (c : Controller p) : c.stack =
    match c.activeDepth with
    | 0 => []
    | 1 => [c.frames 0]
    | _ => [c.frames 0, c.frames 1] := by
  have hle := c.depth_le
  unfold Controller.stack
  match hd : c.activeDepth with
  | 0 => rfl
  | 1 => rfl
  | 2 => rfl
  | k + 3 =>
    rw [hd] at hle
    exact absurd hle (by simp [MaxDepth])

theorem stack_length (c : Controller p) : c.stack.length = c.activeDepth := by
  have hle := c.depth_le
  rw [stack_eq]
  match hd : c.activeDepth with
  | 0 => rfl
  | 1 => rfl
  | 2 => rfl
  | k + 3 =>
    rw [hd] at hle
    exact absurd hle (by simp [MaxDepth])

end stack

/-- One more commit. -/
def Frame.bump (f : Frame) : Frame := { f with committedInstructions := f.committedInstructions + 1 }

section stack

variable {c : Controller p}

theorem stack_of_idle (h : c.activeDepth = 0) : c.stack = [] := by
  rw [← length_eq_zero_iff, stack_length, h]

theorem stack_of_one (h : c.activeDepth = 1) : c.stack = [c.frames 0] := by
  rw [stack_eq]
  simp only [h]

theorem stack_of_two (h : c.activeDepth = 2) : c.stack = [c.frames 0, c.frames 1] := by
  rw [stack_eq]
  simp only [h]

/-- An active controller, its top frame last. -/
theorem stack_of_active (h : c.activeDepth ≠ 0) : ∃ below, c.stack = below ++ [c.top] ∧
    below.length + 1 = c.activeDepth ∧ ∀ counters, (c.pop counters).stack = below := by
  have hle := c.depth_le
  have htop : c.top = c.frames c.topIndex := rfl
  match hd : c.activeDepth with
  | 0 => exact absurd hd h
  | 1 =>
    have hindex : c.topIndex = 0 := Fin.ext (by simp [Controller.topIndex, hd])
    refine ⟨[], ?_, rfl, fun counters => ?_⟩
    · rw [stack_eq, hd, htop, hindex]
      rfl
    · exact stack_of_idle (by simp [Controller.pop, hd])
  | 2 =>
    have hindex : c.topIndex = 1 := Fin.ext (by simp [Controller.topIndex, hd])
    refine ⟨[c.frames 0], ?_, rfl, fun counters => ?_⟩
    · rw [stack_eq, hd, htop, hindex]
      rfl
    · have hdepth : (c.pop counters).activeDepth = 1 := by simp [Controller.pop, hd]
      rw [stack_eq, hdepth]
      have hframe : (c.pop counters).frames 0 = c.frames 0 := by
        simp [Controller.pop, hindex]
      exact congrArg (fun f => [f]) hframe
  | k + 3 =>
    rw [hd] at hle
    exact absurd hle (by simp [MaxDepth])

/-- Every active frame counts a commit. -/
theorem stack_countCommit (c : Controller p) : c.countCommit.stack = c.stack.map Frame.bump := by
  have hle := c.depth_le
  have hdepth : c.countCommit.activeDepth = c.activeDepth := rfl
  have hframe : ∀ i : Fin MaxDepth, i.val < c.activeDepth →
      c.countCommit.frames i = (c.frames i).bump := fun i hi => if_pos hi
  rw [stack_eq, stack_eq, hdepth]
  match hd : c.activeDepth with
  | 0 => rfl
  | 1 =>
    have h0 := hframe 0 (by simp [hd])
    simp only [h0, map_cons, map_nil]
  | 2 =>
    have h0 := hframe 0 (by simp [hd])
    have h1 := hframe 1 (by simp [hd])
    simp only [h0, h1, map_cons, map_nil]
  | k + 3 =>
    rw [hd] at hle
    exact absurd hle (by simp [MaxDepth])

end stack

/-! ## What a call does -/

/-- The counters after the top frame has ended. -/
def Statistics.ended (s : Statistics) (event : Event) (root : Bool) : Statistics :=
  match event, root with
  | .Completed, true => { s with rootCompletions := s.rootCompletions + 1 }
  | .Completed, false => { s with nestedCompletions := s.nestedCompletions + 1 }
  | .TimedOut, true => { s with rootTimeouts := s.rootTimeouts + 1 }
  | .TimedOut, false => { s with nestedTimeouts := s.nestedTimeouts + 1 }
  | _, _ => s

/-- The counters after a rejected call. -/
def Statistics.rejected (s : Statistics) : Event → Statistics
  | .RejectedDepth => { s with depthRejects := s.depthRejects + 1 }
  | .RejectedParent => { s with parentRejects := s.parentRejects + 1 }
  | .RejectedOrder => { s with orderRejects := s.orderRejects + 1 }
  | _ => s

/-- The seven ways a call ends. -/
inductive Effect (c : Controller p) : Call → Controller p → Result → Prop
  | root {trigger_pc sequence c' r} (hbefore : c.stack = [])
      (hafter : c'.stack = [⟨c.nextId, 0, trigger_pc, sequence, 0⟩]) (hid : c'.nextId = c.nextId + 1)
      (hcounters : c'.counters = { c.counters with rootStarts := c.counters.rootStarts + 1 })
      (hr : r.event = .Started ∧ r.id = c.nextId ∧ r.parentId = 0) :
      Effect c (.startRoot trigger_pc sequence) c' r
  | nested {trigger_pc sequence c' r} {f : Frame} (hbefore : c.stack = [f])
      (hafter : c'.stack = [f, ⟨c.nextId, f.id, trigger_pc, sequence, 0⟩])
      (hid : c'.nextId = c.nextId + 1)
      (hcounters : c'.counters = { c.counters with nestedStarts := c.counters.nestedStarts + 1 })
      (hr : r.event = .Started ∧ r.id = c.nextId ∧ r.parentId = f.id) :
      Effect c (.startNested f.id trigger_pc sequence) c' r
  | completed {e c' r} {below : List Frame} {f : Frame} (hbefore : c.stack = below ++ [f])
      (hafter : c'.stack = below) (hid : c'.nextId = c.nextId)
      (hcounters : c'.counters = c.counters.ended .Completed below.isEmpty)
      (hr : r.event = .Completed ∧ r.id = f.id) (he : e ≠ .reset) : Effect c e c' r
  | timedOut {pc sequence c' r} {below : List Frame} {f : Frame} (hbefore : c.stack = below ++ [f])
      (hafter : c'.stack = below.map Frame.bump) (hid : c'.nextId = c.nextId)
      (hcounters : c'.counters = c.counters.ended .TimedOut below.isEmpty)
      (hr : r.event = .TimedOut ∧ r.id = f.id) : Effect c (.observeCommit pc sequence) c' r
  | counted {pc sequence c' r} (hafter : c'.stack = c.stack.map Frame.bump)
      (hid : c'.nextId = c.nextId) (hcounters : c'.counters = c.counters) (hr : r.event = .None) :
      Effect c (.observeCommit pc sequence) c' r
  | rejected {e r} {event : Event}
      (hevent : event = .RejectedDepth ∨ event = .RejectedParent ∨ event = .RejectedOrder)
      (hr : r.event = event) (he : e ≠ .reset) :
      Effect c e { c with counters := c.counters.rejected event } r
  | reset {c' r} (hafter : c'.stack = []) (hid : c'.nextId = c.nextId)
      (hcounters : c'.counters = c.counters) (hr : r.event = .None) : Effect c .reset c' r

section effect

variable {c : Controller p}

/-- The root is the frame with nothing below it. -/
theorem isEmpty_eq {below : List Frame} {depth : Nat} (h : below.length + 1 = depth) :
    below.isEmpty = decide (depth = 1) := by
  subst h
  cases below <;> simp

theorem complete_effect (e : Call) (he : e ≠ .reset) (id : DiscoveryId) (final_load_pc : Addr) :
    Effect c e (c.complete id final_load_pc).1 (c.complete id final_load_pc).2 := by
  unfold Controller.complete
  by_cases hno : c.activeDepth = 0 ∨ c.top.id ≠ id
  · rw [if_pos hno]
    exact .rejected (Or.inr (Or.inr (rfl : Event.RejectedOrder = _))) rfl he
  · rw [if_neg hno]
    rw [not_or] at hno
    obtain ⟨below, hstack, hlen, hpop⟩ := stack_of_active hno.1
    refine .completed hstack (hpop _) rfl ?_ ⟨rfl, rfl⟩ he
    rw [isEmpty_eq hlen]
    by_cases hroot : c.activeDepth = 1 <;> simp [Controller.pop, Statistics.ended, hroot]

theorem startRoot_effect (trigger_pc : Addr) (sequence : InstSeqNum) :
    Effect c (.startRoot trigger_pc sequence) (c.startRoot trigger_pc sequence).1
      (c.startRoot trigger_pc sequence).2 := by
  unfold Controller.startRoot
  by_cases hactive : c.activeDepth ≠ 0
  · rw [if_pos hactive]
    exact .rejected (Or.inr (Or.inl (rfl : Event.RejectedParent = _))) rfl nofun
  · rw [if_neg hactive]
    refine .root (stack_of_idle (not_not.mp hactive)) ?_ rfl rfl ⟨rfl, rfl, rfl⟩
    exact congrArg (fun f => [f]) (update_self (0 : Fin MaxDepth) _ c.frames)

theorem startNested_effect (parent_id : DiscoveryId) (trigger_pc : Addr) (sequence : InstSeqNum) :
    Effect c (.startNested parent_id trigger_pc sequence)
      (c.startNested parent_id trigger_pc sequence).1
      (c.startNested parent_id trigger_pc sequence).2 := by
  unfold Controller.startNested
  by_cases hno : c.activeDepth = 0 ∨ c.top.id ≠ parent_id
  · rw [if_pos hno]
    exact .rejected (Or.inr (Or.inl (rfl : Event.RejectedParent = _))) rfl nofun
  · rw [if_neg hno]
    by_cases hfull : c.activeDepth = MaxDepth
    · rw [dif_pos hfull]
      exact .rejected (Or.inl (rfl : Event.RejectedDepth = _)) rfl nofun
    · rw [dif_neg hfull]
      rw [not_or, not_not] at hno
      obtain ⟨hactive, rfl⟩ := hno
      have hle := c.depth_le
      have hone : c.activeDepth = 1 := by
        simp only [MaxDepth] at hle hfull
        omega
      have hindex : c.topIndex = 0 := Fin.ext (by simp [Controller.topIndex, hone])
      have htop : c.top = c.frames 0 := congrArg c.frames hindex
      refine .nested (f := c.top) ?_ ?_ rfl rfl ⟨rfl, rfl, rfl⟩
      · rw [stack_of_one hone, htop]
      · rw [htop]
        have hfirst : (0 : Fin MaxDepth) ≠ ⟨c.activeDepth, Nat.lt_of_le_of_ne c.depth_le hfull⟩ := by
          intro heq
          have hval := congrArg Fin.val heq
          simp [hone] at hval
        have hsecond : (⟨c.activeDepth, Nat.lt_of_le_of_ne c.depth_le hfull⟩ : Fin MaxDepth) = 1 :=
          Fin.ext hone
        rw [stack_of_two (congrArg (· + 1) hone)]
        simp only [hsecond, update_self]
        rw [hsecond] at hfirst
        rw [update_of_ne hfirst]

theorem observeCommit_effect (pc : Addr) (sequence : InstSeqNum) :
    Effect c (.observeCommit pc sequence) (c.observeCommit pc sequence).1
      (c.observeCommit pc sequence).2 := by
  unfold Controller.observeCommit
  by_cases hidle : c.activeDepth = 0
  · rw [if_pos hidle]
    have hstack := stack_of_idle hidle
    exact .counted (by rw [hstack]; rfl) rfl rfl rfl
  · rw [if_neg hidle]
    by_cases hagain : 1 < c.activeDepth ∧ c.top.triggerSequence < sequence ∧ pc = c.top.triggerPC
    · rw [if_pos hagain]
      exact complete_effect (.observeCommit pc sequence) nofun _ _
    · rw [if_neg hagain]
      by_cases hlimit : p.maxInstructions ≤ c.countCommit.top.committedInstructions
      · rw [if_pos hlimit]
        -- the frames have counted the commit before the top one goes
        have hactive : c.countCommit.activeDepth ≠ 0 := hidle
        obtain ⟨below, hstack, hlen, hpop⟩ := stack_of_active hactive
        obtain ⟨below', f, hold, hbelow, hf⟩ : ∃ below' f, c.stack = below' ++ [f] ∧
            below = below'.map Frame.bump ∧ c.countCommit.top = f.bump := by
          obtain ⟨below', hold, -, -⟩ := stack_of_active hidle
          refine ⟨below', c.top, hold, ?_⟩
          have hcount := stack_countCommit c
          rw [hold, hstack, map_append] at hcount
          have hinj := append_inj' hcount rfl
          exact ⟨hinj.1, singleton_inj.mp hinj.2⟩
        refine .timedOut hold ?_ rfl ?_ ⟨rfl, ?_⟩
        · rw [← hbelow]
          exact hpop _
        · have hempty : below'.isEmpty = decide (c.activeDepth = 1) := by
            apply isEmpty_eq
            rw [← length_map (f := Frame.bump), ← hbelow]
            exact hlen
          rw [hempty]
          by_cases hroot : c.activeDepth = 1 <;>
            simp [Controller.timeoutTop, Controller.countCommit, Controller.pop, Statistics.ended, hroot]
        · show c.countCommit.top.id = f.id
          rw [hf]
          rfl
      · rw [if_neg hlimit]
        exact .counted (stack_countCommit c) rfl rfl rfl

theorem call_effect (c : Controller p) (e : Call) : Effect c e (call c e).1 (call c e).2 := by
  cases e with
  | startRoot trigger_pc sequence => exact startRoot_effect trigger_pc sequence
  | startNested parent_id trigger_pc sequence => exact startNested_effect parent_id trigger_pc sequence
  | observeCommit pc sequence => exact observeCommit_effect pc sequence
  | complete id final_load_pc => exact complete_effect (.complete id final_load_pc) nofun id final_load_pc
  | reset => exact .reset (stack_of_idle rfl) rfl rfl rfl

end effect

/-! ## The calls and what they reported -/

/-- A controller, with what its calls reported so far: the discoveries started with their parents, in
    order; those that ended; those that a reset discarded; and the commits since the last root. -/
structure Watched (p : Params) where
  controller : Controller p := {}
  started : List (DiscoveryId × DiscoveryId) := []
  ended : List DiscoveryId := []
  discarded : List DiscoveryId := []
  discardedRoots : Nat := 0
  discardedChildren : Nat := 0
  rootCommits : Nat := 0

/-- The roots and the children on the stack. -/
def roots (c : Controller p) : Nat := min c.stack.length 1

def children (c : Controller p) : Nat := c.stack.length - 1

/-- What is noted of a call with this result. -/
def note (w : Watched p) (e : Call) (c : Controller p) (r : Result) : Watched p where
  controller := c
  started := if r.event = .Started then w.started ++ [(r.id, r.parentId)] else w.started
  ended := if r.event = .Completed ∨ r.event = .TimedOut then w.ended ++ [r.id] else w.ended
  discarded :=
    if e = .reset then w.discarded ++ w.controller.stack.map Frame.id else w.discarded
  discardedRoots := if e = .reset then w.discardedRoots + roots w.controller else w.discardedRoots
  discardedChildren :=
    if e = .reset then w.discardedChildren + children w.controller else w.discardedChildren
  rootCommits :=
    match e with
    | .startRoot _ _ => if r.event = .Started then 0 else w.rootCommits
    | .observeCommit _ _ => w.rootCommits + 1
    | _ => w.rootCommits

/-- A call, and its note. -/
def watch (w : Watched p) (e : Call) : Watched p :=
  note w e (call w.controller e).1 (call w.controller e).2

/-- A fresh controller after a sequence of calls. -/
def watched (p : Params) (es : List Call) : Watched p := es.foldl watch {}

/-! ## Identifiers -/

/-- The identifier and the parent of a frame. -/
def Frame.key (f : Frame) : DiscoveryId × DiscoveryId := (f.id, f.parentId)

/-- The frames on the stack, by what does not change while they are there. -/
def Controller.keys (c : Controller p) : List (DiscoveryId × DiscoveryId) := c.stack.map Frame.key

/-- A root, and a child of the root. -/
def Chain : List (DiscoveryId × DiscoveryId) → Prop
  | [] => True
  | [root] => root.2 = 0
  | [root, child] => root.2 = 0 ∧ child.2 = root.1
  | _ => False

theorem Chain.below {below : List (DiscoveryId × DiscoveryId)} {key : DiscoveryId × DiscoveryId}
    (h : Chain (below ++ [key])) : Chain below := by
  match below, h with
  | [], _ => trivial
  | [root], hpair => exact hpair.1
  | [_, _], hno => exact hno.elim
  | _ :: _ :: _ :: _, hno => exact hno.elim

/-- The identifier of the `i`-th discovery. -/
def idAt (i : Nat) : DiscoveryId := ofNat 64 (i + 1)

/-- The discoveries started are the first ones; each is on the stack, ended or discarded, once. -/
structure Life (w : Watched p) : Prop where
  ids : w.started.map Prod.fst = (range w.started.length).map idAt
  nextId : w.controller.nextId = idAt w.started.length
  perm : (w.ended ++ w.discarded ++ w.controller.keys.map Prod.fst).Perm (w.started.map Prod.fst)
  keys : ∀ key ∈ w.controller.keys, key ∈ w.started
  chain : Chain w.controller.keys
  above : (w.controller.keys.map Prod.fst).Pairwise (· < ·)
  discarded : ∀ key ∈ w.started, key.2 ≠ 0 → key.1 ∈ w.discarded → key.2 ∈ w.discarded

theorem map_key_bump (l : List Frame) : (l.map Frame.bump).map Frame.key = l.map Frame.key := by
  rw [map_map]
  rfl

theorem idAt_toNat {i : Nat} (hi : i + 1 < 2 ^ 64) : (idAt i).toNat = i + 1 := by
  rw [idAt, toNat_ofNat, Nat.mod_eq_of_lt hi]

namespace Life

variable {w : Watched p}

/-- Identifiers grow. -/
theorem increasing (h : Life w) (hbound : w.started.length < 2 ^ 64) :
    (w.started.map Prod.fst).Pairwise (· < ·) := by
  rw [h.ids, pairwise_map]
  apply pairwise_lt_range.imp_of_mem
  intro i j hi hj hij
  have hj' := mem_range.mp hj
  rw [lt_def, idAt_toNat (by omega), idAt_toNat (by omega)]
  omega

theorem nodup (h : Life w) (hbound : w.started.length < 2 ^ 64) : (w.started.map Prod.fst).Nodup :=
  (h.increasing hbound).imp fun hlt heq => absurd (heq ▸ hlt) (BitVec.lt_irrefl _)

/-- The next identifier is above all that were given. -/
theorem fresh (h : Life w) (hbound : w.started.length + 1 < 2 ^ 64) {id : DiscoveryId}
    (hid : id ∈ w.started.map Prod.fst) : id < w.controller.nextId := by
  rw [h.ids] at hid
  obtain ⟨i, hi, rfl⟩ := mem_map.mp hid
  have hi' := mem_range.mp hi
  rw [h.nextId, lt_def, idAt_toNat (by omega), idAt_toNat hbound]
  omega

/-- A discovery on the stack has its parent there. -/
theorem parent_mem (h : Life w) (hbound : w.started.length < 2 ^ 64) {key : DiscoveryId × DiscoveryId}
    (hkey : key ∈ w.started) (hparent : key.2 ≠ 0)
    (hon : key.1 ∈ w.controller.keys.map Prod.fst) : key.2 ∈ w.controller.keys.map Prod.fst := by
  obtain ⟨key', hkey', heq⟩ := mem_map.mp hon
  have hsame : key' = key := inj_on_of_nodup_map (h.nodup hbound) (h.keys key' hkey') hkey heq
  subst hsame
  have hchain := h.chain
  match hkeys : w.controller.keys, hkey', hchain with
  | [root], hin, hroot =>
    obtain rfl := mem_singleton.mp hin
    exact absurd hroot hparent
  | [root, child], hin, hpair =>
    rcases mem_cons.mp hin with rfl | hchild
    · exact absurd hpair.1 hparent
    · obtain rfl := mem_singleton.mp hchild
      rw [hpair.2]
      exact mem_cons_self

theorem fst_start {started : List (DiscoveryId × DiscoveryId)} {id parent : DiscoveryId}
    (hids : started.map Prod.fst = (range started.length).map idAt)
    (hid : id = idAt started.length) :
    (started ++ [(id, parent)]).map Prod.fst
      = (range (started ++ [(id, parent)]).length).map idAt := by
  rw [map_append, hids, length_append, length_singleton, range_succ, map_append, hid]
  rfl

/-- A discovery starts on top of the stack. -/
theorem start (h : Life w) (hbound : w.started.length + 1 < 2 ^ 64) {w' : Watched p}
    {parent : DiscoveryId}
    (hstarted : w'.started = w.started ++ [(w.controller.nextId, parent)])
    (hended : w'.ended = w.ended) (hdiscarded : w'.discarded = w.discarded)
    (hkeys : w'.controller.keys = w.controller.keys ++ [(w.controller.nextId, parent)])
    (hid : w'.controller.nextId = w.controller.nextId + 1) (hchain : Chain w'.controller.keys) :
    Life w' := by
  refine ⟨?_, ?_, ?_, ?_, hchain, ?_, ?_⟩
  · rw [hstarted]
    exact fst_start h.ids h.nextId
  · rw [hid, h.nextId, hstarted, length_append]
    exact (ofNat_add _ 1).symm
  · rw [hstarted, hended, hdiscarded, hkeys, map_append, map_append, ← append_assoc]
    exact h.perm.append_right _
  · intro key hkey
    rw [hkeys, mem_append] at hkey
    rw [hstarted, mem_append]
    exact hkey.imp (h.keys key) id
  · rw [hkeys, map_append, pairwise_append]
    refine ⟨h.above, pairwise_singleton _ _, ?_⟩
    intro id hid' id' hnew
    obtain rfl : id' = w.controller.nextId := mem_singleton.mp hnew
    obtain ⟨key, hkey, rfl⟩ := mem_map.mp hid'
    exact h.fresh hbound (mem_map_of_mem (h.keys key hkey))
  · intro key hkey hparent hin
    rw [hstarted, mem_append] at hkey
    rw [hdiscarded] at hin ⊢
    rcases hkey with hold | hnew
    · exact h.discarded key hold hparent hin
    · -- a new identifier has not been discarded
      obtain rfl := mem_singleton.mp hnew
      have hmem := h.perm.mem_iff.mp (mem_append_left _ (mem_append_right w.ended hin))
      exact absurd (h.fresh hbound hmem) (BitVec.lt_irrefl _)

/-- The discovery on top of the stack ends. -/
theorem finish (h : Life w) {w' : Watched p} {below : List (DiscoveryId × DiscoveryId)}
    {key : DiscoveryId × DiscoveryId} (hbefore : w.controller.keys = below ++ [key])
    (hkeys : w'.controller.keys = below) (hstarted : w'.started = w.started)
    (hended : w'.ended = w.ended ++ [key.1]) (hdiscarded : w'.discarded = w.discarded)
    (hid : w'.controller.nextId = w.controller.nextId) : Life w' := by
  refine ⟨?_, ?_, ?_, ?_, ?_, ?_, ?_⟩
  · rw [hstarted]
    exact h.ids
  · rw [hid, hstarted]
    exact h.nextId
  · rw [hstarted, hended, hdiscarded, hkeys, perm_iff_count]
    intro id
    have hcount := perm_iff_count.mp h.perm id
    rw [hbefore] at hcount
    simp only [map_append, count_append, map_cons, map_nil] at hcount ⊢
    omega
  · intro other hother
    rw [hkeys] at hother
    rw [hstarted]
    exact h.keys other (hbefore ▸ mem_append_left _ hother)
  · have hchain := h.chain
    rw [hbefore] at hchain
    rw [hkeys]
    exact hchain.below
  · have habove := h.above
    rw [hbefore, map_append] at habove
    rw [hkeys]
    exact (pairwise_append.mp habove).1
  · rw [hstarted, hdiscarded]
    exact h.discarded

/-- A reset discards a child together with its parent. -/
theorem clear (h : Life w) (hbound : w.started.length < 2 ^ 64) {w' : Watched p}
    (hkeys : w'.controller.keys = []) (hstarted : w'.started = w.started)
    (hended : w'.ended = w.ended)
    (hdiscarded : w'.discarded = w.discarded ++ w.controller.keys.map Prod.fst)
    (hid : w'.controller.nextId = w.controller.nextId) : Life w' := by
  refine ⟨?_, ?_, ?_, ?_, ?_, ?_, ?_⟩
  · rw [hstarted]
    exact h.ids
  · rw [hid, hstarted]
    exact h.nextId
  · rw [hstarted, hended, hdiscarded, hkeys, map_nil, append_nil, ← append_assoc]
    exact h.perm
  · rw [hkeys]
    nofun
  · rw [hkeys]
    trivial
  · rw [hkeys]
    exact List.Pairwise.nil
  · intro key hkey hparent hin
    rw [hstarted] at hkey
    rw [hdiscarded, mem_append] at hin ⊢
    exact hin.imp (h.discarded key hkey hparent) (h.parent_mem hbound hkey hparent)

/-- A call that leaves the stack as it is, but for the commits. -/
theorem stay (h : Life w) {w' : Watched p} (hkeys : w'.controller.keys = w.controller.keys)
    (hstarted : w'.started = w.started) (hended : w'.ended = w.ended)
    (hdiscarded : w'.discarded = w.discarded)
    (hid : w'.controller.nextId = w.controller.nextId) : Life w' := by
  refine ⟨?_, ?_, ?_, ?_, ?_, ?_, ?_⟩
  · rw [hstarted]
    exact h.ids
  · rw [hid, hstarted]
    exact h.nextId
  · rw [hstarted, hended, hdiscarded, hkeys]
    exact h.perm
  · rw [hkeys, hstarted]
    exact h.keys
  · rw [hkeys]
    exact h.chain
  · rw [hkeys]
    exact h.above
  · rw [hstarted, hdiscarded]
    exact h.discarded

end Life

variable {e : Call} {r : Result} {l : List Frame} {k : Nat}

/-- The chain is kept by every call. -/
theorem Chain.effect {c c' : Controller p} (h : Chain c.keys)
    (heffect : Effect c e c' r) : Chain c'.keys := by
  unfold Controller.keys at h ⊢
  cases heffect with
  | root hbefore hafter hid hcounters hr =>
    rw [hafter]
    rfl
  | nested hbefore hafter hid hcounters hr =>
    rw [hbefore] at h
    rw [hafter]
    exact ⟨h, rfl⟩
  | completed hbefore hafter hid hcounters hr he =>
    rw [hbefore, map_append] at h
    rw [hafter]
    exact h.below
  | timedOut hbefore hafter hid hcounters hr =>
    rw [hbefore, map_append] at h
    rw [hafter, map_key_bump]
    exact h.below
  | counted hafter hid hcounters hr =>
    rw [hafter, map_key_bump]
    exact h
  | rejected hevent hr he => exact h
  | reset hafter hid hcounters hr =>
    rw [hafter]
    trivial

/-- What a call with this effect keeps. -/
theorem Life.note {w : Watched p} (h : Life w) {c : Controller p}
    (heffect : Effect w.controller e c r) (hbound : (note w e c r).started.length < 2 ^ 64) :
    Life (note w e c r) := by
  have hchain : Chain c.keys := h.chain.effect heffect
  cases heffect with
  | @root trigger_pc sequence c r hbefore hafter hid hcounters hr =>
    obtain ⟨hevent, hrid, hparent⟩ := hr
    have hstarted : (NestedController.note w (.startRoot trigger_pc sequence) c r).started
        = w.started ++ [(w.controller.nextId, 0)] := by
      simp [NestedController.note, hevent, hrid, hparent]
    rw [hstarted, length_append] at hbound
    refine h.start hbound hstarted ?_ rfl ?_ hid hchain
    · simp [NestedController.note, hevent]
    · show c.stack.map Frame.key = w.controller.stack.map Frame.key ++ _
      rw [hbefore, hafter]
      rfl
  | @nested trigger_pc sequence c r f hbefore hafter hid hcounters hr =>
    obtain ⟨hevent, hrid, hparent⟩ := hr
    have hstarted : (NestedController.note w (.startNested f.id trigger_pc sequence) c r).started
        = w.started ++ [(w.controller.nextId, f.id)] := by
      simp [NestedController.note, hevent, hrid, hparent]
    rw [hstarted, length_append] at hbound
    refine h.start hbound hstarted ?_ rfl ?_ hid hchain
    · simp [NestedController.note, hevent]
    · show c.stack.map Frame.key = w.controller.stack.map Frame.key ++ _
      rw [hbefore, hafter]
      rfl
  | @completed e c r below f hbefore hafter hid hcounters hr he =>
    obtain ⟨hevent, hrid⟩ := hr
    have hkeys : w.controller.keys = below.map Frame.key ++ [f.key] := by
      rw [Controller.keys, hbefore, map_append]
      rfl
    refine h.finish hkeys ?_ ?_ ?_ ?_ hid
    · show c.stack.map Frame.key = _
      rw [hafter]
    · simp [NestedController.note, hevent]
    · simp [NestedController.note, hevent, hrid, Frame.key]
    · simp [NestedController.note, he]
  | @timedOut pc sequence c r below f hbefore hafter hid hcounters hr =>
    obtain ⟨hevent, hrid⟩ := hr
    have hkeys : w.controller.keys = below.map Frame.key ++ [f.key] := by
      rw [Controller.keys, hbefore, map_append]
      rfl
    refine h.finish hkeys ?_ ?_ ?_ rfl hid
    · show c.stack.map Frame.key = _
      rw [hafter, map_key_bump]
    · simp [NestedController.note, hevent]
    · simp [NestedController.note, hevent, hrid, Frame.key]
  | counted hafter hid hcounters hr =>
    refine h.stay ?_ ?_ ?_ rfl hid
    · show c.stack.map Frame.key = w.controller.stack.map Frame.key
      rw [hafter, map_key_bump]
    · simp [NestedController.note, hr]
    · simp [NestedController.note, hr]
  | @rejected e r event hevent hr he =>
    refine h.stay rfl ?_ ?_ ?_ rfl
    · rcases hevent with rfl | rfl | rfl <;> simp [NestedController.note, hr]
    · rcases hevent with rfl | rfl | rfl <;> simp [NestedController.note, hr]
    · simp [NestedController.note, he]
  | reset hafter hid hcounters hr =>
    have hstarted : (NestedController.note w .reset c r).started = w.started := by
      simp [NestedController.note, hr]
    rw [hstarted] at hbound
    refine h.clear hbound ?_ hstarted ?_ ?_ hid
    · show c.stack.map Frame.key = []
      rw [hafter]
      rfl
    · simp [NestedController.note, hr]
    · show w.discarded ++ w.controller.stack.map Frame.id = _
      rw [Controller.keys, map_map]
      rfl

/-! ## Accounts -/

/-- Roots and children are each started, ended, on the stack or discarded. -/
structure Accounts (w : Watched p) : Prop where
  roots : w.controller.counters.rootStarts = w.controller.counters.rootCompletions
    + w.controller.counters.rootTimeouts + ofNat 64 (roots w.controller + w.discardedRoots)
  children : w.controller.counters.nestedStarts = w.controller.counters.nestedCompletions
    + w.controller.counters.nestedTimeouts
    + ofNat 64 (children w.controller + w.discardedChildren)

theorem ofNat_one_add (d : Nat) : ofNat 64 (1 + d) = 1 + ofNat 64 d :=
  ofNat_add 1 d

/-- The number of active roots and children, by the stack. -/
theorem roots_eq {c : Controller p} (h : c.stack = l) : roots c = min l.length 1 := by
  rw [roots, h]

theorem children_eq {c : Controller p} (h : c.stack = l) : children c = l.length - 1 := by
  rw [children, h]

/-- The end of a discovery moves it from the active ones to the ended ones. -/
theorem Accounts.finish {w : Watched p} (h : Accounts w) {w' : Watched p} {below below' : List Frame}
    {f : Frame} {event : Event} (hevent : event = .Completed ∨ event = .TimedOut)
    (hbefore : w.controller.stack = below ++ [f]) (hafter : w'.controller.stack = below')
    (hlen : below'.length = below.length)
    (hcounters : w'.controller.counters = w.controller.counters.ended event below.isEmpty)
    (hroots : w'.discardedRoots = w.discardedRoots)
    (hchildren : w'.discardedChildren = w.discardedChildren) : Accounts w' := by
  have hdepth := stack_length w.controller
  have hle := w.controller.depth_le
  rw [hbefore, length_append, length_singleton] at hdepth
  simp only [MaxDepth] at hle
  have hr := h.roots
  have hc := h.children
  rw [roots_eq hbefore] at hr
  rw [children_eq hbefore] at hc
  constructor
  · rw [hcounters, hroots, roots_eq hafter, hlen]
    match below, hdepth with
    | [], _ =>
      simp only [nil_append, length_singleton, Nat.min_self, ofNat_one_add] at hr
      rcases hevent with rfl | rfl
      · simp only [Statistics.ended, isEmpty_nil, length_nil, Nat.zero_min, Nat.zero_add]
        rw [hr]
        ring
      · simp only [Statistics.ended, isEmpty_nil, length_nil, Nat.zero_min, Nat.zero_add]
        rw [hr]
        ring
    | [_], _ =>
      rcases hevent with rfl | rfl
      · exact hr
      · exact hr
    | _ :: _ :: _, hlong =>
      simp only [length_cons] at hlong
      omega
  · rw [hcounters, hchildren, children_eq hafter, hlen]
    match below, hdepth with
    | [], _ =>
      rcases hevent with rfl | rfl
      · exact hc
      · exact hc
    | [_], _ =>
      simp only [length_append, length_singleton, Nat.add_sub_cancel, ofNat_one_add] at hc
      rcases hevent with rfl | rfl
      · simp only [Statistics.ended, isEmpty_cons, length_singleton, Nat.sub_self, Nat.zero_add]
        rw [hc]
        ring
      · simp only [Statistics.ended, isEmpty_cons, length_singleton, Nat.sub_self, Nat.zero_add]
        rw [hc]
        ring
    | _ :: _ :: _, hlong =>
      simp only [length_cons] at hlong
      omega

theorem Accounts.note {w : Watched p} (h : Accounts w) {c : Controller p}
    (heffect : Effect w.controller e c r) : Accounts (note w e c r) := by
  have hr := h.roots
  have hc := h.children
  cases heffect with
  | root hbefore hafter hid hcounters hresult =>
    rw [roots_eq hbefore] at hr
    rw [children_eq hbefore] at hc
    constructor
    · show c.counters.rootStarts = c.counters.rootCompletions + c.counters.rootTimeouts
        + ofNat 64 (NestedController.roots c + w.discardedRoots)
      rw [hcounters, roots_eq hafter]
      simp only [length_nil, Nat.zero_min, Nat.zero_add] at hr
      simp only [length_singleton, Nat.min_self, ofNat_one_add]
      rw [hr]
      ring
    · show c.counters.nestedStarts = c.counters.nestedCompletions + c.counters.nestedTimeouts
        + ofNat 64 (NestedController.children c + w.discardedChildren)
      rw [hcounters, children_eq hafter]
      exact hc
  | @nested _ _ c r f hbefore hafter hid hcounters hresult =>
    rw [roots_eq hbefore] at hr
    rw [children_eq hbefore] at hc
    constructor
    · show c.counters.rootStarts = c.counters.rootCompletions + c.counters.rootTimeouts
        + ofNat 64 (NestedController.roots c + w.discardedRoots)
      rw [hcounters, roots_eq hafter]
      exact hr
    · show c.counters.nestedStarts = c.counters.nestedCompletions + c.counters.nestedTimeouts
        + ofNat 64 (NestedController.children c + w.discardedChildren)
      rw [hcounters, children_eq hafter]
      simp only [length_singleton, Nat.sub_self, Nat.zero_add] at hc
      simp only [length_cons, length_nil, Nat.add_sub_cancel, Nat.zero_add, ofNat_one_add]
      rw [hc]
      ring
  | completed hbefore hafter hid hcounters hresult he =>
    exact h.finish (Or.inl rfl) hbefore hafter rfl hcounters (if_neg he) (if_neg he)
  | timedOut hbefore hafter hid hcounters hresult =>
    exact h.finish (Or.inr rfl) hbefore hafter (length_map _) hcounters rfl rfl
  | counted hafter hid hcounters hresult =>
    constructor
    · show c.counters.rootStarts = c.counters.rootCompletions + c.counters.rootTimeouts
        + ofNat 64 (NestedController.roots c + w.discardedRoots)
      rw [hcounters, roots_eq hafter, length_map]
      exact hr
    · show c.counters.nestedStarts = c.counters.nestedCompletions + c.counters.nestedTimeouts
        + ofNat 64 (NestedController.children c + w.discardedChildren)
      rw [hcounters, children_eq hafter, length_map]
      exact hc
  | rejected hevent hresult he =>
    constructor
    · simp only [NestedController.note, if_neg he]
      rcases hevent with rfl | rfl | rfl <;> exact hr
    · simp only [NestedController.note, if_neg he]
      rcases hevent with rfl | rfl | rfl <;> exact hc
  | reset hafter hid hcounters hresult =>
    constructor
    · show c.counters.rootStarts = c.counters.rootCompletions + c.counters.rootTimeouts
        + ofNat 64 (NestedController.roots c
          + (w.discardedRoots + NestedController.roots w.controller))
      rw [hcounters, roots_eq hafter, length_nil, Nat.zero_min, Nat.zero_add, Nat.add_comm]
      exact hr
    · show c.counters.nestedStarts = c.counters.nestedCompletions + c.counters.nestedTimeouts
        + ofNat 64 (NestedController.children c
          + (w.discardedChildren + NestedController.children w.controller))
      rw [hcounters, children_eq hafter, length_nil, Nat.zero_sub, Nat.zero_add, Nat.add_comm]
      exact hc

/-! ## Commits -/

/-- The frame below has seen at least the commits of the one above it. -/
def InOrder (l : List Frame) : Prop :=
  l.Pairwise fun f g => g.committedInstructions ≤ f.committedInstructions

/-- No frame has seen more commits than there were since the root started, unless its count has come
    round. -/
def Counts (w : Watched p) : Prop := w.rootCommits < 2 ^ 32 → InOrder w.controller.stack ∧
    ∀ f ∈ w.controller.stack, f.committedInstructions.toNat ≤ w.rootCommits

/-- A commit seen by all the frames. -/
theorem InOrder.bump (h : InOrder l) {n : Nat} (hn : n + 1 < 2 ^ 32)
    (hle : ∀ f ∈ l, f.committedInstructions.toNat ≤ n) :
    InOrder (l.map Frame.bump) ∧ ∀ f ∈ l.map Frame.bump, f.committedInstructions.toNat ≤ n + 1 := by
  have hnext : ∀ f ∈ l, (f.bump).committedInstructions.toNat = f.committedInstructions.toNat + 1 := by
    intro f hf
    have hf' := hle f hf
    show (f.committedInstructions + 1).toNat = _
    exact Nat.mod_eq_of_lt (by show f.committedInstructions.toNat + 1 < 2 ^ 32; omega)
  constructor
  · unfold InOrder
    rw [pairwise_map]
    apply h.imp_of_mem
    intro f g hf hg hfg
    rw [le_def] at hfg ⊢
    rw [hnext f hf, hnext g hg]
    omega
  · intro f hf
    obtain ⟨f', hf', rfl⟩ := mem_map.mp hf
    have hle' := hle f' hf'
    rw [hnext f' hf']
    omega

theorem Counts.note {w : Watched p} (h : Counts w) {c : Controller p}
    (heffect : Effect w.controller e c r) : Counts (note w e c r) := by
  -- without a new root the count does not go back
  have hgrows : r.event ≠ .Started → w.rootCommits ≤ (NestedController.note w e c r).rootCommits := by
    intro hevent
    cases e <;> simp [NestedController.note, hevent]
  intro hlt
  cases heffect with
  | root hbefore hafter hid hcounters hr =>
    show InOrder c.stack ∧ ∀ f ∈ c.stack, _
    rw [hafter]
    refine ⟨pairwise_singleton _ _, ?_⟩
    intro f hf
    rw [mem_singleton.mp hf]
    exact Nat.zero_le _
  | nested hbefore hafter hid hcounters hr =>
    obtain ⟨-, hle⟩ := h hlt
    show InOrder c.stack ∧ ∀ f ∈ c.stack, f.committedInstructions.toNat ≤ w.rootCommits
    rw [hafter]
    constructor
    · refine pairwise_cons.mpr ⟨?_, pairwise_singleton _ _⟩
      intro g hg
      rw [mem_singleton.mp hg, le_def]
      exact Nat.zero_le _
    · intro g hg
      rcases mem_cons.mp hg with rfl | hnew
      · exact hle _ (hbefore ▸ mem_singleton_self _)
      · rw [mem_singleton.mp hnew]
        exact Nat.zero_le _
  | @completed e c r below f hbefore hafter hid hcounters hr he =>
    have hgrow := hgrows (by rw [hr.1]; nofun)
    obtain ⟨horder, hle⟩ := h (by omega)
    rw [hbefore] at horder hle
    show InOrder c.stack ∧ ∀ f ∈ c.stack, _
    rw [hafter]
    refine ⟨(pairwise_append.mp horder).1, fun g hg => ?_⟩
    exact Nat.le_trans (hle g (mem_append_left _ hg)) hgrow
  | timedOut hbefore hafter hid hcounters hr =>
    have hlt' : w.rootCommits + 1 < 2 ^ 32 := hlt
    obtain ⟨horder, hle⟩ := h (by omega)
    rw [hbefore] at horder hle
    show InOrder c.stack ∧ ∀ f ∈ c.stack, f.committedInstructions.toNat ≤ w.rootCommits + 1
    rw [hafter]
    exact InOrder.bump (pairwise_append.mp horder).1 hlt' fun g hg =>
      hle g (mem_append_left _ hg)
  | counted hafter hid hcounters hr =>
    have hlt' : w.rootCommits + 1 < 2 ^ 32 := hlt
    obtain ⟨horder, hle⟩ := h (by omega)
    show InOrder c.stack ∧ ∀ f ∈ c.stack, f.committedInstructions.toNat ≤ w.rootCommits + 1
    rw [hafter]
    exact InOrder.bump horder hlt' hle
  | rejected hevent hr he =>
    have hgrow := hgrows (by rcases hevent with rfl | rfl | rfl <;> rw [hr] <;> nofun)
    obtain ⟨horder, hle⟩ := h (by omega)
    exact ⟨horder, fun g hg => Nat.le_trans (hle g hg) hgrow⟩
  | reset hafter hid hcounters hr =>
    show InOrder c.stack ∧ ∀ f ∈ c.stack, _
    rw [hafter]
    exact ⟨List.Pairwise.nil, nofun⟩

/-! ## Every sequence of calls -/

/-- What holds of every reachable state. -/
structure Sound (w : Watched p) : Prop where
  chain : Chain w.controller.keys
  accounts : Accounts w
  counts : Counts w
  life : w.started.length < 2 ^ 64 → Life w

theorem sound_init (p : Params) : Sound ({} : Watched p) := by
  have hstack : ({} : Watched p).controller.stack = [] := stack_of_idle rfl
  have hkeys : ({} : Watched p).controller.keys = [] := by rw [Controller.keys, hstack, map_nil]
  refine ⟨?_, ⟨rfl, rfl⟩, ?_, ?_⟩
  · rw [hkeys]
    trivial
  · intro _
    exact ⟨List.Pairwise.nil, nofun⟩
  · intro _
    refine ⟨rfl, rfl, ?_, ?_, ?_, ?_, nofun⟩
    · rw [hkeys]
      exact Perm.refl _
    · rw [hkeys]
      nofun
    · rw [hkeys]
      trivial
    · rw [hkeys]
      exact List.Pairwise.nil

theorem Sound.watch {w : Watched p} (h : Sound w) (e : Call) : Sound (watch w e) := by
  have heffect := call_effect w.controller e
  refine ⟨h.chain.effect heffect, h.accounts.note heffect, h.counts.note heffect, ?_⟩
  intro hbound
  have hgrows : w.started.length ≤ (NestedController.watch w e).started.length := by
    show _ ≤ (if _ then _ else _ : List _).length
    split_ifs <;> simp
  exact (h.life (by omega)).note heffect hbound

theorem sound_watched (p : Params) (es : List Call) : Sound (watched p es) :=
  List.foldlRecOn (motive := Sound) es _ (sound_init p) fun _ h e _ => h.watch e

/-- A rejected call counts the rejection and changes nothing else. -/
theorem rejected_unchanged (c : Controller p) (e : Call)
    (h : (call c e).2.event = .RejectedDepth ∨ (call c e).2.event = .RejectedParent ∨
      (call c e).2.event = .RejectedOrder) :
    (call c e).1 = { c with counters := c.counters.rejected (call c e).2.event } := by
  have heffect := call_effect c e
  generalize (call c e).1 = c', (call c e).2 = r at h heffect
  cases heffect with
  | rejected hevent hr he => rw [hr]
  | root hbefore hafter hid hcounters hr => simp [hr.1] at h
  | nested hbefore hafter hid hcounters hr => simp [hr.1] at h
  | completed hbefore hafter hid hcounters hr he => simp [hr.1] at h
  | timedOut hbefore hafter hid hcounters hr => simp [hr.1] at h
  | counted hafter hid hcounters hr => simp [hr] at h
  | reset hafter hid hcounters hr => simp [hr] at h

/-- Where the parent has ended, so has the child. -/
theorem Life.child_ended {w : Watched p} (h : Life w) (hbound : w.started.length < 2 ^ 64)
    {key : DiscoveryId × DiscoveryId} (hkey : key ∈ w.started) (hparent : key.2 ≠ 0)
    (hended : key.2 ∈ w.ended) : key.1 ∈ w.ended := by
  have hnodup := h.perm.nodup_iff.mpr (h.nodup hbound)
  rw [nodup_append, nodup_append] at hnodup
  obtain ⟨⟨-, -, hdisc⟩, -, hon⟩ := hnodup
  have hchild := h.perm.mem_iff.mpr (mem_map_of_mem (f := Prod.fst) hkey)
  rw [mem_append, mem_append] at hchild
  rcases hchild with (hdone | hdiscarded) | hactive
  · exact hdone
  · exact absurd rfl (hdisc _ hended _ (h.discarded key hkey hparent hdiscarded))
  · exact absurd rfl (hon _ (mem_append_left _ hended) _ (h.parent_mem hbound hkey hparent hactive))

/-- The life of the discoveries, in every sequence of calls. -/
theorem nested_lifecycle (p : Params) (es : List Call) :
    let w := watched p es
    let c := w.controller
    let s := c.counters
    Chain c.keys ∧
    s.rootStarts = s.rootCompletions + s.rootTimeouts + ofNat 64 (roots c + w.discardedRoots) ∧
    s.nestedStarts = s.nestedCompletions + s.nestedTimeouts
      + ofNat 64 (children c + w.discardedChildren) ∧
    (∀ e, (call c e).2.event = .RejectedDepth ∨ (call c e).2.event = .RejectedParent ∨
        (call c e).2.event = .RejectedOrder →
      (call c e).1 = { c with counters := s.rejected (call c e).2.event }) ∧
    (w.started.length < 2 ^ 64 →
      (w.started.map Prod.fst).Pairwise (· < ·) ∧ (c.keys.map Prod.fst).Pairwise (· < ·) ∧
      (∀ id, w.ended.count id + w.discarded.count id + (c.keys.map Prod.fst).count id
        = (w.started.map Prod.fst).count id) ∧
      ∀ key ∈ w.started, key.2 ≠ 0 → key.2 ∈ w.ended → key.1 ∈ w.ended) ∧
    (w.rootCommits < 2 ^ 32 → InOrder c.stack) := by
  intro w c s
  have h := sound_watched p es
  refine ⟨h.chain, h.accounts.roots, h.accounts.children, rejected_unchanged c, ?_,
    fun hlt => (h.counts hlt).1⟩
  intro hbound
  have hlife := h.life hbound
  refine ⟨hlife.increasing hbound, hlife.above, ?_, fun key => hlife.child_ended hbound⟩
  intro id
  have hcount := perm_iff_count.mp hlife.perm id
  rw [count_append, count_append] at hcount
  exact hcount

/-- The largest bound on the commits of a discovery. -/
def longest : Params := ⟨allOnes 32, by decide⟩

/-- A root, its child and a commit. -/
theorem nested_lifecycle_child :
    InOrder (watched longest [.startRoot 4 0, .startNested 1 8 1, .observeCommit 12 2]).controller.stack :=
  (nested_lifecycle longest [.startRoot 4 0, .startNested 1 8 1, .observeCommit 12 2]).2.2.2.2.2
    (by decide)

/-! ## Where the counters come round -/

/-- A controller whose root has seen `k` commits. -/
def rootAfter (k : Nat) : Controller longest where
  frames := update (fun _ => {}) 0 ⟨1, 0, 0, 0, ofNat 32 k⟩
  activeDepth := 1
  nextId := 2
  counters := { rootStarts := 1 }

theorem call_rootAfter (hk : k + 1 < 2 ^ 32 - 1) :
    (call (rootAfter k) (.observeCommit 4 0)).1 = rootAfter (k + 1) := by
  have hcount : (rootAfter k).countCommit = rootAfter (k + 1) := by
    have hframes : (rootAfter k).countCommit.frames = (rootAfter (k + 1)).frames := by
      funext i
      match i with
      | 0 => exact congrArg (Frame.mk 1 0 0 0) (ofNat_add k 1).symm
      | 1 => rfl
    exact Controller.ext hframes rfl rfl rfl
  have hactive : ¬ (rootAfter k).activeDepth = 0 := Nat.one_ne_zero
  have hsingle : ¬ (1 < (rootAfter k).activeDepth ∧ (rootAfter k).top.triggerSequence < 0 ∧
      4 = (rootAfter k).top.triggerPC) := fun h => absurd h.1 (Nat.lt_irrefl 1)
  have hlow : ¬ longest.maxInstructions ≤ (rootAfter (k + 1)).top.committedInstructions := by
    show ¬ allOnes 32 ≤ ofNat 32 (k + 1)
    rw [le_def, BitVec.toNat_allOnes, toNat_ofNat, Nat.mod_eq_of_lt (by omega)]
    omega
  show ((rootAfter k).observeCommit 4 0).1 = _
  unfold Controller.observeCommit
  rw [if_neg hactive, if_neg hsingle, hcount, if_neg hlow]

/-- A root that sees `k` commits, and then a child that sees two. -/
def longRoot (k : Nat) : List Call := .startRoot 0 0 :: replicate k (.observeCommit 4 0)
    ++ [.startNested 1 8 0, .observeCommit 4 0, .observeCommit 4 0]

theorem controller_replicate (k : Nat) (hk : k < 2 ^ 32 - 1) :
    (watched longest (.startRoot 0 0 :: replicate k (.observeCommit 4 0))).controller
      = rootAfter k := by
  induction k with
  | zero => rfl
  | succ k ih =>
    rw [replicate_succ', ← cons_append, watched, foldl_append]
    show (call (watched longest _).controller _).1 = _
    rw [ih (by omega)]
    exact call_rootAfter (by omega)

theorem controller_longRoot (hk : k < 2 ^ 32 - 1) :
    (watched longest (longRoot k)).controller = (call (call (call (rootAfter k)
      (.startNested 1 8 0)).1 (.observeCommit 4 0)).1 (.observeCommit 4 0)).1 := by
  rw [longRoot, watched, foldl_append, ← controller_replicate k hk]
  rfl

/-- The count of the root has come round, and the child has seen more. -/
theorem longRoot_overtaken : ¬ InOrder (watched longest (longRoot (2 ^ 32 - 2))).controller.stack := by
  rw [controller_longRoot (by omega)]
  unfold InOrder
  decide

/-- Roots that are started and discarded at once. -/
def resets : Nat → List Call
  | 0 => []
  | k + 1 => resets k ++ [.startRoot 0 0, .reset]

theorem watched_resets (k : Nat) : (watched longest (resets k)).controller.activeDepth = 0 ∧
    (watched longest (resets k)).controller.nextId = idAt k ∧
    (watched longest (resets k)).started.map Prod.fst = (range k).map idAt := by
  induction k with
  | zero => exact ⟨rfl, rfl, rfl⟩
  | succ k ih =>
    obtain ⟨hidle, hid, hstarted⟩ := ih
    have hrun : watched longest (resets (k + 1))
        = watch (watch (watched longest (resets k)) (.startRoot 0 0)) .reset := by
      rw [resets, watched, foldl_append]
      rfl
    have hstart : call (watched longest (resets k)).controller (.startRoot 0 0)
        = (watched longest (resets k)).controller.startRoot 0 0 := rfl
    have hidle' : ¬ (watched longest (resets k)).controller.activeDepth ≠ 0 := not_not.mpr hidle
    unfold Controller.startRoot at hstart
    rw [if_neg hidle'] at hstart
    rw [hrun]
    refine ⟨rfl, ?_, ?_⟩
    · show (call (watched longest (resets k)).controller (.startRoot 0 0)).1.nextId = _
      rw [hstart, hid]
      exact (ofNat_add (k + 1) 1).symm
    · have hnew : (watch (watch (watched longest (resets k)) (.startRoot 0 0)) .reset).started
          = (watched longest (resets k)).started
            ++ [((watched longest (resets k)).controller.nextId, 0)] := by
        show (if (call (watched longest (resets k)).controller (.startRoot 0 0)).2.event = .Started
          then _ else _) = _
        rw [hstart]
        rfl
      rw [hnew, map_append, hstarted, hid, range_succ, map_append]
      rfl

/-- After `2^64 - 1` starts the identifiers begin again at zero. -/
theorem resets_repeat (hk : 2 ^ 64 ≤ k) :
    ¬ ((watched longest (resets k)).started.map Prod.fst).Pairwise (· < ·) := by
  obtain ⟨-, -, hids⟩ := watched_resets k
  rw [hids, pairwise_map]
  intro h
  have hlt := pairwise_iff_getElem.mp h 0 (2 ^ 64 - 1) (by rw [length_range]; omega)
    (by rw [length_range]; omega) (by omega)
  rw [getElem_range, getElem_range] at hlt
  exact absurd hlt (by decide)

/-- A root that lives long enough has seen fewer commits than its child; and an identifier that is
    handed out often enough is below an earlier one. -/
theorem nested_wraps : ¬ InOrder (watched longest (longRoot (2 ^ 32 - 2))).controller.stack ∧
    ¬ ((watched longest (resets (2 ^ 64))).started.map Prod.fst).Pairwise (· < ·) :=
  ⟨longRoot_overtaken, resets_repeat (Nat.le_refl _)⟩

end Gem5Dvr.NestedController
