/-
  The helper subthread as a state machine (`DVRHelperThread`, `cpu/o3/cpu.hh` 1766-2614) and the
  places of the CPU that drive it (`cpu.cc`: `tick` 1457-1548, `issueDVRHelperCompute` 4990-5087,
  `serviceDVRPrefetchRequest` 5106-5334, `completeDVRPrefetch` 5336-5635, `startDVRHelper` 5637).

  1. **Program** — the counters and queues of the thread and its functions under their names; the
     replay lanes are those of `Gem5Dvr.ReplayLanes`.  What the rest of the CPU decides (widths,
     free buffer entries, issue slots, functional units, whether a request is sent) is input.

  2. **Specification** — `Sound`: an Idle thread has nothing left, so that the `begin` of the next
     launch, which clears everything, discards nothing; and `outstanding` counts the requests in
     flight.

  3. **Result (`sound_iff`)** — a run is `Sound` throughout exactly when `KeepsWork` admits it.  Two
     steps go to Idle on counters alone: `advanceFrontend`, when nothing is left to fetch, decode
     or issue, and `complete`, when the last request of a DRAINING thread returns.  Neither looks at
     the lanes or the issue queue.

  The counters are natural numbers: none reaches 2^32 before that many captured uops wait at once.
  Ticks, PCs, the scoreboard and the statistics decide nothing here that is not input, and are left
  out.
-/
import Gem5Dvr.Lib.Trace
import Gem5Dvr.ReplayLanes

namespace Gem5Dvr.HelperThread

open List

open ReplayLanes (Template Lane Helper Config Env)

/-! ## The thread -/

/-- What the thread is doing. -/
inductive State where
  | Idle | Fetch | Decode | Running | Draining
  deriving DecidableEq, Repr

/-- The functional units. -/
inductive ComputeKind where
  | Alu | Add | Shift | Multiply
  deriving DecidableEq, Repr

/-- A launch whose program is fetched for its lanes. -/
structure ReplayGeneration where
  program : Option Template := none
  workUnits : Nat := 0
  unit : Nat := 0
  uop : Nat := 0

/-- `DVRInstructionRecorder::ResourceCounts`, without the count of loads. -/
structure ResourceCounts where
  alu : Nat := 0
  shift : Nat := 0
  multiply : Nat := 0
  deriving DecidableEq, Repr

/-- The parameters of the CPU. -/
structure Cpu extends Config where
  dvrVectorChunkModel : Bool
  dvrElementsPerChunk : Nat

/-- The counters of the thread, and its queues. -/
structure Thread where
  state : State := .Idle
  maxUops : Nat := 0
  issuedUops : Nat := 0
  outstanding : Nat := 0
  fetchRemaining : Nat := 0
  decodeRemaining : Nat := 0
  readyUops : Nat := 0
  aluRemaining : Nat := 0
  shiftRemaining : Nat := 0
  multiplyRemaining : Nat := 0
  vectorChunkModel : Bool := false
  issueQueue : List ComputeKind := []
  replayGenerations : List ReplayGeneration := []
  lanes : Helper

/-- The entries of the issue queue. -/
def IssueQueueCapacity : Nat := 8

/-- The class of a captured uop. -/
def computeKind (uop : Uop) : ComputeKind :=
  match uop.semantic with
  | .ShiftLeft | .ShiftRightLogical | .ShiftRightArithmetic | .ShiftLeftImmediate
  | .ShiftLeftWordImmediate | .ShiftRightLogicalImmediate | .ShiftRightArithmeticImmediate
  | .ShiftRightLogicalWordImmediate | .ShiftRightArithmeticWordImmediate => .Shift
  | .Multiply | .MultiplyWord => .Multiply
  | .Add | .Sub | .AddWord | .SubWord | .AddImmediate | .AddWordImmediate | .LoadAddress
  | .LoadByteSigned | .LoadByteUnsigned | .LoadHalfSigned | .LoadHalfUnsigned
  | .LoadWordSigned | .LoadWordUnsigned | .LoadDouble => .Add
  | _ => .Alu

namespace Thread

variable (t : Thread)

/-- It has something to do. -/
def active : Bool := t.state != .Idle

/-- A computation waits for a unit. -/
def computePending : Bool :=
  t.aluRemaining != 0 || t.shiftRemaining != 0 || t.multiplyRemaining != 0 ||
    !t.issueQueue.isEmpty || !t.replayGenerations.isEmpty || !t.lanes.replayLanes.isEmpty

/-- The lanes are cleared together with their reconvergence contexts. -/
def clearLanes : Helper := { t.lanes with replayLanes := [], context := fun _ => {} }

/-- A launch takes the thread. -/
def begin (uops units budget : Nat) (resources : ResourceCounts) (vector_model replay : Bool) :
    Thread :=
  let skip := replay && vector_model
  let fetch := min (uops * units) budget
  { state := if fetch = 0 then .Idle else .Fetch
    maxUops := budget
    fetchRemaining := fetch
    aluRemaining := if skip then 0 else resources.alu
    shiftRemaining := if skip then 0 else resources.shift
    multiplyRemaining := if skip then 0 else resources.multiply
    vectorChunkModel := vector_model
    lanes := t.clearLanes }

/-- A launch is added to the one that runs. -/
def extend (uops units : Nat) (resources : ResourceCounts) (vector_model replay : Bool) : Thread :=
  if t.state = .Idle then t.begin uops units t.maxUops resources vector_model replay
  else
    let generation_uops := min (uops * units) t.maxUops
    let skip := replay && vector_model
    { t with
      fetchRemaining := t.fetchRemaining + generation_uops
      maxUops := t.maxUops + generation_uops
      aluRemaining := t.aluRemaining + if skip then 0 else resources.alu
      shiftRemaining := t.shiftRemaining + if skip then 0 else resources.shift
      multiplyRemaining := t.multiplyRemaining + if skip then 0 else resources.multiply
      vectorChunkModel := vector_model
      state := if t.state = .Draining ∨ t.state = .Decode then .Fetch else t.state }

/-- The end of `advanceFrontend`. -/
def frontendState : State :=
  if t.fetchRemaining = 0 ∧ t.decodeRemaining = 0 ∧ t.readyUops = 0 ∧ t.outstanding = 0 then .Idle
  else if t.readyUops ≠ 0 then .Running
  else if t.fetchRemaining ≠ 0 then .Fetch
  else .Decode

/-- Fetch and decode up to their widths. -/
def advanceFrontend (fetch_width decode_width buffer_space : Nat) : Thread :=
  if t.state = .Idle ∨ t.state = .Draining then t
  else
    let fetched := min fetch_width (min t.fetchRemaining buffer_space)
    let decodable := t.decodeRemaining + fetched
    let decoded := min decode_width decodable
    let t := { t with
      fetchRemaining := t.fetchRemaining - fetched
      decodeRemaining := decodable - decoded
      readyUops := t.readyUops + decoded }
    { t with state := t.frontendState }

/-- A lane has work for the thread: one issue credit, if there is none. -/
def wakeForLane : Thread :=
  if t.readyUops = 0 then { t with readyUops := 1, state := .Running } else t

end Thread

/-- A generation in one round of `refillIssueQueue`: what is left of it, and the entry it gives.  The
    loads themselves are requests; only the computation of their address is an entry. -/
def ReplayGeneration.round (g : ReplayGeneration) : Option ReplayGeneration × Option ComputeKind :=
  match g.program with
  | none => (none, none)
  | some program =>
    if g.workUnits = 0 then (none, none)
    else if program.count ≤ g.uop then
      if g.workUnits ≤ g.unit + 1 then (none, none)
      else (some { g with uop := 0, unit := g.unit + 1 }, none)
    else
      let uop := program.uop g.uop
      (some { g with uop := g.uop + 1 },
        if uop.load && uop.semantic != .LoadAddress then none else some (computeKind uop))

/-- The rounds of `refillIssueQueue` that a generation can still take. -/
def ReplayGeneration.rounds (g : ReplayGeneration) : Nat :=
  match g.program with
  | none => 1
  | some program =>
    (g.workUnits - g.unit) * (program.count + 1) + (program.count - g.uop) + 1

namespace Thread

variable (t : Thread)

/-- The turns that the refill can take. -/
def refillRounds : Nat :=
  (t.replayGenerations.map ReplayGeneration.rounds).sum + t.aluRemaining + t.shiftRemaining +
    t.multiplyRemaining

/-- One round of `refillIssueQueue`; `none` is its end. -/
def refillRound : Option Thread :=
  if t.issueQueue.length < IssueQueueCapacity then
    match t.replayGenerations with
    | generation :: rest =>
      some { t with
        replayGenerations := generation.round.1.toList ++ rest
        issueQueue := t.issueQueue ++ generation.round.2.toList }
    | [] =>
      if t.aluRemaining ≠ 0 then
        some { t with
          aluRemaining := t.aluRemaining - 1, issueQueue := t.issueQueue ++ [.Alu] }
      else if t.shiftRemaining ≠ 0 then
        some { t with
          shiftRemaining := t.shiftRemaining - 1, issueQueue := t.issueQueue ++ [.Shift] }
      else if t.multiplyRemaining ≠ 0 then
        some { t with
          multiplyRemaining := t.multiplyRemaining - 1, issueQueue := t.issueQueue ++ [.Multiply] }
      else none
  else none

/-- The loop of a refill. -/
def refillLoop : Nat → Thread → Thread
  | 0, t => t
  | fuel + 1, t =>
    match t.refillRound with
    | none => t
    | some t => refillLoop fuel t

/-- The issue queue is filled while it has room. -/
def refillIssueQueue : Thread :=
  if t.vectorChunkModel then refillLoop t.refillRounds t else t

/-- One issue credit, if a computation is left once the frontend has run dry. -/
def refillComputeReady : Thread :=
  let t := t.refillIssueQueue
  if !t.computePending || t.readyUops != 0 || t.fetchRemaining != 0 || t.decodeRemaining != 0 then t
  else { t with state := .Running, readyUops := 1 }

/-- A request may be sent. -/
def canIssue (source_request : Bool) : Bool :=
  t.state == .Running && t.readyUops != 0 && decide (t.issuedUops < t.maxUops) &&
    (source_request || !t.computePending)

/-- A request at the head of the queue gets an issue credit. -/
def wakeForMemoryRequest : Thread :=
  { t with
    state := if t.state = .Idle ∨ t.state = .Draining then .Running else t.state
    readyUops := if t.readyUops = 0 then 1 else t.readyUops
    maxUops := if t.maxUops ≤ t.issuedUops then t.issuedUops + 1 else t.maxUops }

/-- All that was captured is issued. -/
def exhausted : Bool :=
  decide (t.maxUops ≤ t.issuedUops) && t.readyUops == 0 && t.fetchRemaining == 0 &&
    t.decodeRemaining == 0

/-- The head of the issue queue gets its unit. -/
def issueCompute : Thread :=
  let t := { t with
    issueQueue := t.issueQueue.tail, issuedUops := t.issuedUops + 1, readyUops := t.readyUops - 1 }
  if t.exhausted && t.outstanding == 0 && !t.computePending then { t with state := .Draining } else t

/-- A chunk of lanes is issued. -/
def issueReplayChunk : Thread :=
  let t := { t with issuedUops := t.issuedUops + 1, readyUops := t.readyUops - 1 }
  if t.exhausted && t.outstanding == 0 && t.lanes.replayLanes.isEmpty then
    { t with state := .Draining }
  else t

/-- A request is sent. -/
def issue : Thread :=
  let t := { t with
    issuedUops := t.issuedUops + 1, readyUops := t.readyUops - 1, outstanding := t.outstanding + 1 }
  if t.exhausted then { t with state := .Draining } else t

/-- A request is answered. -/
def complete : Thread :=
  let t := { t with outstanding := t.outstanding - 1 }
  if t.state = .Draining ∧ t.outstanding = 0 then { t with state := .Idle } else t

end Thread

/-! ## The CPU around it -/

/-- A call of `issueDVRReplayLanes` that issues a chunk, and so calls `issueReplayChunk`. -/
def issuesChunk (c : Config) (env : Env) (h : Helper) : Bool :=
  if !env.capacity || h.replayLanes.isEmpty then false
  else
    let h := { h with replayLanes := h.replayLanes.filter (ReplayLanes.alive c) }
    if h.replayLanes.isEmpty || !env.readyUops then false
    else
      match ReplayLanes.chooseContext c env h with
      | none => false
      | some g =>
        let h := ReplayLanes.reconverge c g h
        let slots := ReplayLanes.pickChunk c env g h
        match slots.find? Prod.snd with
        | none => false
        | some (seed, _) =>
          let op := (c.template g).uop seed.uopIndex
          let group := (slots.map Prod.fst).filter fun l =>
            ReplayLanes.inCurrentGroup g (h.context g) l && l.uopIndex == seed.uopIndex
          (!op.conditional ||
            !group.isEmpty && group.all (ReplayLanes.sourcesReady c env.now h.readyAt)) &&
            env.decoded && env.granted

/-- What the CPU decides for one `issueDVRHelperCompute`: whether an issue slot is left, the call of
    `issueDVRReplayLanes`, whether the head of the issue queue is ready and gets its unit, and the
    units that the scalar model gets. -/
structure ComputeEnv where
  slots : Bool := true
  replay : Env := {}
  granted : Bool := true
  scalar : ResourceCounts := {}

/-- Issue the lanes of the chunk. -/
def issueDVRReplayLanes (cpu : Cpu) (env : Env) (t : Thread) : Thread :=
  let env := { env with readyUops := t.readyUops != 0 }
  let issued := if issuesChunk cpu.toConfig env t.lanes then t.issueReplayChunk else t
  { issued with lanes := (ReplayLanes.issueDVRReplayLanes cpu.toConfig env t.lanes).1 }

/-- The computation of a cycle. -/
def issueDVRHelperCompute (cpu : Cpu) (e : ComputeEnv) (t : Thread) : Thread :=
  if !e.slots then t
  else if cpu.dvrVectorChunkModel then
    let t := t.refillComputeReady
    if !t.lanes.replayLanes.isEmpty then issueDVRReplayLanes cpu e.replay t
    else
      let t := t.refillIssueQueue
      if t.issueQueue.isEmpty || t.readyUops == 0 || !e.granted then t else t.issueCompute
  else
    { t with
      aluRemaining := t.aluRemaining - e.scalar.alu
      shiftRemaining := t.shiftRemaining - e.scalar.shift
      multiplyRemaining := t.multiplyRemaining - e.scalar.multiply }

/-- The chunks of so many lanes, or the lanes. -/
def dvrHelperWorkUnits (cpu : Cpu) (lanes : Nat) : Nat :=
  if cpu.dvrVectorChunkModel then
    (lanes + cpu.dvrElementsPerChunk - 1) / cpu.dvrElementsPerChunk
  else lanes

/-- A launch starts the thread or extends it. -/
def startDVRHelper (cpu : Cpu) (program_uops lanes : Nat) (resources : ResourceCounts)
    (replay : Bool) (t : Thread) : Thread :=
  if program_uops = 0 ∨ lanes = 0 then t
  else
    let work_units := dvrHelperWorkUnits cpu lanes
    let helper_resources : ResourceCounts :=
      { alu := resources.alu * work_units
        shift := resources.shift * work_units
        multiply := resources.multiply * work_units }
    if t.active then
      t.extend program_uops work_units helper_resources cpu.dvrVectorChunkModel replay
    else
      t.begin program_uops work_units cpu.dvrHelperMaxUops helper_resources
        cpu.dvrVectorChunkModel replay

/-- A response, as far as the helper is concerned: the value of a source lane, with the generation
    of its replay template if it has one; the value of a dependent load; nothing. -/
inductive Response where
  | source (gen : Option Nat) (lane : Fin 128) (value : RegVal)
  | dependent (gen : Nat) (lane : Fin 128) (load_pc : Addr) (value : RegVal)
  | noData

/-- `enqueueReplayLane` or `resumeDependentLane` returns true. -/
def revives (cpu : Cpu) (t : Thread) : Response → Bool
  | .source (some gen) _ _ =>
    cpu.dvrVectorChunkModel && decide (1 < (cpu.template gen).count) &&
      (cpu.template gen).triggerDestination.isSome
  | .source none _ _ => false
  | .dependent gen lane load_pc _ =>
    load_pc != 0 &&
      (t.lanes.replayLanes.find? (ReplayLanes.parkedAt cpu.toConfig gen lane load_pc)).isSome
  | .noData => false

/-- The lanes after the response. -/
def received (cpu : Cpu) (lanes : Helper) : Response → Helper
  | .source (some gen) lane value => ReplayLanes.enqueueReplayLane cpu.toConfig lanes gen lane value
  | .source none _ _ => lanes
  | .dependent gen lane load_pc value =>
    ReplayLanes.resumeDependentLane cpu.toConfig lanes gen lane load_pc value
  | .noData => lanes

/-- `completeDVRPrefetch` up to and including `complete()`. -/
def completeDVRPrefetch (cpu : Cpu) (r : Response) (t : Thread) : Thread :=
  let t := if revives cpu t r then { t with lanes := received cpu t.lanes r }.wakeForLane else t
  t.complete

/-! ## Runs -/

/-- The steps.  One `tick` is an `advanceFrontend`, a `compute`, some `service`s, the `start`s of
    commit and some more `service`s; a `response` comes between two of them, and a `start` may
    follow it. -/
inductive Event where
  | advanceFrontend (fetch_width decode_width buffer_space : Nat)
  | compute (e : ComputeEnv)
  | service (sent : Bool)
  | start (program_uops lanes : Nat) (resources : ResourceCounts) (replay : Bool)
  | response (r : Response)

/-- The thread, and the requests that are sent and not answered. -/
structure System where
  thread : Thread
  inFlight : Nat := 0

/-- One call of `serviceDVRPrefetchRequest` with a ready request at the head of the queue. -/
def service (sent : Bool) (s : System) : System :=
  let t := s.thread.wakeForMemoryRequest
  if t.canIssue true && sent then ⟨t.issue, s.inFlight + 1⟩ else { s with thread := t }

/-- An event of the CPU. -/
def step (cpu : Cpu) (s : System) : Event → System
  | .advanceFrontend fetch_width decode_width buffer_space =>
    { s with thread := s.thread.advanceFrontend fetch_width decode_width buffer_space }
  | .compute e => { s with thread := issueDVRHelperCompute cpu e s.thread }
  | .service sent => service sent s
  | .start program_uops lanes resources replay =>
    { s with thread := startDVRHelper cpu program_uops lanes resources replay s.thread }
  | .response r => ⟨completeDVRPrefetch cpu r s.thread, s.inFlight - 1⟩

/-- No launch yet. -/
def start (cpu : Cpu) : System := ⟨{ lanes := ReplayLanes.start cpu.toConfig }, 0⟩

/-- A response answers a request. -/
def answers (s : System) : Event → Prop
  | .response _ => 0 < s.inFlight
  | _ => True

/-! ## Specification -/

/-- A lane is active or an entry waits to be issued. -/
def Live (t : Thread) : Prop :=
  (∃ l ∈ t.lanes.replayLanes, l.active = true) ∨ t.issueQueue ≠ [] ∨ t.replayGenerations ≠ []

/-- An Idle thread has nothing left, and `outstanding` counts the requests in flight. -/
def Sound (s : System) : Prop :=
  (s.thread.state = .Idle → ¬ Live s.thread ∧ s.thread.outstanding = 0) ∧
    s.thread.outstanding = s.inFlight

/-- The steps that do not go to Idle over live work: the frontend does not run dry with nothing
    outstanding, and the last request of a draining thread does not return without waking a lane. -/
def KeepsWork (cpu : Cpu) (s : System) : Event → Prop
  | .advanceFrontend _ _ _ =>
    (s.thread.state ≠ .Idle ∧ s.thread.state ≠ .Draining ∧ s.thread.fetchRemaining = 0 ∧
      s.thread.decodeRemaining = 0 ∧ s.thread.readyUops = 0 ∧ s.thread.outstanding = 0) →
        ¬ Live s.thread
  | .response r =>
    (s.thread.state = .Draining ∧ s.thread.outstanding = 1 ∧ revives cpu s.thread r = false) →
      ¬ Live s.thread
  | _ => True

/-! ## `refillIssueQueue` -/

/-- Two threads that differ at most in the compute side: the counters of uops by class, the issue
    queue and the generations behind it. -/
structure SameFront (t t' : Thread) : Prop where
  state : t'.state = t.state
  outstanding : t'.outstanding = t.outstanding
  fetchRemaining : t'.fetchRemaining = t.fetchRemaining
  decodeRemaining : t'.decodeRemaining = t.decodeRemaining
  readyUops : t'.readyUops = t.readyUops
  lanes : t'.lanes = t.lanes

theorem SameFront.refl (t : Thread) : SameFront t t := ⟨rfl, rfl, rfl, rfl, rfl, rfl⟩

variable {t : Thread} {n : Nat}

theorem SameFront.trans {t' t'' : Thread} (h : SameFront t t') (h' : SameFront t' t'') :
    SameFront t t'' :=
  ⟨h'.state.trans h.state, h'.outstanding.trans h.outstanding,
    h'.fetchRemaining.trans h.fetchRemaining, h'.decodeRemaining.trans h.decodeRemaining,
    h'.readyUops.trans h.readyUops, h'.lanes.trans h.lanes⟩

/-- A generation loses a round with each round. -/
theorem ReplayGeneration.rounds_round (g : ReplayGeneration) :
    (g.round.1.toList.map ReplayGeneration.rounds).sum < g.rounds := by
  unfold ReplayGeneration.round
  cases hprogram : g.program with
  | none => simp [ReplayGeneration.rounds, hprogram]
  | some program =>
    simp only
    split
    · simp [ReplayGeneration.rounds, hprogram]
    split
    · split
      · simp [ReplayGeneration.rounds, hprogram]
      · rename_i hcount hlast
        have hunits : g.workUnits - g.unit = g.workUnits - (g.unit + 1) + 1 := by omega
        simp only [Option.toList_some, map_cons, map_nil, sum_cons, sum_nil,
          ReplayGeneration.rounds, hprogram]
        rw [hunits, Nat.add_mul]
        omega
    · simp only [Option.toList_some, map_cons, map_nil, sum_cons, sum_nil,
        ReplayGeneration.rounds, hprogram]
      omega

/-- One round: the front is untouched, and there is one round less to go. -/
theorem refillRound_spec {t' : Thread} (h : t.refillRound = some t') :
    SameFront t t' ∧ t'.refillRounds < t.refillRounds := by
  unfold Thread.refillRound at h
  by_cases hroom : t.issueQueue.length < IssueQueueCapacity
  · rw [if_pos hroom] at h
    cases hgens : t.replayGenerations with
    | cons generation rest =>
      simp only [hgens, Option.some.injEq] at h
      subst h
      refine ⟨⟨rfl, rfl, rfl, rfl, rfl, rfl⟩, ?_⟩
      have hround := generation.rounds_round
      simp only [Thread.refillRounds, hgens, map_append, sum_append, map_cons, sum_cons]
      omega
    | nil =>
      simp only [hgens] at h
      split_ifs at h <;> cases h
      all_goals
        refine ⟨⟨rfl, rfl, rfl, rfl, rfl, rfl⟩, ?_⟩
        simp only [Thread.refillRounds, hgens]
        omega
  · rw [if_neg hroom] at h
    cases h

theorem refillLoop_sameFront : ∀ (fuel : Nat) (t : Thread), SameFront t (Thread.refillLoop fuel t)
  | 0, t => SameFront.refl t
  | fuel + 1, t => by
    rw [Thread.refillLoop]
    cases h : t.refillRound with
    | none => exact SameFront.refl t
    | some t' => exact (refillRound_spec h).1.trans (refillLoop_sameFront fuel t')

theorem refillIssueQueue_sameFront (t : Thread) : SameFront t t.refillIssueQueue := by
  unfold Thread.refillIssueQueue
  split_ifs
  · exact refillLoop_sameFront _ t
  · exact SameFront.refl t

/-! ## The invariant -/

/-- Whatever the guard: a thread that is Idle or Draining has nothing to fetch, decode or issue, an
    Idle one has nothing outstanding, and `outstanding` counts. -/
structure Counted (s : System) : Prop where
  quiet : s.thread.state = .Idle ∨ s.thread.state = .Draining →
    s.thread.fetchRemaining = 0 ∧ s.thread.decodeRemaining = 0 ∧ s.thread.readyUops = 0
  idle : s.thread.state = .Idle → s.thread.outstanding = 0
  inFlight : s.thread.outstanding = s.inFlight

/-- The counts are right, and an idle thread has nothing left. -/
structure Inv (s : System) : Prop extends Counted s where
  drained : s.thread.state = .Idle → ¬ Live s.thread

theorem Inv.sound {s : System} (h : Inv s) : Sound s :=
  ⟨fun hidle => ⟨h.drained hidle, h.idle hidle⟩, h.inFlight⟩

theorem inv_start (cpu : Cpu) : Inv (start cpu) where
  quiet _ := ⟨rfl, rfl, rfl⟩
  idle _ := rfl
  inFlight := rfl
  drained _ := by
    rintro (⟨l, hl, -⟩ | hqueue | hgens)
    · cases hl
    · exact hqueue rfl
    · exact hgens rfl

variable {cpu : Cpu} {s : System}

/-- A thread that neither is Idle nor drains. -/
theorem inv_of_busy (hidle : t.state ≠ .Idle) (hdrain : t.state ≠ .Draining)
    (hn : t.outstanding = n) : Inv ⟨t, n⟩ where
  quiet h := by
    rcases h with h | h
    · exact absurd h hidle
    · exact absurd h hdrain
  idle h := absurd h hidle
  inFlight := hn
  drained h := absurd h hidle

/-- A thread that drains. -/
theorem inv_of_draining (hstate : t.state = .Draining)
    (hquiet : t.fetchRemaining = 0 ∧ t.decodeRemaining = 0 ∧ t.readyUops = 0)
    (hn : t.outstanding = n) : Inv ⟨t, n⟩ where
  quiet _ := hquiet
  idle h := by rw [hstate] at h; cases h
  inFlight := hn
  drained h := by rw [hstate] at h; cases h

theorem frontendState_ne_draining (t : Thread) : t.frontendState ≠ .Draining := by
  unfold Thread.frontendState
  split_ifs <;> exact fun h => by cases h

theorem frontendState_idle (h : t.frontendState = .Idle) :
    t.fetchRemaining = 0 ∧ t.decodeRemaining = 0 ∧ t.readyUops = 0 ∧ t.outstanding = 0 := by
  unfold Thread.frontendState at h
  split_ifs at h with hzero
  exact hzero

theorem Inv.advanceFrontend (h : Inv s) (fetch_width decode_width buffer_space : Nat)
    (hok : KeepsWork cpu s (.advanceFrontend fetch_width decode_width buffer_space)) :
    Inv (step cpu s (.advanceFrontend fetch_width decode_width buffer_space)) := by
  show Inv ⟨s.thread.advanceFrontend fetch_width decode_width buffer_space, s.inFlight⟩
  unfold Thread.advanceFrontend
  split_ifs with hstate
  · exact h
  · obtain ⟨hidle, hdrain⟩ := not_or.mp hstate
    refine ⟨⟨fun hquiet => ?_, fun hi => ?_, h.inFlight⟩, fun hi => ?_⟩
    · rcases hquiet with hi | hd
      · obtain ⟨hf, hde, hr, -⟩ := frontendState_idle hi
        exact ⟨hf, hde, hr⟩
      · exact absurd hd (frontendState_ne_draining _)
    · exact (frontendState_idle hi).2.2.2
    · -- what is fetched is decodable, what is decoded is ready: the counters were zero before
      obtain ⟨hf, hde, hr, ho⟩ := frontendState_idle hi
      simp only at hf hde hr ho
      exact hok ⟨hidle, hdrain, by omega, by omega, by omega, ho⟩

/-- A thread without pending computation has no live work. -/
theorem not_live_of_not_pending (h : t.computePending = false) : ¬ Live t := by
  simp only [Thread.computePending, Bool.or_eq_false_iff, Bool.not_eq_false', List.isEmpty_iff] at h
  obtain ⟨⟨⟨-, hqueue⟩, hgens⟩, hlanes⟩ := h
  rintro (⟨l, hl, -⟩ | hq | hg)
  · rw [hlanes] at hl
    cases hl
  · exact hq hqueue
  · exact hg hgens

/-- `refillComputeReady` wakes a quiet thread that has something to compute. -/
theorem Inv.refillComputeReady (h : Inv s) : Inv ⟨s.thread.refillComputeReady, s.inFlight⟩ ∧
      (s.thread.refillComputeReady.state = .Idle ∨ s.thread.refillComputeReady.state = .Draining →
        s.thread.refillComputeReady.computePending = false) := by
  have hsame := refillIssueQueue_sameFront s.thread
  unfold Thread.refillComputeReady
  simp only
  split_ifs with hstay
  · have hpending : s.thread.refillIssueQueue.state = .Idle ∨
        s.thread.refillIssueQueue.state = .Draining →
          s.thread.refillIssueQueue.computePending = false := by
      intro hstate
      rw [hsame.state] at hstate
      -- nothing to fetch, decode or issue: only the missing computation is left
      obtain ⟨hf, hd, hr⟩ := h.quiet hstate
      rw [hsame.fetchRemaining, hsame.decodeRemaining, hsame.readyUops, hf, hd, hr] at hstay
      simpa using hstay
    refine ⟨⟨⟨fun hstate => ?_, fun hidle => ?_, ?_⟩, fun hidle => ?_⟩, hpending⟩
    · simp only [hsame.state] at hstate
      simp only [hsame.fetchRemaining, hsame.decodeRemaining, hsame.readyUops]
      exact h.quiet hstate
    · simp only [hsame.state] at hidle
      simp only [hsame.outstanding]
      exact h.idle hidle
    · simp only [hsame.outstanding]
      exact h.inFlight
    · exact not_live_of_not_pending (hpending (.inl hidle))
  · refine ⟨inv_of_busy (by simp) (by simp) ?_, by simp⟩
    simp only [hsame.outstanding]
    exact h.inFlight

theorem refillIssueQueue_of_not_pending (h : t.computePending = false) :
    t.refillIssueQueue = t := by
  simp only [Thread.computePending, Bool.or_eq_false_iff, Bool.not_eq_false', List.isEmpty_iff,
    bne_eq_false_iff_eq] at h
  obtain ⟨⟨⟨⟨⟨halu, hshift⟩, hmultiply⟩, -⟩, hgens⟩, -⟩ := h
  have hrounds : t.refillRounds = 0 := by simp [Thread.refillRounds, halu, hshift, hmultiply, hgens]
  rw [Thread.refillIssueQueue, hrounds]
  split_ifs <;> rfl

theorem exhausted_quiet (h : t.exhausted = true) :
    t.fetchRemaining = 0 ∧ t.decodeRemaining = 0 ∧ t.readyUops = 0 := by
  simp only [Thread.exhausted, Bool.and_eq_true, beq_iff_eq] at h
  exact ⟨h.1.2, h.2, h.1.1.2⟩

theorem inv_issueReplayChunk (hidle : t.state ≠ .Idle)
    (hdrain : t.state ≠ .Draining) (hn : t.outstanding = n) (lanes : Helper) :
    Inv ⟨{ t.issueReplayChunk with lanes := lanes }, n⟩ := by
  unfold Thread.issueReplayChunk
  simp only
  split_ifs with hlast
  · simp only [Bool.and_eq_true] at hlast
    exact inv_of_draining rfl (exhausted_quiet hlast.1.1) hn
  · exact inv_of_busy hidle hdrain hn

theorem inv_issueCompute (hidle : t.state ≠ .Idle)
    (hdrain : t.state ≠ .Draining) (hn : t.outstanding = n) : Inv ⟨t.issueCompute, n⟩ := by
  unfold Thread.issueCompute
  simp only
  split_ifs with hlast
  · simp only [Bool.and_eq_true] at hlast
    exact inv_of_draining rfl (exhausted_quiet hlast.1.1) hn
  · exact inv_of_busy hidle hdrain hn

theorem Inv.compute (h : Inv s) (e : ComputeEnv) : Inv (step cpu s (.compute e)) := by
  show Inv ⟨issueDVRHelperCompute cpu e s.thread, s.inFlight⟩
  unfold issueDVRHelperCompute
  split_ifs with hslots hvector
  · exact h
  · obtain ⟨hready, hpending⟩ := h.refillComputeReady
    generalize s.thread.refillComputeReady = t at hready hpending
    simp only
    split_ifs with hlanes hqueue
    · -- lanes are pending: the thread runs
      have hcompute : t.computePending = true := by
        simp only [Thread.computePending, Bool.or_eq_true]
        exact .inr hlanes
      have hbusy : ¬ (t.state = .Idle ∨ t.state = .Draining) := by
        intro hstate
        rw [hpending hstate] at hcompute
        cases hcompute
      obtain ⟨hidle, hdrain⟩ := not_or.mp hbusy
      unfold issueDVRReplayLanes
      simp only
      split_ifs
      · exact inv_issueReplayChunk hidle hdrain hready.inFlight _
      · exact inv_of_busy hidle hdrain hready.inFlight
    · -- nothing is issued; the queue may have been filled up again
      have hsame := refillIssueQueue_sameFront t
      by_cases hstate : t.state = .Idle ∨ t.state = .Draining
      · rw [refillIssueQueue_of_not_pending (hpending hstate)]
        exact hready
      · obtain ⟨hidle, hdrain⟩ := not_or.mp hstate
        exact inv_of_busy (hsame.state ▸ hidle) (hsame.state ▸ hdrain)
          (hsame.outstanding.trans hready.inFlight)
    · have hsame := refillIssueQueue_sameFront t
      have hbusy : ¬ (t.state = .Idle ∨ t.state = .Draining) := by
        intro hstate
        have hzero := (hready.quiet hstate).2.2
        simp only [Bool.or_eq_true, not_or, beq_iff_eq] at hqueue
        exact hqueue.1.2 (hsame.readyUops.trans hzero)
      obtain ⟨hidle, hdrain⟩ := not_or.mp hbusy
      exact inv_issueCompute (hsame.state ▸ hidle) (hsame.state ▸ hdrain)
        (hsame.outstanding.trans hready.inFlight)
  · exact ⟨⟨h.quiet, h.idle, h.inFlight⟩, h.drained⟩

theorem Inv.service (h : Inv s) (sent : Bool) : Inv (step cpu s (.service sent)) := by
  show Inv (HelperThread.service sent s)
  have hidle : s.thread.wakeForMemoryRequest.state ≠ .Idle := by
    simp only [Thread.wakeForMemoryRequest]
    split_ifs with hstate
    · simp
    · exact (not_or.mp hstate).1
  have hdrain : s.thread.wakeForMemoryRequest.state ≠ .Draining := by
    simp only [Thread.wakeForMemoryRequest]
    split_ifs with hstate
    · simp
    · exact (not_or.mp hstate).2
  have hout : s.thread.wakeForMemoryRequest.outstanding = s.inFlight := h.inFlight
  unfold HelperThread.service
  generalize s.thread.wakeForMemoryRequest = t at hidle hdrain hout
  simp only
  split_ifs
  · unfold Thread.issue
    simp only
    split_ifs with hlast
    · exact inv_of_draining rfl (exhausted_quiet hlast) (by rw [hout])
    · exact inv_of_busy hidle hdrain (by rw [hout])
  · exact inv_of_busy hidle hdrain hout

theorem not_live_begin (t : Thread) (uops units budget : Nat) (resources : ResourceCounts)
    (vector_model replay : Bool) :
    ¬ Live (t.begin uops units budget resources vector_model replay) := by
  rintro (⟨l, hl, -⟩ | hqueue | hgens)
  · cases hl
  · exact hqueue rfl
  · exact hgens rfl

theorem Inv.start (h : Inv s) (program_uops lanes : Nat) (resources : ResourceCounts)
    (replay : Bool) : Inv (step cpu s (.start program_uops lanes resources replay)) := by
  show Inv ⟨startDVRHelper cpu program_uops lanes resources replay s.thread, s.inFlight⟩
  unfold startDVRHelper
  split_ifs with hnone hactive
  · exact h
  · -- an active thread is extended
    have hidle : s.thread.state ≠ .Idle := by simpa [Thread.active] using hactive
    unfold Thread.extend
    rw [if_neg hidle]
    refine inv_of_busy ?_ ?_ h.inFlight
    · simp only
      split_ifs
      · simp
      · exact hidle
    · simp only
      split_ifs with hstate
      · simp
      · exact (not_or.mp hstate).1
  · -- an Idle one begins anew, with nothing in flight
    have hidle : s.thread.state = .Idle := by simpa [Thread.active] using hactive
    have hzero : s.inFlight = 0 := h.inFlight.symm.trans (h.idle hidle)
    refine ⟨⟨fun hstate => ?_, fun _ => rfl, hzero.symm⟩, fun _ => not_live_begin _ _ _ _ _ _ _⟩
    simp only [Thread.begin] at hstate
    split_ifs at hstate with hfetch
    · exact ⟨hfetch, rfl, rfl⟩
    · simp at hstate

/-- A thread that a response has woken does not go to Idle. -/
theorem inv_complete_of_busy (hidle : t.state ≠ .Idle)
    (hdrain : t.state ≠ .Draining) (hn : t.outstanding = n) : Inv ⟨t.complete, n - 1⟩ := by
  unfold Thread.complete
  rw [if_neg (fun hlast => hdrain hlast.1)]
  exact inv_of_busy hidle hdrain (by rw [hn])

theorem Inv.response (h : Inv s) (r : Response) (hanswer : 0 < s.inFlight)
    (hok : KeepsWork cpu s (.response r)) : Inv (step cpu s (.response r)) := by
  show Inv ⟨completeDVRPrefetch cpu r s.thread, s.inFlight - 1⟩
  have hidle : s.thread.state ≠ .Idle := by
    intro hidle
    have := h.idle hidle
    have := h.inFlight
    omega
  unfold completeDVRPrefetch
  split_ifs with hrevives
  · unfold Thread.wakeForLane
    split_ifs with hready
    · exact inv_complete_of_busy (by simp) (by simp) h.inFlight
    · refine inv_complete_of_busy hidle (fun hdrain => hready ?_) h.inFlight
      exact (h.quiet (.inr hdrain)).2.2
  · by_cases hdrain : s.thread.state = .Draining
    · have hquiet := h.quiet (.inr hdrain)
      have hcount := h.inFlight
      unfold Thread.complete
      simp only
      split_ifs with hlast
      · refine ⟨⟨fun _ => hquiet, fun _ => hlast.2, by simp only [hcount]⟩, fun _ => ?_⟩
        refine hok ⟨hdrain, ?_, by simpa using hrevives⟩
        omega
      · exact inv_of_draining hdrain hquiet (by simp only [hcount])
    · exact inv_complete_of_busy hidle hdrain h.inFlight

theorem Inv.step (h : Inv s) (e : Event) (hanswer : answers s e) (hok : KeepsWork cpu s e) :
    Inv (step cpu s e) := by
  cases e with
  | advanceFrontend fetch_width decode_width buffer_space => exact h.advanceFrontend _ _ _ hok
  | compute e => exact h.compute e
  | service sent => exact h.service sent
  | start program_uops lanes resources replay => exact h.start _ _ _ _
  | response r => exact h.response r hanswer hok

/-- A step the guard refuses goes to Idle over live work. -/
theorem not_sound_of_refused (e : Event) (hok : ¬ KeepsWork cpu s e) :
    ¬ Sound (HelperThread.step cpu s e) := by
  cases e with
  | compute e => exact absurd trivial hok
  | service sent => exact absurd trivial hok
  | start program_uops lanes resources replay => exact absurd trivial hok
  | advanceFrontend fetch_width decode_width buffer_space =>
    simp only [KeepsWork, Classical.not_imp, not_not] at hok
    obtain ⟨⟨hidle, hdrain, hf, hd, hr, ho⟩, hlive⟩ := hok
    intro hsound
    have hstep : (HelperThread.step cpu s (.advanceFrontend fetch_width decode_width
        buffer_space)).thread = { s.thread with state := .Idle } := by
      show s.thread.advanceFrontend fetch_width decode_width buffer_space = _
      unfold Thread.advanceFrontend
      rw [if_neg (not_or.mpr ⟨hidle, hdrain⟩)]
      simp [hf, hd, hr, ho, Thread.frontendState]
    rw [Sound, hstep] at hsound
    exact (hsound.1 rfl).1 hlive
  | response r =>
    simp only [KeepsWork, Classical.not_imp, not_not] at hok
    obtain ⟨⟨hdrain, ho, hrevives⟩, hlive⟩ := hok
    intro hsound
    have hstep : (HelperThread.step cpu s (.response r)).thread =
        { s.thread with state := .Idle, outstanding := 0 } := by
      show completeDVRPrefetch cpu r s.thread = _
      simp [completeDVRPrefetch, hrevives, Thread.complete, hdrain, ho]
    rw [Sound, hstep] at hsound
    exact (hsound.1 rfl).1 hlive

/-- The helper never discards live work, exactly in the runs whose steps keep it. -/
theorem sound_iff (cpu : Cpu) (es : List Event)
    (hlegal : Trace.Admits answers (HelperThread.step cpu) (HelperThread.start cpu) es) :
    (∀ pre, pre <+: es → Sound (pre.foldl (HelperThread.step cpu) (HelperThread.start cpu))) ↔
      Trace.Admits (KeepsWork cpu) (HelperThread.step cpu) (HelperThread.start cpu) es :=
  hlegal.iff_prefix Inv Sound (fun _ e h hanswer hok => h.step e hanswer hok)
    (fun _ h => h.sound) (fun _ e _ _ hok => not_sound_of_refused e hok) (inv_start cpu)

/-! ### A lane that is lost -/

/-- A trigger, an addition and a load, replayed for two lanes. -/
def pair : Cpu where
  template _ :=
    { triggerPC := 0x10, triggerDestination := some 5
      uops := [{ pc := 0x10, load := true, semantic := .LoadDouble, destination := some 5 },
        { pc := 0x14, semantic := .Add, source0 := some 5, source1 := some 5,
          destination := some 6 },
        { pc := 0x18, semantic := .LoadDouble, load := true, tainted := true, source0 := some 6,
          destination := some 7 }] }
  dvrHelperMaxUops := 64
  dvrVectorChunkModel := true
  dvrElementsPerChunk := 8

/-- The two source requests are sent; no lane yet. -/
def pairSent : List Event :=
  [.start 3 2 {} true, .service false, .advanceFrontend 4 4 8, .compute {}, .service true,
    .service true]

/-- Lane 0 answers, executes, and has no load to make; lane 1 answers meanwhile.  Three uops were
    captured and three are issued when lane 1 has its turn, and the main thread takes all slots. -/
def pairLost : List Event :=
  pairSent ++ [.response (.source (some 0) 0 0), .advanceFrontend 4 4 8, .compute {},
    .response (.source (some 0) 1 0x4000), .advanceFrontend 4 4 8, .compute {},
    .advanceFrontend 4 4 8, .compute { slots := false }]

instance : DecidablePred Live := fun t =>
  decidable_of_iff (t.lanes.replayLanes.any Lane.active = true ∨ t.issueQueue.isEmpty = false ∨
    t.replayGenerations.isEmpty = false) (by simp [Live])

instance (cpu : Cpu) (s : System) : DecidablePred (KeepsWork cpu s)
  | .advanceFrontend _ _ _ => inferInstanceAs (Decidable (_ → _))
  | .response _ => inferInstanceAs (Decidable (_ → _))
  | .compute _ => instDecidableTrue
  | .service _ => instDecidableTrue
  | .start _ _ _ _ => instDecidableTrue

instance (s : System) : DecidablePred (answers s)
  | .response _ => inferInstanceAs (Decidable (0 < _))
  | .advanceFrontend _ _ _ => instDecidableTrue
  | .compute _ => instDecidableTrue
  | .service _ => instDecidableTrue
  | .start _ _ _ _ => instDecidableTrue

/-- Both sources in flight: nothing is lost so far. -/
theorem sound_pairSent : Trace.Admits answers (step pair) (start pair) pairSent ∧
    ∀ pre, pre <+: pairSent → Sound (pre.foldl (step pair) (start pair)) :=
  ⟨by decide +kernel, (sound_iff pair pairSent (by decide +kernel)).mpr (by decide +kernel)⟩

/-- The thread is Idle with lane 1 active, and the next launch clears it. -/
theorem lane_lost : Trace.Admits answers (step pair) (start pair) pairLost ∧
    ¬ Sound (pairLost.foldl (step pair) (start pair)) ∧
    ((pairLost ++ [Event.start 3 2 {} true]).foldl (step pair)
      (start pair)).thread.lanes.replayLanes = [] := by
  refine ⟨by decide +kernel, fun h => ?_, by decide +kernel⟩
  have hidle : (pairLost.foldl (step pair) (start pair)).thread.state = .Idle := by decide +kernel
  have hlive : Live (pairLost.foldl (step pair) (start pair)).thread := by decide +kernel
  exact (h.1 hidle).1 hlive

end Gem5Dvr.HelperThread
