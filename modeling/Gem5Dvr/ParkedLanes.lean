/-
  Replay lanes and the requests they wait for (`cpu/o3/cpu.cc` 3809-5635, `cpu.hh` 2174-2286).

  A lane of a template that continues past its load gives the load to the prefetch queue and is
  PARKED (`lanePC = 0`) until the value returns; a lane of a deferred path is BLOCKED until its
  frame is popped.  Here the helper of `ReplayLanes` and the queue of `PrefetchQueue` are one
  machine:

    1. the machine: launches, `issueDVRReplayLanes`, `serviceDVRPrefetchRequest`, and
       `completeDVRPrefetch` with the lanes it starts and resumes;
    2. what it should keep: a parked lane has exactly one request under way, and a blocked lane is
       named by a frame of its stack (`Awake`);
    3. what a step must find for that (`Keeps`).

  Every launch makes its helper register file, so the number of the launch stands for the file, its
  template and its reconvergence state.  `dvrVectorChunkModel` is on: else there are no lanes.
-/
import Gem5Dvr.PrefetchQueue
import Gem5Dvr.ReplayChain

namespace Gem5Dvr.ParkedLanes

open ReplayLanes (Template Lane Frame Helper Fate)
open PrefetchQueue (Prefetch Packet System Launch Answer Invocation Target)

/-! ## The machine -/

/-- What a run does not change. -/
structure Config where
  queue : PrefetchQueue.Config
  dvrHelperMaxUops : Nat

/-- The same, as the replay lanes see it. -/
def Config.helper (c : Config) : ReplayLanes.Config where
  template := c.queue.template
  dvrHelperMaxUops := c.dvrHelperMaxUops
  dvrEnableDependentPrefetch := c.queue.dvrEnableDependentPrefetch

def Config.template (c : Config) (g : Nat) : Template := c.queue.template g

structure Machine where
  queue : System := {}
  helper : Helper
  launches : Nat := 0

def start (c : Config) : Machine where
  helper := ReplayLanes.start c.helper

/-- The bytes of a response as the uop reads them. -/
def loadValue (uop : Uop) (raw : RegVal) : RegVal :=
  match uop.semantic with
  | .LoadByteSigned => (raw.setWidth 8).signExtend 64
  | .LoadByteUnsigned => (raw.setWidth 8).setWidth 64
  | .LoadHalfSigned => (raw.setWidth 16).signExtend 64
  | .LoadHalfUnsigned => (raw.setWidth 16).setWidth 64
  | .LoadWordSigned => (raw.setWidth 32).signExtend 64
  | .LoadWordUnsigned => (raw.setWidth 32).setWidth 64
  | _ => raw

/-- The value of a dependent response: the first uop past the trigger with the PC of the request. -/
def dependentValue (p : Template) (pc : Addr) (raw : RegVal) : RegVal :=
  match p.uops.tail.find? fun uop => uop.pc == pc with
  | some uop => loadValue uop raw
  | none => raw

/-- What a lane carries from its launch into its requests. -/
structure Carried where
  tid : Nat := 0
  nested : Bool := false
  relations : List PrefetchQueue.Affine := []
  predicate : Option Nat := none

/-- A lane has come to a tainted load. -/
def ask (c : Config) (readyTick : Nat) (carried : Nat → Carried) (s : System) : Fate → System
  | .requested gen lane pc address =>
    PrefetchQueue.replayInsert c.queue
      { address, pc, readyTick, tid := (carried gen).tid, nested := (carried gen).nested,
        relations := (carried gen).relations, replay := gen, predicate := (carried gen).predicate,
        lane := lane } s
  | _ => s

/-- One call of `issueDVRReplayLanes`, with the requests of its lanes. -/
def issue (c : Config) (env : ReplayLanes.Env) (carried : Nat → Carried) (m : Machine) : Machine :=
  let (helper, report) := ReplayLanes.issueDVRReplayLanes c.helper env m.helper
  { m with helper := helper, queue := report.fates.foldl (ask c env.readyTick carried) m.queue }

/-- The response carries a value that a lane has asked for. -/
def valueResponse (c : Config) (p : Prefetch) : Bool :=
  !p.source && p.replay.any fun g => (c.template g).continuePastFLR

/-- The part of `completeDVRPrefetch` that starts or resumes a lane. -/
def wake (c : Config) (p : Prefetch) (a : Answer) (h : Helper) : Helper :=
  match p.replay with
  | none => h
  | some g =>
    if hlane : p.lane < 128 then
      if !a.hasData then h
      else if p.source then
        ReplayLanes.enqueueReplayLane c.helper h g ⟨p.lane, hlane⟩
          (loadValue ((c.template g).uop 0) a.raw)
      else if valueResponse c p then
        ReplayLanes.resumeDependentLane c.helper h g ⟨p.lane, hlane⟩ p.pc
          (dependentValue (c.template g) p.pc a.raw)
      else h
    else h

/-- `completeDVRPrefetch`; the helper takes every source value of a template it can replay. -/
def complete (c : Config) (pkt : Packet) (a : Answer) (m : Machine) : Machine := { m with
    queue := PrefetchQueue.completeDVRPrefetch c.queue pkt
      { a with helperReplays := pkt.request.replay.any (ReplayLanes.accepts c.helper) } m.queue
    helper := wake c pkt.request a m.helper }

/-- A call.  A launch is given its number. -/
inductive Event
  | stride (l : Launch) (current_address stride : Addr) (lanes : Nat) (vectorized : Bool)
  | nested (l : Launch) (invocations : List Invocation) (vectorized : Bool)
  | vector (tid : Nat) (current_address pc stride : Addr)
  | oracle (tid : Nat) (futures : List Addr)
  | demand (address : Addr)
  | issue (env : ReplayLanes.Env) (carried : Nat → Carried)
  | service (env : PrefetchQueue.Env)
  | complete (helperLoadId : Nat) (a : Answer)

/-- The launch with its own helper registers. -/
def Machine.number (m : Machine) (l : Launch) : Launch :=
  { l with replay := l.replay.map fun _ => m.launches }

def next (c : Config) (m : Machine) : Event → Machine
  | .stride l a d n v =>
    { m with
      queue := PrefetchQueue.launchDVRStridePrefetches (m.number l) a d n v m.queue
      launches := m.launches + 1 }
  | .nested l is v =>
    { m with
      queue := PrefetchQueue.launchNested (m.number l) is v m.queue
      launches := m.launches + 1 }
  | .vector tid a pc d =>
    { m with queue := PrefetchQueue.vectorRunahead c.queue tid a pc d m.queue }
  | .oracle tid fs => { m with queue := PrefetchQueue.oracle tid fs m.queue }
  | .demand a =>
    { m with queue := { m.queue with
        dvrDependentCompletedLines :=
          m.queue.dvrDependentCompletedLines.erase (c.queue.dvrPrefetchLine a) } }
  | .issue env carried => issue c env carried m
  | .service env => { m with queue := PrefetchQueue.serviceDVRPrefetchRequest c.queue env m.queue }
  | .complete id a =>
    match m.queue.inFlight.find? fun pkt => pkt.helperLoadId == id with
    | some pkt => complete c pkt a m
    | none => m

/-! ## Awake -/

/-- The requests under way, queued or in flight. -/
def underWay (s : System) : List Prefetch := s.dvrPrefetchQueue ++ s.inFlight.map Packet.request

/-- The lane waits for a value. -/
def parked (l : Lane) : Bool := l.active && l.lanePC == 0

/-- The request returns the value that the lane waits for, if it is parked. -/
def answers (c : Config) (l : Lane) (p : Prefetch) : Bool :=
  !p.source && p.replay == some l.gen && (c.template l.gen).continuePastFLR &&
    p.lane == l.lane.val && p.pc == ((c.template l.gen).uop l.uopIndex).pc

/-- No lane is parked or blocked for ever. -/
structure Awake (c : Config) (m : Machine) : Prop where
  waiting : ∀ l ∈ m.helper.replayLanes, parked l = true →
    (underWay m.queue).countP (answers c l) = 1
  blocked : ∀ l ∈ m.helper.replayLanes, l.active = true → l.reconvergenceBlocked = true →
    ∃ f ∈ (m.helper.context l.gen).stack, f.mask l.lane = true

/-! ## What a step must find -/

/-- Popping `frame` is safe for the lane: it is resumed at a PC, or it does not stand where the
    frame reconverges, or a frame below releases it. -/
def released (g : Nat) (frame : Frame) (rest : List Frame) (l : Lane) : Bool :=
  !(l.active && l.gen == g) ||
    if frame.mask l.lane then frame.pc != 0
    else l.lanePC != frame.reconvergencePC || rest.any fun f => f.mask l.lane

/-- So it is for every frame that the pop loop pops. -/
def releases (g : Nat) : List Frame → List Lane → Bool
  | [], _ => true
  | frame :: rest, lanes =>
    !ReplayLanes.pops lanes g frame || (lanes.all (released g frame rest) &&
        releases g rest (lanes.map (ReplayLanes.popLane g frame)))

/-- The call pops frames safely. -/
def popsSafely (c : Config) (env : ReplayLanes.Env) (h : Helper) : Bool :=
  let h := { h with replayLanes := h.replayLanes.filter (ReplayLanes.alive c.helper) }
  !env.capacity || !env.readyUops || (ReplayLanes.chooseContext c.helper env h).all fun g =>
      releases g (h.context g).stack h.replayLanes

def isRequest : Fate → Bool
  | .requested .. => true
  | _ => false

/-- A lane that parks finds a place in the queue, and none of its requests for this load under
    way. -/
def finds (c : Config) (s : System) (fates : List Fate) : Fate → Bool
  | .requested gen lane pc _ =>
    !(c.template gen).continuePastFLR ||
      (decide (s.dvrPrefetchQueue.length + fates.countP isRequest ≤
          PrefetchQueue.DvrMaxQueuedPrefetches) &&
        (underWay s).all fun p =>
          p.source || p.replay != some gen || p.lane != lane.val || p.pc != pc)
  | _ => true

/-- A parked lane waits for the request. -/
def awaited (c : Config) (h : Helper) (p : Prefetch) : Bool :=
  h.replayLanes.any fun l => parked l && answers c l p

/-- The request that the service routine tries to send. -/
def tried (env : PrefetchQueue.Env) (s : System) : Option Prefetch :=
  if env.canIssue && env.budget &&
      decide (s.dvrHelperLoadQueueOccupancy < PrefetchQueue.DvrHelperLoadQueueCapacity) then
    s.dvrPrefetchQueue.head?.filter fun p => decide (p.readyTick ≤ env.now) && env.freeEntry p.tid
  else none

/-- The request stays in one line and is translated. -/
def sendable (c : Config) (env : PrefetchQueue.Env) (p : Prefetch) : Bool :=
  decide (c.queue.lineOffset p.address + c.queue.dvrPrefetchBytes p ≤ c.queue.cacheLineSize) &&
    !env.fault

/-- The uops that a lane executes have PCs: 0 stands for none. -/
def hasPCs (p : Template) : Bool := p.uops.tail.all fun uop => uop.pc != 0

/-- What a step must find. -/
def Keeps (c : Config) (m : Machine) : Event → Bool
  | .stride l _ _ _ _ => l.replay.isNone || hasPCs (c.template m.launches)
  | .nested l _ _ => l.replay.isNone || hasPCs (c.template m.launches)
  | .issue env _ =>
    let fates := (ReplayLanes.issueDVRReplayLanes c.helper env m.helper).2.fates
    popsSafely c env m.helper && fates.all (finds c m.queue fates)
  | .service env =>
    (tried env m.queue).all fun p => !awaited c m.helper p || sendable c env p
  | .complete id a =>
    (m.queue.inFlight.find? fun pkt => pkt.helperLoadId == id).all fun pkt =>
      !awaited c m.helper pkt.request || a.hasData
  | _ => true

end Gem5Dvr.ParkedLanes
