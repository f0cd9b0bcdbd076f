/-
  One level-one data cache in timing mode with a quality probe (`mem/cache/base.cc`, `cache.cc`,
  `mshr.cc`, `cpu/o3/probe/dvr_quality_probe.cc`).

  1. **Request** — `recvTimingReq`: report an Issue, look the line up, report a Complete or a
     DemandLookup; a miss joins the MSHR of its line or allocates one.
  2. **Send** — an MSHR goes into service; from then on some new targets are deferred.
  3. **Response** — `recvTimingResp`: fill a block of the tags or the temporary block, report a
     Fill, serve targets, keep what is left for another round.
  4. **Snoop** — a request of another agent takes the block or its writability away, at once or,
     through a target of the MSHR, after the response.

  Every event goes through `handleEvent` to the tracker of `Gem5Dvr.QualityTracker`.

  Left to the environment: which victims are found, what the memory answers, the time.  All requests
  are non-secure.  Where the source asserts or the tracker throws, the simulation ends; such a step
  is left out of the run (`asserts`, `answers`).
-/
import Gem5Dvr.QualityTracker

namespace Gem5Dvr.L1

open Function

open Quality (Line Time RequestId FillOrigin Geometry)

/-! ## Requests -/

/-- The commands of a core. -/
inductive Cmd
  | ReadReq | LoadLockedReq | WriteReq | SwapReq | StoreCondReq | SoftPFReq | SoftPFExReq
  deriving DecidableEq, Repr

namespace Cmd

/-- Reads the block. -/
def isRead : Cmd → Bool
  | .WriteReq | .StoreCondReq => false
  | _ => true

/-- Writes the block. -/
def isWrite : Cmd → Bool
  | .WriteReq | .SwapReq | .StoreCondReq => true
  | _ => false

/-- Needs a writable block. -/
def needsWritable : Cmd → Bool
  | .WriteReq | .SwapReq | .StoreCondReq | .SoftPFExReq => true
  | _ => false

/-- A software prefetch. -/
def isSWPrefetch : Cmd → Bool
  | .SoftPFReq | .SoftPFExReq => true
  | _ => false

end Cmd

/-- The flags of a request: `DVR_SOURCE`, `DVR_DEPENDENT` (both with `DVR_PREFETCH`), `PREFETCH`
    alone, or none of them. -/
inductive Kind
  | demand | dvrSource | dvrDependent | prefetch
  deriving DecidableEq, Repr

/-- `DVRCacheQualityEvent::Origin`. -/
inductive Origin
  | Demand | DVR | OtherPrefetch
  deriving DecidableEq, Repr

namespace Kind

/-- A prefetch of the helper. -/
def isDVRPrefetch : Kind → Bool
  | .dvrSource | .dvrDependent => true
  | _ => false

/-- The origin that `recvTimingResp` reports for a fill. -/
def origin : Kind → Origin
  | .demand => .Demand
  | .dvrSource | .dvrDependent => .DVR
  | .prefetch => .OtherPrefetch

end Kind

/-- A request of the core or its helper; the helper only sends reads and read prefetches. -/
structure Packet where
  line : Line
  cmd : Cmd
  kind : Kind
  uncacheable : Bool := false
  dvr_reads : kind.isDVRPrefetch = true → cmd = .ReadReq ∨ cmd = .SoftPFReq := by decide

/-- The packet is a prefetch of the helper. -/
def Packet.isDVRPrefetch (pkt : Packet) : Bool := pkt.kind.isDVRPrefetch

/-- A snoop.  `buffered` is `isExpressSnoop() && downstreamPending`: the request of the MSHR still
    waits in a cache below, so that the snoop comes first. -/
structure Snoop where
  invalidate : Bool
  needsResponse : Bool := true
  uncacheable : Bool := false
  buffered : Bool := false

/-! ## MSHRs -/

/-- `MSHR::Target` with its source. -/
inductive Target
  | FromCPU (pkt : Packet)
  | FromPrefetcher
  | FromSnoop (snoop : Snoop)

namespace Target

/-- A target that is not a snoop and needs a writable block. -/
def needsWritable : Target → Bool
  | .FromCPU pkt => pkt.cmd.needsWritable
  | _ => false

/-- The target writes the block. -/
def isWrite : Target → Bool
  | .FromCPU pkt => pkt.cmd.isWrite
  | _ => false

/-- The target is a request of the core. -/
def fromCPU : Target → Bool
  | .FromCPU _ => true
  | _ => false

/-- The target is a prefetch of the cache. -/
def fromPrefetcher : Target → Bool
  | .FromPrefetcher => true
  | _ => false

/-- The target is a DVR request of the core. -/
def isDVR : Target → Bool
  | .FromCPU pkt => pkt.isDVRPrefetch
  | _ => false

/-- The origin of the request that the MSHR sends for this target. -/
def origin : Target → Origin
  | .FromCPU pkt => pkt.kind.origin
  | .FromPrefetcher => .OtherPrefetch
  | .FromSnoop _ => .Demand

end Target

/-- The responses of the memory side. -/
inductive RespCmd
  | ReadResp | ReadRespWithInvalidate | ReadExResp | UpgradeResp | UpgradeFailResp | InvalidateResp
  | HardPFResp | BadAddressError
  deriving DecidableEq, Repr

namespace RespCmd

/-- Brings data. -/
def isRead : RespCmd → Bool
  | .UpgradeResp | .InvalidateResp | .BadAddressError => false
  | _ => true

/-- Takes the copy away with the answer. -/
def isInvalidate : RespCmd → Bool
  | .ReadRespWithInvalidate | .InvalidateResp => true
  | _ => false

/-- The answer is an error. -/
def isError : RespCmd → Bool
  | .BadAddressError => true
  | _ => false

end RespCmd

/-- The outstanding miss of a line. -/
structure MSHR where
  targets : List Target
  deferredTargets : List Target := []
  inService : Bool := false
  pendingModified : Bool := false
  postInvalidate : Bool := false
  postDowngrade : Bool := false
  wasWholeLineWrite : Bool := false

namespace MSHR

variable (m : MSHR)

/-- A target needs a writable block. -/
def needsWritable : Bool := m.targets.any Target.needsWritable

/-- Some DVR request is a target. -/
def hasDVR : Bool := (m.targets ++ m.deferredTargets).any Target.isDVR

/-- The origin of the request that is sent: the first target's. -/
def origin : Origin := (m.targets.head?.map Target.origin).getD .Demand

/-- Whether `allocateTarget` defers a target. -/
def defers (pkt : Packet) : Bool := !m.deferredTargets.isEmpty ||
    m.inService && (m.postInvalidate ||
      pkt.cmd.needsWritable && (!m.pendingModified || m.postDowngrade))

/-- A further target, deferred where it has to be. -/
def allocateTarget (pkt : Packet) : MSHR :=
  if m.defers pkt then { m with deferredTargets := m.deferredTargets ++ [.FromCPU pkt] }
  else { m with targets := m.targets ++ [.FromCPU pkt] }

/-- `markInService`.  Only writes are merged into a whole line. -/
def markInService (pendingModifiedResp wholeLine : Bool) : MSHR :=
  { m with
    inService := true
    pendingModified := m.needsWritable || pendingModifiedResp
    postInvalidate := false
    postDowngrade := false
    wasWholeLineWrite := wholeLine && m.targets.head?.any Target.isWrite }

/-- `MSHR::handleSnoop`; the value returned says that the snoop need not go to the block now. -/
def handleSnoop (snoop : Snoop) : MSHR × Bool :=
  if !m.inService || snoop.buffered then (m, false)
  else if m.postInvalidate then (m, true)
  else
    let targets :=
      if m.pendingModified || snoop.invalidate then m.targets ++ [.FromSnoop snoop] else m.targets
    ({ m with
       targets := targets
       postInvalidate := snoop.invalidate
       postDowngrade := m.postDowngrade || !snoop.invalidate && !snoop.uncacheable },
      m.pendingModified && snoop.needsResponse)

/-- `promoteWritable`: without cache maintenance the whole list is promoted or nothing. -/
def promoteWritable : MSHR :=
  if m.deferredTargets.any Target.needsWritable && !(m.postInvalidate || m.postDowngrade) then
    { m with targets := m.targets ++ m.deferredTargets, deferredTargets := [] }
  else m

/-- `extractServiceableTargets`: the targets served and those left.  After an invalidation only the
    first one and the snoops are served. -/
def extractServiceableTargets (cmd : RespCmd) : List Target × List Target :=
  match cmd, m.targets with
  | .ReadRespWithInvalidate, first :: rest =>
      (first :: rest.filter (!·.fromCPU), rest.filter (·.fromCPU))
  | _, targets => (targets, [])

end MSHR

/-! ## Blocks, events and the state -/

/-- A valid `CacheBlk`. -/
structure CacheBlk where
  readable : Bool := false
  writable : Bool := false
  prefetched : Bool := false
  dvrPrefetched : Bool := false
  deriving DecidableEq, Repr

/-- The provenance that a Remove or a victim reports. -/
def CacheBlk.origin (b : CacheBlk) : Origin :=
  if b.dvrPrefetched then .DVR else if b.prefetched then .OtherPrefetch else .Demand

/-- `DVRCacheQualityEvent::Victim`. -/
structure Victim where
  line : Line
  origin : Origin
  deriving DecidableEq, Repr

/-- `DVRCacheQualityEvent`, by kind. -/
inductive QualityEvent
  | Issue (line : Line)
  | Complete (line : Line)
  | DemandLookup (line : Line) (hit : Bool)
  | Fill (line : Line) (origin : Origin) (victims : List Victim)
  | Remove (line : Line) (origin : Origin)

/-- The origin as the tracker has it. -/
def toFillOrigin : Origin → FillOrigin
  | .DVR => .DVR
  | _ => .Demand

/-- What became of a line from the fill that brought it to the end of its stay. -/
structure Residence where
  dvr : Bool
  touched : Bool
  refilled : Bool := false
  deriving DecidableEq, Repr

/-- The cache with its probe.  `uncached` are the MSHRs of uncacheable reads, which nothing joins;
    the last two fields are not in the source. -/
structure System (g : Geometry) where
  audit : Quality.Audit g := {}
  nextRequestId : RequestId := 1
  tags : Line → Option CacheBlk := fun _ => none
  tempBlock : Option CacheBlk := none
  mshrs : Line → Option MSHR := fun _ => none
  uncached : List Packet := []
  residence : Line → Option Residence := fun _ => none
  past : List Residence := []

/-- A block of the tags or the temporary block. -/
structure Place where
  line : Line
  temp : Bool := false

/-- `pkt` of `recvTimingResp`; `victims` are the blocks that `findVictim` proposes, `none` where no
    block is to be allocated or none can be. -/
structure Response where
  cmd : RespCmd
  hasSharers : Bool := false
  victims : Option (List Line) := some []

namespace System

variable {g : Geometry} (s : System g)

/-- `DVRQualityProbe::handleEvent`: what is reported to the tracker. -/
def reports (now : Time) : QualityEvent → List Quality.Event
  | .Issue line => [.issued s.nextRequestId line 0 now]
  | .Complete line => [.completedLine line]
  | .DemandLookup line hit => [.demandLookup line hit now]
  | .Fill line origin victims =>
      (match victims with
        | [] => [.cacheFill line (toFillOrigin origin) now none none]
        | primary :: rest =>
            .cacheFill line (toFillOrigin origin) now (some primary.line)
                (some (toFillOrigin primary.origin)) ::
              rest.map fun v => .cacheRemove v.line (toFillOrigin v.origin)) ++
      (if origin = .DVR then [.completedLine line] else [])
  | .Remove line origin => [.cacheRemove line (toFillOrigin origin)]

/-- `ppDVRQuality->notify`. -/
def notify (now : Time) (e : QualityEvent) : System g :=
  { s with
    audit := (s.reports now e).foldl Quality.step s.audit
    nextRequestId := match e with
      | .Issue _ => s.nextRequestId + 1
      | _ => s.nextRequestId }

/-- The block at a place. -/
def blk (p : Place) : Option CacheBlk := if p.temp then s.tempBlock else s.tags p.line

/-- Write a place. -/
def setBlk (p : Place) (b : Option CacheBlk) : System g :=
  if p.temp then { s with tempBlock := b } else { s with tags := update s.tags p.line b }

/-- A change of the coherence bits or of `_prefetched`. -/
def mapBlk (p : Place) (f : CacheBlk → CacheBlk) : System g := s.setBlk p ((s.blk p).map f)

/-- Write the MSHR of a line. -/
def setMSHR (line : Line) (m : Option MSHR) : System g := { s with mshrs := update s.mshrs line m }

/-- The stay of a line is over. -/
def endResidence (line : Line) : System g :=
  match s.residence line with
  | none => s
  | some r => { s with residence := update s.residence line none, past := r :: s.past }

/-- A demand lookup finds the line. -/
def touch (line : Line) : System g :=
  { s with residence := update s.residence line
             ((s.residence line).map fun r => { r with touched := true }) }

/-- The block leaves the tags. -/
def invalidateBlock (now : Time) (p : Place) : System g :=
  match s.blk p with
  | none => s
  | some b =>
    let s := (s.notify now (.Remove p.line b.origin)).setBlk p none
    if p.temp then s else s.endResidence p.line

/-! ### Fills -/

/-- The valid blocks among the victims, with their provenance. -/
def dvrFillVictims (victims : List Line) : List Victim :=
  victims.filterMap fun v => (s.tags v).map fun b => ⟨v, b.origin⟩

/-- `handleEvictions` gives up when a victim has an outstanding upgrade. -/
def evictable (victims : List Line) : Bool :=
  victims.all fun v => (s.tags v).isNone || (s.mshrs v).isNone

/-- Whether a fill without a block finds room in the tags. -/
def allocates (r : Response) : Bool := r.victims.any s.evictable

/-- The fill of `line` goes to the temporary block. -/
def usesTemp (line : Line) (r : Response) : Bool := (s.tags line).isNone && !s.allocates r

/-- `handleEvictions`. -/
def evictAll (now : Time) (victims : List Line) : System g :=
  victims.foldl (fun s v => s.invalidateBlock now { line := v }) s

/-- The coherence bits of a filled block. -/
def filled (r : Response) (b : CacheBlk) : CacheBlk :=
  { b with readable := true, writable := b.writable || !r.hasSharers }

/-- A fill of the tags begins a stay, or changes the provenance of the one that goes on. -/
def recordFill (line : Line) (origin : Origin) : System g :=
  let r : Residence := match s.residence line with
    | none =>
      { dvr := origin == .DVR, touched := decide (line ∈ s.audit.tracker.lateReported) }
    | some r => { r with refilled := r.refilled || !(origin == .DVR) }
  { s with residence := update s.residence line (some r) }

/-- The blocks that a fill of the tags evicts: none where the line is there already. -/
def fillEvicts (line : Line) (r : Response) : List Line :=
  if (s.tags line).isSome then [] else r.victims.getD []

/-- A fill of the tags: the victims leave, the block that is there or a new one is filled. -/
def fillTags (now : Time) (line : Line) (origin : Origin) (r : Response) : System g :=
  let b : CacheBlk := { filled r ((s.tags line).getD {}) with dvrPrefetched := origin == .DVR }
  let fillVictims := s.dvrFillVictims (s.fillEvicts line r)
  let s := (s.evictAll now (s.fillEvicts line r)).setBlk ⟨line, false⟩ (some b)
  (s.recordFill line origin).notify now (.Fill line origin fillVictims)

/-- `handleFill` and what `recvTimingResp` does with the block it returns. -/
def fill (now : Time) (line : Line) (origin : Origin) (r : Response) : System g :=
  if s.usesTemp line r then s.setBlk ⟨line, true⟩ (some (filled r {}))
  else s.fillTags now line origin r

/-! ### Responses -/

/-- `Cache::handleSnoop`, for the block. -/
def snoopBlk (now : Time) (p : Place) (snoop : Snoop) : System g :=
  if snoop.invalidate then s.invalidateBlock now p
  else if snoop.uncacheable then s
  else s.mapBlk p fun b => { b with writable := false }

/-- The snoops among the targets that are served. -/
def serveSnoops (now : Time) (p : Place) : List Target → System g → System g
  | [], s => s
  | .FromSnoop snoop :: ts, s => serveSnoops now p ts (s.snoopBlk now p snoop)
  | _ :: ts, s => serveSnoops now p ts s

/-- `!from_core && from_pref`. -/
def markPrefetched (p : Place) (served : List Target) : System g :=
  if !served.any Target.fromCPU && served.any Target.fromPrefetcher then
    s.mapBlk p fun b => { b with prefetched := true }
  else s

/-- `is_invalidate || hasPostInvalidate()`. -/
def takesAway (cmd : RespCmd) (m : MSHR) : Bool :=
  cmd.isInvalidate && !m.wasWholeLineWrite || m.postInvalidate

/-- The end of `serviceMSHRTargets`: an invalidation or a downgrade that was pending. -/
def settle (now : Time) (p : Place) (cmd : RespCmd) (m : MSHR) : System g :=
  if takesAway cmd m then s.invalidateBlock now p
  else if m.postDowngrade then s.mapBlk p fun b => { b with writable := false }
  else s

/-- `serviceMSHRTargets`, as far as the block is concerned. -/
def serviceMSHRTargets (now : Time) (p : Place) (cmd : RespCmd) (m : MSHR)
    (served : List Target) : System g :=
  ((serveSnoops now p served s).markPrefetched p served).settle now p cmd m

/-- `promoteDeferredTargets`: another round for what is left, or the MSHR is free. -/
def finishMSHR (line : Line) (p : Place) (left : List Target) : System g :=
  if left.isEmpty then s.setMSHR line none
  else (s.mapBlk p fun b => { b with readable := false }).setMSHR line (some { targets := left })

/-- `is_fill && !is_error`. -/
def isFill (m : MSHR) (cmd : RespCmd) : Bool :=
  (cmd.isRead || cmd == .UpgradeResp || m.wasWholeLineWrite) && !cmd.isError

/-- The place of the block after a response. -/
def place (line : Line) (m : MSHR) (r : Response) : Place :=
  ⟨line, isFill m r.cmd && s.usesTemp line r⟩

/-- The fill of a response. -/
def fillStep (now : Time) (line : Line) (m : MSHR) (r : Response) : System g :=
  if isFill m r.cmd then s.fill now line m.origin r else s

/-- The MSHR once the fill has been looked at. -/
def promoted (p : Place) (m : MSHR) : MSHR :=
  if (s.blk p).any CacheBlk.writable then m.promoteWritable else m

/-- `recvTimingResp` up to the targets that are served. -/
def serve (now : Time) (line : Line) (m : MSHR) (r : Response) : System g :=
  let p := s.place line m r
  let s := s.fillStep now line m r
  let m := s.promoted p m
  s.serviceMSHRTargets now p r.cmd m (m.extractServiceableTargets r.cmd).1

/-- The targets that are not served. -/
def left (now : Time) (line : Line) (m : MSHR) (r : Response) : List Target :=
  let m := (s.fillStep now line m r).promoted (s.place line m r) m
  (m.extractServiceableTargets r.cmd).2 ++ m.deferredTargets

/-- `recvTimingResp` for a cacheable request; a temporary block is evicted at the end. -/
def recvTimingResp (now : Time) (line : Line) (m : MSHR) (r : Response) : System g :=
  let p := s.place line m r
  let s' := (s.serve now line m r).finishMSHR line p (s.left now line m r)
  if p.temp then s'.invalidateBlock now p else s'

/-- What an MSHR in service is answered: the `InvalidateReq` of a whole-line write gets an
    `InvalidateResp`, nothing else does, and an upgrade is granted only while the block is there. -/
def answers (line : Line) (m : MSHR) (r : Response) : Bool :=
  m.inService && ((r.cmd == .InvalidateResp) == m.wasWholeLineWrite) &&
    (r.cmd != .UpgradeResp || (s.tags line).isSome)

/-! ### Requests -/

/-- `access`: whether the request is satisfied. -/
def satisfied (pkt : Packet) : Bool := !pkt.uncacheable &&
    match s.tags pkt.line with
    | some b => if pkt.cmd.needsWritable then b.writable else b.readable
    | none => pkt.cmd == .StoreCondReq

/-- A request that its line's MSHR does not know yet allocates one; of a valid block it must need
    the writability, and the request id must be free. -/
def asserts (pkt : Packet) : Bool :=
  (pkt.uncacheable || s.satisfied pkt || (s.tags pkt.line).isNone || (s.mshrs pkt.line).isSome ||
    pkt.cmd.needsWritable) &&
  (!pkt.isDVRPrefetch || (s.audit.tracker.outstanding.lookup s.nextRequestId).isNone)

/-- An uncacheable request flushes the block. -/
def flush (now : Time) (pkt : Packet) : System g :=
  if pkt.uncacheable then s.invalidateBlock now { line := pkt.line } else s

/-- `handleTimingReqMiss`.  A software prefetch does not join an MSHR. -/
def handleTimingReqMiss (pkt : Packet) : System g :=
  if pkt.uncacheable then
    if pkt.cmd.isWrite then s else { s with uncached := pkt :: s.uncached }
  else match s.mshrs pkt.line with
    | some m =>
      if pkt.cmd.isSWPrefetch then s else s.setMSHR pkt.line (some (m.allocateTarget pkt))
    | none =>
      (s.mapBlk { line := pkt.line } fun b => { b with readable := false }).setMSHR pkt.line
        (some { targets := [.FromCPU pkt] })

/-- `recvTimingReq`; `prefetcher` says that the cache has a hardware prefetcher. -/
def recvTimingReq (prefetcher : Bool) (now : Time) (pkt : Packet) : System g :=
  let hit := s.satisfied pkt
  let s := if pkt.isDVRPrefetch then s.notify now (.Issue pkt.line) else s
  let s := s.flush now pkt
  if hit then
    let s := if pkt.isDVRPrefetch then s.notify now (.Complete pkt.line) else s
    let s := if pkt.kind = .demand then
      (s.notify now (.DemandLookup pkt.line true)).touch pkt.line else s
    if prefetcher then s.mapBlk { line := pkt.line } fun b => { b with prefetched := false } else s
  else
    let s := if pkt.kind = .demand then s.notify now (.DemandLookup pkt.line false) else s
    s.handleTimingReqMiss pkt

/-! ### Snoops -/

/-- A snoop from below. -/
def recvTimingSnoopReq (now : Time) (line : Line) (snoop : Snoop) : System g :=
  match s.mshrs line with
  | none => s.snoopBlk now { line := line } snoop
  | some m =>
    let (m, handled) := m.handleSnoop snoop
    let s := s.setMSHR line (some m)
    if handled then s else s.snoopBlk now { line := line } snoop

/-! ### What the parts leave alone -/

section frames

variable (now : Time) (p : Place) (b : Option CacheBlk) (e : QualityEvent) (line : Line)

@[simp] theorem tags_notify : (s.notify now e).tags = s.tags := rfl

@[simp] theorem residence_notify : (s.notify now e).residence = s.residence := rfl

@[simp] theorem audit_setBlk : (s.setBlk p b).audit = s.audit := by
  unfold setBlk
  split_ifs <;> rfl

@[simp] theorem residence_setBlk : (s.setBlk p b).residence = s.residence := by
  unfold setBlk
  split_ifs <;> rfl

@[simp] theorem past_setBlk : (s.setBlk p b).past = s.past := by
  unfold setBlk
  split_ifs <;> rfl

@[simp] theorem mshrs_setBlk : (s.setBlk p b).mshrs = s.mshrs := by
  unfold setBlk
  split_ifs <;> rfl

@[simp] theorem uncached_setBlk : (s.setBlk p b).uncached = s.uncached := by
  unfold setBlk
  split_ifs <;> rfl

@[simp] theorem blk_setBlk : (s.setBlk p b).blk p = b := by
  unfold setBlk blk
  split_ifs
  · rfl
  · exact update_self ..

@[simp] theorem tags_setBlk_temp : (s.setBlk ⟨line, true⟩ b).tags = s.tags := rfl

@[simp] theorem tags_setBlk : (s.setBlk ⟨line, false⟩ b).tags = update s.tags line b := rfl

@[simp] theorem tags_endResidence : (s.endResidence line).tags = s.tags := by
  unfold endResidence
  cases s.residence line <;> rfl

theorem tags_invalidateBlock :
    (s.invalidateBlock now { line := line }).tags = update s.tags line none := by
  unfold invalidateBlock
  cases hb : s.blk { line := line } with
  | none =>
    have hnone : s.tags line = none := hb
    exact (update_eq_self_iff.mpr hnone.symm).symm
  | some b =>
    simp only [Bool.false_eq_true, if_false, tags_endResidence]
    rfl

theorem tags_evictAll_of_none {victims : List Line} (h : s.tags line = none) :
    (s.evictAll now victims).tags line = none := by
  unfold evictAll
  induction victims generalizing s with
  | nil => exact h
  | cons v vs ih =>
    apply ih
    rw [tags_invalidateBlock]
    by_cases hv : line = v
    · rw [hv, update_self]
    · rw [update_of_ne hv, h]

/-- A fill of the tags keeps the block that is there. -/
theorem tags_fillEvicts (r : Response) :
    (s.evictAll now (s.fillEvicts line r)).tags line = s.tags line := by
  unfold fillEvicts
  cases h : s.tags line with
  | none => exact s.tags_evictAll_of_none now line h
  | some b => exact h

end frames

end System

/-! ## Runs -/

/-- A step of the cache. -/
inductive Event
  | request (now : Time) (pkt : Packet)
  | prefetch (line : Line)
  | send (line : Line) (pendingModifiedResp wholeLine : Bool)
  | response (now : Time) (line : Line) (r : Response)
  | uncachedResponse (index : Nat)
  | snoop (now : Time) (line : Line) (snoop : Snoop)

variable {g : Geometry}

/-- One step.  A hardware prefetch of a line that is present or on its way is dropped. -/
def step (prefetcher : Bool) (s : System g) : Event → System g
  | .request now pkt => if s.asserts pkt then s.recvTimingReq prefetcher now pkt else s
  | .prefetch line =>
    if (s.tags line).isNone && (s.mshrs line).isNone then
      s.setMSHR line (some { targets := [.FromPrefetcher] })
    else s
  | .send line pendingModifiedResp wholeLine =>
    match s.mshrs line with
    | none => s
    | some m =>
      if m.inService then s
      else s.setMSHR line (some (m.markInService pendingModifiedResp wholeLine))
  | .response now line r =>
    match s.mshrs line with
    | none => s
    | some m => if s.answers line m r then s.recvTimingResp now line m r else s
  | .uncachedResponse index => { s with uncached := s.uncached.eraseIdx index }
  | .snoop now line snoop => s.recvTimingSnoopReq now line snoop

end Gem5Dvr.L1
