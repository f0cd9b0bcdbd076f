/-
  The ports above a snoop filter, and the crossbar that calls it (`mem/coherent_xbar.cc` 150-685).

    1. `Line`: the ports that hold a line, and the requests for it that the crossbar has accepted and
       that have not been answered, in that order; `port` is `none` for a request from below whose
       snoop a port has promised to answer.
    2. What a snoop, a response and an eviction do to a line.  A port loses a line by an eviction, an
       invalidating snoop or its own invalidating clean.  The snoop of a port that waits for an
       answer is deferred (`MSHR::handleSnoop`, `postInvalidate`): it takes the line once that is
       there.
    3. `step`: the calls of the crossbar, with the call of the filter that each makes.
    4. `Allowed`: a port has one request for a line in flight (else the filter panics), the packets of
       snooping ports come from caches, an eviction needs no response, an uncacheable request does
       not invalidate, only a request that invalidates or is uncacheable is answered without
       `hasSharers` (`Cache::doTimingSupplyResponse`), and a request that comes after one for a
       writable copy is answered after it, for that one's MSHR is the ordering point
       (`MSHR::handleSnoop`).
-/
import Mathlib.Data.Finset.Filter
import Gem5Dvr.Lib.Trace
import Gem5Dvr.SnoopFilter

namespace Gem5Dvr.Snoop

/-- A request that waits for its answer. -/
structure Request where
  port : Option Nat
  writable : Bool := false
  clean : Bool := false
  uncacheable : Bool := false
  postInvalidate : Bool := false
  deriving DecidableEq

/-- The MSHR of a snooped port notes the invalidation. -/
def Request.mark (x : Request) (snooped : Nat → Bool) : Request :=
  { x with postInvalidate := x.postInvalidate || x.port.any snooped }

structure Line where
  holds : Finset Nat := ∅
  pending : List Request := []
  deriving DecidableEq

namespace Line

variable (l : Line)

/-- The ports that wait for an answer. -/
def waiting : List Nat := l.pending.filterMap Request.port

/-- An invalidating snoop is sent to the targets; some of them defer it. -/
def invalidate (targets deferred : List Nat) : Line where
  holds := l.holds.filter fun p => p ∉ targets ∨ p ∈ deferred
  pending := l.pending.map fun x => x.mark fun p => decide (p ∈ targets ∧ p ∈ deferred)

def accept (x : Request) : Line := { l with pending := l.pending ++ [x] }

def evict (port : Nat) : Line := { l with holds := l.holds.erase port }

/-- A request from below, before those that have not been issued yet. -/
def insert (pos : Nat) (x : Request) : Line :=
  { l with pending := l.pending.take pos ++ x :: l.pending.drop pos }

/-- The ports that hold the line when a request has been answered. -/
def holdsAfter (x : Request) (invalidate : Bool) : Finset Nat :=
  match x.port with
  | none => l.holds
  | some p =>
    if x.postInvalidate = true ∨ (x.clean = true ∧ invalidate = true) then l.holds.erase p
    else if x.clean = true then l.holds
    else Insert.insert p l.holds

/-- The request at a place is answered. -/
def respond (i : Nat) (invalidate : Bool) : Line :=
  match l.pending[i]? with
  | none => l
  | some x => { holds := l.holdsAfter x invalidate, pending := l.pending.eraseIdx i }

/-- The place of a port's request. -/
def find (port : Nat) : Nat := l.pending.findIdx fun x => x.port = some port

end Line

/-! ## The crossbar -/

structure System where
  filter : SnoopFilter
  lines : Nat → Line := fun _ => {}

inductive Event
  | recvTimingReq (pkt : Packet) (port : Nat) (will_retry : Bool)
  | recvTimingResp (pkt : Packet) (port : Nat)
  /-- `pos` requests have been issued before it; `answered` if a port has promised an answer. -/
  | recvTimingSnoopReq (pkt : Packet) (answered : Bool) (pos : Nat)
  | recvTimingSnoopResp (pkt : Packet) (rsp_port req_port : Nat)
  /-- The same, for the request from below at the place `i`. -/
  | forwardSnoopResp (pkt : Packet) (rsp_port i : Nat)

namespace System

variable (s : System)

/-- The filter follows the responses to these requests. -/
def follows (pkt : Packet) (port : Nat) : Bool :=
  !pkt.isUncacheable && decide (port ∈ s.filter.cpuSidePorts)

/-- A line is written. -/
def put (line : Nat) (l : Line) : System := { s with lines := Function.update s.lines line l }

/-- What becomes of the line when a request comes from a port. -/
def afterRequest (pkt : Packet) (port : Nat) (will_retry : Bool) (targets : List Nat) (l : Line) :
    Line :=
  let l := if pkt.isEviction = false ∧ pkt.isInvalidate = true then
    l.invalidate targets l.waiting else l
  if will_retry = true ∨ s.filter.allocate pkt port = false then l
  else if pkt.needsResponse = true then
    if pkt.cacheResponding = false then
      l.accept { port := some port, writable := pkt.isInvalidate && !pkt.isCacheMaintenance,
                 clean := pkt.isCacheMaintenance }
    else l
  else if pkt.isBlockCached = false then l.evict port
  else l

/-- What becomes of it when a snoop comes from below. -/
def afterSnoop (pkt : Packet) (answered : Bool) (pos : Nat) (targets : List Nat) (l : Line) : Line :=
  let l := if pkt.isInvalidate = true then
    l.invalidate targets ((l.pending.take pos).filterMap Request.port) else l
  if answered = true then
    l.insert pos { port := none, writable := pkt.isInvalidate, uncacheable := pkt.isUncacheable }
  else l

def step : Event → Option System
  | .recvTimingReq pkt port will_retry =>
    let line := s.filter.lineOf pkt
    (s.filter.request pkt port will_retry).map fun x =>
      { s.put line (s.afterRequest pkt port will_retry x.2 (s.lines line)) with filter := x.1 }
  | .recvTimingResp pkt port =>
    let line := s.filter.lineOf pkt
    (s.filter.updateResponse pkt port).map fun f =>
      { (if s.follows pkt port = true then
          s.put line ((s.lines line).respond ((s.lines line).find port) pkt.isInvalidate)
        else s) with filter := f }
  | .recvTimingSnoopReq pkt answered pos =>
    let line := s.filter.lineOf pkt
    let x := s.filter.lookupSnoop pkt
    some { s.put line (afterSnoop pkt answered pos x.2 (s.lines line)) with filter := x.1 }
  | .recvTimingSnoopResp pkt rsp_port req_port =>
    let line := s.filter.lineOf pkt
    (s.filter.updateSnoopResponse pkt rsp_port req_port).map fun f =>
      { (if s.follows pkt req_port = true then
          s.put line ((s.lines line).respond ((s.lines line).find req_port) false)
        else s) with filter := f }
  | .forwardSnoopResp pkt _ i =>
    let line := s.filter.lineOf pkt
    some { s.put line ((s.lines line).respond i false) with
      filter := s.filter.updateSnoopForward pkt }

/-- No request for a writable copy waits before the place. -/
def Ready (l : Line) (i : Nat) : Prop := ∀ b ∈ l.pending.take i, b.writable = false

instance (l : Line) (i : Nat) : Decidable (Ready l i) := inferInstanceAs (Decidable (∀ _ ∈ _, _))

/-- What the caches and the crossbar can do. -/
def Allowed : Event → Prop
  | .recvTimingReq pkt port _ =>
    (pkt.isUncacheable = true → pkt.isInvalidate = false) ∧
      (pkt.isEviction = true → pkt.needsResponse = false) ∧
      (s.follows pkt port = true → pkt.fromCache = true)
  | .recvTimingResp pkt port =>
    let l := s.lines (s.filter.lineOf pkt)
    s.follows pkt port = true → ∃ x ∈ l.pending[l.find port]?, x.clean = pkt.isCacheMaintenance ∧
      (x.clean = false → Ready l (l.find port))
  | .recvTimingSnoopReq pkt answered pos =>
    pos ≤ (s.lines (s.filter.lineOf pkt)).pending.length ∧
      (pkt.isUncacheable = true → pkt.isInvalidate = false) ∧
      (pkt.isCacheMaintenance = true → answered = false)
  | .recvTimingSnoopResp pkt rsp_port req_port =>
    let l := s.lines (s.filter.lineOf pkt)
    rsp_port ≠ req_port ∧ (s.follows pkt req_port = true →
      ∃ x ∈ l.pending[l.find req_port]?, x.clean = false ∧ Ready l (l.find req_port) ∧
        (pkt.hasSharers = false → x.writable = true))
  | .forwardSnoopResp pkt _ i =>
    ∃ x ∈ (s.lines (s.filter.lineOf pkt)).pending[i]?, x.port = none ∧
      x.uncacheable = pkt.isUncacheable ∧
      (pkt.hasSharers = false → x.writable = true ∨ pkt.isUncacheable = true)

/-- The ports that hold the line will lose it, or are about to get it again. -/
def Vanishing (l : Line) : Prop :=
  ∀ p ∈ l.holds, ∃ x ∈ l.pending, x.port = some p ∧ (x.postInvalidate = true ∨ x.clean = false)

instance (l : Line) : Decidable (Vanishing l) := inferInstanceAs (Decidable (∀ _ ∈ _, _))

/-- The answer to an uncacheable request passes down with `hasSharers`, unless the copies of the line
    vanish. -/
def Spared : Event → Prop
  | .forwardSnoopResp pkt _ _ =>
    pkt.isUncacheable = true → pkt.hasSharers = false → Vanishing (s.lines (s.filter.lineOf pkt))
  | _ => True

/-- A filter over the given snooping ports, which holds nothing. -/
def init (cpuSidePorts : List Nat) (linesize : Nat) : System where
  filter := { cpuSidePorts := cpuSidePorts, linesize := linesize }

instance : ∀ e : Event, Decidable (s.Allowed e)
  | .recvTimingReq .. => inferInstanceAs (Decidable (_ ∧ _))
  | .recvTimingResp .. => inferInstanceAs (Decidable (_ → ∃ _ ∈ _, _))
  | .recvTimingSnoopReq .. => inferInstanceAs (Decidable (_ ∧ _))
  | .recvTimingSnoopResp .. => inferInstanceAs (Decidable (_ ∧ (_ → ∃ _ ∈ _, _)))
  | .forwardSnoopResp .. => inferInstanceAs (Decidable (∃ _ ∈ _, _))

instance : ∀ e : Event, Decidable (s.Spared e)
  | .recvTimingReq .. => isTrue trivial
  | .recvTimingResp .. => isTrue trivial
  | .recvTimingSnoopReq .. => isTrue trivial
  | .recvTimingSnoopResp .. => isTrue trivial
  | .forwardSnoopResp .. => inferInstanceAs (Decidable (_ → _ → _))

end System

end Gem5Dvr.Snoop
