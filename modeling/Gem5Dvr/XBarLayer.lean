/-
  A layer of a crossbar (`mem/xbar.cc` 161-328).

    1. `Layer`: the functions of the source.  `retryWaiting` is cut at `sendRetry`, where the port
       may call back: `retrySent` is what follows.  An assertion that fails leaves no result.
    2. `Run`: the calls on a layer, in the midst of others too.  A port that has been granted is
       told the outcome; a retry is a call that returns; the release is an event of its time.
    3. What is recorded of a run: how often a port was refused and how often it was sent a retry,
       when the layer refused it last, and the port that the destination has called for (`called`).
    4. The crux: the layer is in one of four phases, and a port that was called for stands at the
       front of the queue of a layer whose release is still to come.
-/
import Mathlib.Data.List.Nodup
import Mathlib.Logic.Function.Basic
import Gem5Dvr.Lib.Trace

namespace Gem5Dvr.XBar

open List Function

/-! ## The layer -/

inductive State | IDLE | BUSY | RETRY
  deriving DecidableEq, Repr

/-- The clock of the crossbar: the edge is not before now. -/
structure Clock where
  clockEdge : Nat → Nat
  le_clockEdge : ∀ t, t ≤ clockEdge t

structure Layer (P : Type) where
  state : State := .IDLE
  waitingForLayer : List P := []
  waitingForPeer : Option P := none
  /-- The time the event is scheduled for. -/
  releaseEvent : Option Nat := none

namespace Layer

variable {P : Type} [DecidableEq P] (l : Layer P)

/-- `occupyLayer`, with the assertions of `schedule`. -/
def occupyLayer (now busy_until : Nat) : Option (Layer P) :=
  if l.state = .BUSY ∧ busy_until ≠ 0 ∧ now ≤ busy_until ∧ l.releaseEvent = none then
    some { l with releaseEvent := some busy_until }
  else none

def tryTiming (src_port : P) : Option (Layer P × Bool) :=
  if l.state = .BUSY ∨ l.waitingForPeer ≠ none then
    if src_port ∈ l.waitingForLayer then none
    else some ({ l with waitingForLayer := l.waitingForLayer ++ [src_port] }, false)
  else some ({ l with state := .BUSY }, true)

def succeededTiming (now busy_time : Nat) : Option (Layer P) :=
  if l.state = .BUSY then l.occupyLayer now busy_time else none

def failedTiming (src_port : P) (now busy_time : Nat) : Option (Layer P) :=
  if l.waitingForPeer = none ∧ l.state = .BUSY then
    { l with waitingForPeer := some src_port }.occupyLayer now busy_time
  else none

/-- `retryWaiting`, up to `sendRetry`, and the port it is sent to. -/
def retryWaiting : Option (Layer P × Option P) :=
  match l.waitingForLayer with
  | [] => none
  | retryingPort :: rest =>
    if l.state = .IDLE then
      some ({ l with state := .RETRY, waitingForLayer := rest }, some retryingPort)
    else none

/-- `retryWaiting`, from the return of `sendRetry`. -/
def retrySent (now clockEdge : Nat) : Option (Layer P) :=
  if l.state = .RETRY then { l with state := .BUSY }.occupyLayer now clockEdge else some l

/-- `releaseLayer`, when its event has left the queue. -/
def releaseLayer : Option (Layer P × Option P) :=
  if l.state = .BUSY ∧ l.releaseEvent = none then
    let l := { l with state := .IDLE }
    if l.waitingForLayer ≠ [] ∧ l.waitingForPeer = none then l.retryWaiting else some (l, none)
  else none

def recvRetry : Option (Layer P × Option P) := l.waitingForPeer.bind fun p =>
    let l := { l with waitingForLayer := p :: l.waitingForLayer, waitingForPeer := none }
    if l.state = .IDLE then l.retryWaiting
    else if l.state = .BUSY then some (l, none)
    else none

end Layer

/-! ## Runs -/

structure Run (P : Type) where
  layer : Layer P := {}
  now : Nat := 0
  /-- The port that was granted the layer and has not been told the outcome. -/
  granted : Option P := none
  /-- The calls of `sendRetry` that have not returned. -/
  retries : Nat := 0
  /-- The destination has refused a packet and not called for it. -/
  peerOwes : Bool := false
  refusals : P → Nat := fun _ => 0
  retried : P → Nat := fun _ => 0
  /-- The refusals of the layer are numbered. -/
  serial : Nat := 0
  refusedAt : P → Nat := fun _ => 0
  /-- The port that the destination has called for, until it is sent its retry. -/
  called : Option P := none

inductive Event (P : Type)
  | tryTiming (src_port : P)
  | succeededTiming (busy_time : Nat)
  | failedTiming (busy_time : Nat)
  | retryReturns
  | release
  | recvRetry
  | advance (t : Nat)

namespace Run

variable {P : Type} [DecidableEq P] (clock : Clock) (r : Run P)

/-- A retry goes out. -/
def sendRetry : Option P → Run P
  | none => r
  | some p =>
    { r with
      retries := r.retries + 1
      retried := update r.retried p (r.retried p + 1)
      called := if r.called = some p then none else r.called }

def step : Event P → Option (Run P)
  | .tryTiming p =>
    (r.layer.tryTiming p).map fun x =>
      if x.2 then { r with layer := x.1, granted := some p }
      else
        { r with
          layer := x.1
          refusals := update r.refusals p (r.refusals p + 1)
          serial := r.serial + 1
          refusedAt := update r.refusedAt p r.serial }
  | .succeededTiming busy_time =>
    (r.layer.succeededTiming r.now busy_time).map fun l => { r with layer := l, granted := none }
  | .failedTiming busy_time =>
    r.granted.bind fun p => (r.layer.failedTiming p r.now busy_time).map fun l =>
      { r with
        layer := l
        granted := none
        peerOwes := true
        refusals := update r.refusals p (r.refusals p + 1) }
  | .retryReturns =>
    (r.layer.retrySent r.now (clock.clockEdge r.now)).map fun l =>
      { r with layer := l, retries := r.retries - 1 }
  | .release =>
    r.layer.releaseEvent.bind fun t =>
      ({ r.layer with releaseEvent := none } : Layer P).releaseLayer.map fun x =>
        { r with layer := x.1, now := t }.sendRetry x.2
  | .recvRetry =>
    r.layer.recvRetry.map fun x =>
      { r with layer := x.1, peerOwes := false, called := r.layer.waitingForPeer }.sendRetry x.2
  | .advance t => some { r with now := t }

/-- What the surroundings keep to.  A refused port does not send before it is told to, nor does one
    in the midst of a granted send; a granted one is told the outcome, with a time that is not past;
    a call returns after those made in it; events come between calls and at their time; the
    destination calls once for what it refused. -/
def Allowed : Event P → Prop
  | .tryTiming p => r.refusals p = r.retried p ∧ r.granted ≠ some p
  | .succeededTiming busy_time => r.granted ≠ none ∧ r.now ≤ busy_time ∧ busy_time ≠ 0
  | .failedTiming busy_time => r.granted ≠ none ∧ r.now ≤ busy_time ∧ busy_time ≠ 0
  | .retryReturns => 0 < r.retries ∧ r.granted = none
  | .release => r.granted = none ∧ r.retries = 0 ∧ r.layer.releaseEvent ≠ none
  | .recvRetry => r.peerOwes = true
  | .advance t => r.granted = none ∧ r.retries = 0 ∧ r.now ≤ t ∧ ∀ u ∈ r.layer.releaseEvent, t ≤ u

instance decidableAllowed (ev : Event P) : Decidable (r.Allowed ev) := by
  cases ev <;> unfold Allowed <;> infer_instance

/-- A port waits. -/
def Waits (p : P) : Prop := p ∈ r.layer.waitingForLayer ∨ r.layer.waitingForPeer = some p

/-- The queue without the port that was called for. -/
def queue : List P :=
  if r.called = none then r.layer.waitingForLayer else r.layer.waitingForLayer.tail

/-! ## The invariant -/

inductive Phase : Prop
  | idle (hg : r.granted = none) (hr : r.retries = 0) (hs : r.layer.state = .IDLE)
    (he : r.layer.releaseEvent = none)
    (hpeer : r.layer.waitingForLayer ≠ [] → r.layer.waitingForPeer ≠ none)
    (hnow : r.layer.waitingForPeer ≠ none → r.now ≠ 0)
  | busy (hg : r.granted = none) (hr : r.retries ≤ 1) (hs : r.layer.state = .BUSY)
    (he : r.layer.releaseEvent ≠ none)
  | granted (p : P) (hg : r.granted = some p) (hr : r.retries ≤ 1) (hs : r.layer.state = .BUSY)
    (he : r.layer.releaseEvent = none) (hpeer : r.layer.waitingForPeer = none)
    (hnot : p ∉ r.layer.waitingForLayer)
  | retry (hg : r.granted = none) (hr : r.retries = 1) (hs : r.layer.state = .RETRY)
    (he : r.layer.releaseEvent = none) (hpeer : r.layer.waitingForPeer = none) (hnow : r.now ≠ 0)

structure Inv : Prop where
  phase : r.Phase
  nodup : r.layer.waitingForLayer.Nodup
  peer : ∀ p, r.layer.waitingForPeer = some p → p ∉ r.layer.waitingForLayer
  waiting : ∀ p, r.Waits p → r.refusals p = r.retried p + 1
  told : ∀ p, ¬ r.Waits p → r.refusals p = r.retried p
  owes : r.peerOwes = true ↔ r.layer.waitingForPeer ≠ none
  called : ∀ p, r.called = some p → (∃ rest, r.layer.waitingForLayer = p :: rest) ∧
    r.layer.releaseEvent ≠ none ∧ r.layer.waitingForPeer = none
  order : r.queue.Pairwise fun p q => r.refusedAt p < r.refusedAt q
  past : ∀ p ∈ r.queue, r.refusedAt p < r.serial
  time : ∀ t, r.layer.releaseEvent = some t → r.now ≤ t ∧ t ≠ 0

variable {clock} {r}

omit [DecidableEq P] in
theorem inv_init : Inv ({} : Run P) := by
  refine ⟨.idle rfl rfl rfl rfl (fun h => absurd rfl h) (fun h => absurd rfl h), nodup_nil,
    ?_, ?_, ?_, ?_, ?_, List.Pairwise.nil, ?_, ?_⟩
  · exact fun p h => nomatch h
  · rintro p (h | h)
    · exact absurd h not_mem_nil
    · exact nomatch h
  · exact fun _ _ => rfl
  · exact ⟨fun h => Bool.noConfusion h, fun h => absurd rfl h⟩
  · exact fun p h => nomatch h
  · exact fun p h => absurd h not_mem_nil
  · exact fun t h => nomatch h

omit [DecidableEq P] in
theorem Inv.not_waits (h : Inv r) {p : P} (hp : r.refusals p = r.retried p) : ¬ r.Waits p := by
  intro hw
  have hcount := h.waiting p hw
  omega

omit [DecidableEq P] in
theorem Inv.not_called (h : Inv r) (hr : r.layer.releaseEvent = none) : r.called = none := by
  cases hc : r.called with
  | none => rfl
  | some p => exact absurd hr (h.called p hc).2.1

omit [DecidableEq P] in
theorem mem_of_queue {p : P} (hp : p ∈ r.queue) : p ∈ r.layer.waitingForLayer := by
  unfold queue at hp
  split at hp
  · exact hp
  · exact mem_of_mem_tail hp

/-! ## A call -/

theorem inv_tryTiming {p : P} (h : Inv r) (hok : r.Allowed (.tryTiming p)) :
    ∃ r', r.step clock (.tryTiming p) = some r' ∧ Inv r' := by
  obtain ⟨hcount, hgranted⟩ := hok
  have hnot := h.not_waits hcount
  obtain ⟨hlayer, hpeer⟩ := not_or.mp hnot
  by_cases hbusy : r.layer.state = .BUSY ∨ r.layer.waitingForPeer ≠ none
  · let r' : Run P := { r with
      layer := { r.layer with waitingForLayer := r.layer.waitingForLayer ++ [p] }
      refusals := update r.refusals p (r.refusals p + 1)
      serial := r.serial + 1
      refusedAt := update r.refusedAt p r.serial }
    have hstep : r.step clock (.tryTiming p) = some r' := by
      simp only [step, Layer.tryTiming, if_pos hbusy, if_neg hlayer]
      rfl
    have hqueue : r'.queue = r.queue ++ [p] := by
      show (if r.called = none then r.layer.waitingForLayer ++ [p]
        else (r.layer.waitingForLayer ++ [p]).tail) = _
      unfold queue
      cases hc : r.called with
      | none => rfl
      | some c =>
        obtain ⟨⟨rest, hrest⟩, -⟩ := h.called c hc
        rw [hrest]
        rfl
    refine ⟨r', hstep, ?_, ?_, ?_, ?_, ?_, h.owes, ?_, ?_, ?_, h.time⟩
    · cases h.phase with
      | idle hg hr hs he hw hnow =>
        have hne : r.layer.state ≠ .BUSY := by
          rw [hs]
          exact fun hb => nomatch hb
        exact .idle hg hr hs he (fun _ => hbusy.resolve_left hne) hnow
      | busy hg hr hs he => exact .busy hg hr hs he
      | granted q hg hr hs he hw hq =>
        refine .granted q hg hr hs he hw fun hmem => ?_
        rcases mem_append.mp hmem with hmem | hmem
        · exact hq hmem
        · exact hgranted (by rw [hg, mem_singleton.mp hmem])
      | retry hg hr hs he hw hnow =>
        rcases hbusy with hb | hb
        · rw [hs] at hb
          cases hb
        · exact absurd hw hb
    · refine nodup_append.mpr ⟨h.nodup, pairwise_singleton _ _, ?_⟩
      rintro a ha b hb rfl
      rw [mem_singleton.mp hb] at ha
      exact hlayer ha
    · intro q hq hmem
      rcases mem_append.mp hmem with hmem | hmem
      · exact h.peer q hq hmem
      · rw [mem_singleton.mp hmem] at hq
        exact hpeer hq
    · intro q hq
      show update r.refusals p _ q = _
      by_cases hqp : q = p
      · rw [hqp, update_self, hcount]
      · rw [update_of_ne hqp]
        refine h.waiting q (hq.imp_left fun hmem => ?_)
        exact (mem_append.mp hmem).resolve_right fun hs => hqp (mem_singleton.mp hs)
    · intro q hq
      show update r.refusals p _ q = _
      have hqp : q ≠ p := by
        rintro rfl
        exact hq (Or.inl (mem_append_right _ mem_cons_self))
      rw [update_of_ne hqp]
      exact h.told q fun hw => hq (hw.imp_left (mem_append_left [p]))
    · intro q hq
      obtain ⟨⟨rest, hrest⟩, hc⟩ := h.called q hq
      exact ⟨⟨rest ++ [p], congrArg (· ++ [p]) hrest⟩, hc⟩
    · rw [hqueue, pairwise_append]
      have hne : ∀ q ∈ r.queue, q ≠ p := by
        rintro q hq rfl
        exact hlayer (mem_of_queue hq)
      have hold : ∀ q ∈ r.queue, r'.refusedAt q = r.refusedAt q := fun q hq =>
        update_of_ne (hne q hq) _ _
      refine ⟨h.order.imp_of_mem fun ha hb hab => ?_, pairwise_singleton _ _, ?_⟩
      · rw [hold _ ha, hold _ hb]
        exact hab
      · intro a ha b hb
        have hnew : r'.refusedAt p = r.serial := update_self ..
        rw [mem_singleton.mp hb, hnew, hold a ha]
        exact h.past a ha
    · intro q hq
      rw [hqueue] at hq
      show update r.refusedAt p r.serial q < r.serial + 1
      by_cases hqp : q = p
      · rw [hqp, update_self]
        exact Nat.lt_succ_self _
      · rw [update_of_ne hqp]
        have hmem := (mem_append.mp hq).resolve_right fun hs => hqp (mem_singleton.mp hs)
        exact Nat.lt_succ_of_lt (h.past q hmem)
  · obtain ⟨hstate, hnone⟩ := not_or.mp hbusy
    have hnone := not_not.mp hnone
    refine ⟨{ r with layer := { r.layer with state := .BUSY }, granted := some p }, ?_, ?_,
      h.nodup, h.peer, h.waiting, h.told, h.owes, h.called, h.order, h.past, h.time⟩
    · simp only [step, Layer.tryTiming, if_neg hbusy]
      rfl
    · cases h.phase with
      | idle hg hr hs he hw hnow =>
        exact .granted p rfl (Nat.le_trans (Nat.le_of_eq hr) (Nat.zero_le 1)) rfl he hnone hlayer
      | busy hg hr hs he => exact absurd hs hstate
      | granted q hg hr hs he hw hq => exact absurd hs hstate
      | retry hg hr hs he hw hnow => exact .granted p rfl (Nat.le_of_eq hr) rfl he hnone hlayer

theorem inv_succeededTiming {busy_time : Nat} (h : Inv r)
    (hok : r.Allowed (.succeededTiming busy_time)) :
    ∃ r', r.step clock (.succeededTiming busy_time) = some r' ∧ Inv r' := by
  obtain ⟨hgranted, hnow, hzero⟩ := hok
  cases h.phase with
  | idle hg _ _ _ _ _ => exact absurd hg hgranted
  | busy hg _ _ _ => exact absurd hg hgranted
  | retry hg _ _ _ _ _ => exact absurd hg hgranted
  | granted p hg hr hs he hpeer hnot =>
    have hcalled := h.not_called he
    refine ⟨_, by simp only [step, Layer.succeededTiming, if_pos hs, Layer.occupyLayer,
      if_pos (⟨hs, hzero, hnow, he⟩ : r.layer.state = .BUSY ∧ busy_time ≠ 0 ∧ r.now ≤ busy_time ∧
        r.layer.releaseEvent = none)]; rfl, ?_⟩
    refine ⟨.busy rfl hr hs (fun hn => nomatch hn), h.nodup, h.peer, h.waiting, h.told, h.owes, ?_,
      h.order, h.past, ?_⟩
    · exact fun q hq => nomatch hcalled.symm.trans hq
    · rintro t ht
      obtain rfl := Option.some.inj ht
      exact ⟨hnow, hzero⟩

theorem inv_failedTiming {busy_time : Nat} (h : Inv r) (hok : r.Allowed (.failedTiming busy_time)) :
    ∃ r', r.step clock (.failedTiming busy_time) = some r' ∧ Inv r' := by
  obtain ⟨hgranted, hnow, hzero⟩ := hok
  cases h.phase with
  | idle hg _ _ _ _ _ => exact absurd hg hgranted
  | busy hg _ _ _ => exact absurd hg hgranted
  | retry hg _ _ _ _ _ => exact absurd hg hgranted
  | granted p hg hr hs he hpeer hnot =>
    have hcalled := h.not_called he
    have hcount := h.told p (not_or.mpr ⟨hnot, by rw [hpeer]; exact fun hn => nomatch hn⟩)
    refine ⟨_, by simp only [step, hg, Option.bind_some, Layer.failedTiming,
      if_pos (⟨hpeer, hs⟩ : r.layer.waitingForPeer = none ∧ r.layer.state = .BUSY),
      Layer.occupyLayer, if_pos (⟨hs, hzero, hnow, he⟩ : r.layer.state = .BUSY ∧ busy_time ≠ 0 ∧
        r.now ≤ busy_time ∧ r.layer.releaseEvent = none)]; rfl, ?_⟩
    refine ⟨.busy rfl hr hs (fun hn => nomatch hn), h.nodup, ?_, ?_, ?_, ?_, ?_, h.order, h.past,
      ?_⟩
    · intro q hq
      obtain rfl := Option.some.inj hq
      exact hnot
    · intro q hq
      show update r.refusals p _ q = _
      by_cases hqp : q = p
      · rw [hqp, update_self, hcount]
      · rw [update_of_ne hqp]
        refine h.waiting q (Or.inl (hq.resolve_right fun hs => hqp ?_))
        exact (Option.some.inj hs).symm
    · intro q hq
      show update r.refusals p _ q = _
      have hqp : q ≠ p := by
        rintro rfl
        exact hq (Or.inr rfl)
      rw [update_of_ne hqp]
      refine h.told q fun hw => hq (Or.inl (hw.resolve_right fun hs => ?_))
      exact nomatch hpeer.symm.trans hs
    · exact ⟨fun _ => Option.some_ne_none p, fun _ => rfl⟩
    · exact fun q hq => nomatch hcalled.symm.trans hq
    · rintro t ht
      obtain rfl := Option.some.inj ht
      exact ⟨hnow, hzero⟩

theorem inv_retryReturns (h : Inv r) (hok : r.Allowed .retryReturns) :
    ∃ r', r.step clock .retryReturns = some r' ∧ Inv r' := by
  obtain ⟨hretries, hgranted⟩ := hok
  cases h.phase with
  | idle _ hr _ _ _ _ => omega
  | granted p hg _ _ _ _ _ => exact nomatch hgranted.symm.trans hg
  | busy hg hr hs he =>
    have hne : r.layer.state ≠ .RETRY := by
      rw [hs]
      exact fun hn => nomatch hn
    refine ⟨_, by simp only [step, Layer.retrySent, if_neg hne]; rfl, ?_⟩
    exact ⟨.busy hg (by show r.retries - 1 ≤ 1; omega) hs he, h.nodup, h.peer, h.waiting, h.told,
      h.owes, h.called, h.order, h.past, h.time⟩
  | retry hg hr hs he hpeer hnow =>
    have hcalled := h.not_called he
    have hle := clock.le_clockEdge r.now
    have hzero : clock.clockEdge r.now ≠ 0 := by omega
    refine ⟨_, by simp only [step, Layer.retrySent, if_pos hs, Layer.occupyLayer,
      if_pos (⟨trivial, hzero, hle, he⟩ : True ∧ clock.clockEdge r.now ≠ 0 ∧
        r.now ≤ clock.clockEdge r.now ∧ r.layer.releaseEvent = none)]; rfl, ?_⟩
    refine ⟨.busy hg (by show r.retries - 1 ≤ 1; omega) rfl (fun hn => nomatch hn), h.nodup, h.peer,
      h.waiting, h.told, h.owes, ?_, h.order, h.past, ?_⟩
    · exact fun q hq => nomatch hcalled.symm.trans hq
    · rintro t ht
      obtain rfl := Option.some.inj ht
      exact ⟨hle, hzero⟩

/-- The retry of the port at the front: the layer is idle, its release is past, and every port of
    the queue waits. -/
theorem inv_retryWaiting {p : P} {rest : List P} {r : Run P} (hg : r.granted = none)
    (hr : r.retries = 0) (hnow : r.now ≠ 0) (hlist : r.layer.waitingForLayer = p :: rest)
    (hpeer : r.layer.waitingForPeer = none) (he : r.layer.releaseEvent = none)
    (hnodup : r.layer.waitingForLayer.Nodup)
    (hwaiting : ∀ q, r.Waits q → r.refusals q = r.retried q + 1)
    (htold : ∀ q, ¬ r.Waits q → r.refusals q = r.retried q) (howes : r.peerOwes = false)
    (hcalled : ∀ q, r.called = some q → q = p)
    (horder : r.queue.Pairwise fun a b => r.refusedAt a < r.refusedAt b)
    (hpast : ∀ q ∈ r.queue, r.refusedAt q < r.serial) :
    Inv ({ r with layer := { r.layer with state := .RETRY, waitingForLayer := rest } }.sendRetry
      (some p)) := by
  obtain ⟨hnot, hrest⟩ := nodup_cons.mp (hlist ▸ hnodup)
  have hnone : (if r.called = some p then none else r.called) = none := by
    split
    · rfl
    · rename_i hne
      cases hc : r.called with
      | none => rfl
      | some q => exact absurd (by rw [hc, hcalled q hc]) hne
  have hsub : ∀ q ∈ rest, q ∈ r.queue := by
    intro q hq
    unfold queue
    split
    · rw [hlist]
      exact mem_cons_of_mem p hq
    · rw [hlist]
      exact hq
  have hsorted : rest.Pairwise fun a b => r.refusedAt a < r.refusedAt b := by
    unfold queue at horder
    split at horder
    · rw [hlist] at horder
      exact (pairwise_cons.mp horder).2
    · rw [hlist] at horder
      exact horder
  have hqueue : (if (if r.called = some p then none else r.called) = none then rest
      else rest.tail) = rest := if_pos hnone
  refine ⟨.retry hg (by show r.retries + 1 = 1; omega) rfl he hpeer hnow, hrest, ?_, ?_, ?_, ?_, ?_,
    ?_, ?_, ?_⟩
  · exact fun q hq => nomatch hpeer.symm.trans hq
  · intro q hq
    have hmem : q ∈ rest := hq.resolve_right fun hs => nomatch hpeer.symm.trans hs
    show r.refusals q = update r.retried p _ q + 1
    have hqp : q ≠ p := by
      rintro rfl
      exact hnot hmem
    rw [update_of_ne hqp]
    exact hwaiting q (Or.inl (by rw [hlist]; exact mem_cons_of_mem p hmem))
  · intro q hq
    show r.refusals q = update r.retried p _ q
    by_cases hqp : q = p
    · rw [hqp, update_self]
      exact hwaiting p (Or.inl (by rw [hlist]; exact mem_cons_self))
    · rw [update_of_ne hqp]
      refine htold q fun hw => hq (hw.imp_left fun hmem => ?_)
      rw [hlist] at hmem
      exact (mem_cons.mp hmem).resolve_left hqp
  · exact ⟨fun h => Bool.noConfusion (howes.symm.trans h), fun h => absurd hpeer h⟩
  · exact fun q hq => nomatch hnone.symm.trans hq
  · show (if (if r.called = some p then none else r.called) = none then rest
      else rest.tail).Pairwise fun a b => r.refusedAt a < r.refusedAt b
    rw [hqueue]
    exact hsorted
  · intro q hq
    have hq : q ∈ (if (if r.called = some p then none else r.called) = none then rest
      else rest.tail) := hq
    rw [hqueue] at hq
    exact hpast q (hsub q hq)
  · exact fun t ht => nomatch he.symm.trans ht

theorem inv_release (h : Inv r) (hok : r.Allowed .release) :
    ∃ r', r.step clock .release = some r' ∧ Inv r' := by
  obtain ⟨hgranted, hretries, hscheduled⟩ := hok
  cases h.phase with
  | idle _ _ _ he _ _ => exact absurd he hscheduled
  | granted _ hg _ _ _ _ _ => exact nomatch hgranted.symm.trans hg
  | retry _ hr _ _ _ _ => omega
  | busy hg hr hs he =>
    obtain ⟨t, ht⟩ := Option.ne_none_iff_exists'.mp he
    obtain ⟨hnow, hzero⟩ := h.time t ht
    let l : Layer P := { r.layer with releaseEvent := none, state := .IDLE }
    by_cases hwait : r.layer.waitingForLayer ≠ [] ∧ r.layer.waitingForPeer = none
    · obtain ⟨hne, hpeer⟩ := hwait
      obtain ⟨p, rest, hlist⟩ := exists_cons_of_ne_nil hne
      refine ⟨_, ?_, inv_retryWaiting (r := { r with layer := l, now := t })
        hg hretries hzero hlist hpeer rfl h.nodup h.waiting h.told ?_ ?_ h.order h.past⟩
      · simp [step, ht, Layer.releaseLayer, hs, hpeer, hlist, Layer.retryWaiting, l]
      · exact Bool.eq_false_iff.mpr fun ho => h.owes.mp ho hpeer
      · intro q hq
        obtain ⟨⟨rest', hrest⟩, -⟩ := h.called q hq
        exact (List.cons.inj (hrest.symm.trans hlist)).1
    · refine ⟨{ r with layer := l, now := t }, ?_, ?_, h.nodup, h.peer, h.waiting, h.told, h.owes,
        ?_, h.order, h.past, fun u hu => nomatch hu⟩
      · simp only [step, ht, Option.bind_some, Layer.releaseLayer, hs, and_self, if_true,
          if_neg hwait]
        rfl
      · exact .idle hg hretries rfl rfl (fun hne hpeer => hwait ⟨hne, hpeer⟩) fun _ => hzero
      · intro q hq
        obtain ⟨⟨rest, hrest⟩, -, hpeer⟩ := h.called q hq
        exact absurd ⟨by rw [hrest]; exact cons_ne_nil q rest, hpeer⟩ hwait

theorem inv_recvRetry (h : Inv r) (hok : r.Allowed .recvRetry) :
    ∃ r', r.step clock .recvRetry = some r' ∧ Inv r' := by
  have hne := h.owes.mp hok
  obtain ⟨p, hp⟩ := Option.ne_none_iff_exists'.mp hne
  have hnot := h.peer p hp
  have hnone : r.called = none := by
    cases hc : r.called with
    | none => rfl
    | some q => exact absurd (h.called q hc).2.2 hne
  have hqueue : r.queue = r.layer.waitingForLayer := if_pos hnone
  let l : Layer P := { r.layer with
    waitingForLayer := p :: r.layer.waitingForLayer, waitingForPeer := none }
  let r' : Run P := { r with layer := l, peerOwes := false, called := some p }
  have hwaits : ∀ q, r'.Waits q ↔ r.Waits q := by
    intro q
    show q ∈ p :: r.layer.waitingForLayer ∨ none = some q ↔ _
    rw [Waits, hp, mem_cons]
    constructor
    · rintro ((rfl | hq) | hq)
      · exact Or.inr rfl
      · exact Or.inl hq
      · exact nomatch hq
    · rintro (hq | hq)
      · exact Or.inl (Or.inr hq)
      · exact Or.inl (Or.inl (Option.some.inj hq).symm)
  have hwaiting : ∀ q, r'.Waits q → r.refusals q = r.retried q + 1 := fun q hq =>
    h.waiting q ((hwaits q).mp hq)
  have htold : ∀ q, ¬ r'.Waits q → r.refusals q = r.retried q := fun q hq =>
    h.told q fun hw => hq ((hwaits q).mpr hw)
  have hnodup : (p :: r.layer.waitingForLayer).Nodup := nodup_cons.mpr ⟨hnot, h.nodup⟩
  have hqueue' : r'.queue = r.queue := (if_neg (Option.some_ne_none p)).trans hqueue.symm
  have horder : r'.queue.Pairwise fun a b => r.refusedAt a < r.refusedAt b := by
    rw [hqueue']
    exact h.order
  have hpast : ∀ q ∈ r'.queue, r.refusedAt q < r.serial := by
    rw [hqueue']
    exact h.past
  cases h.phase with
  | granted _ _ _ _ _ hpeer _ => exact absurd hpeer hne
  | retry _ _ _ _ hpeer _ => exact absurd hpeer hne
  | idle hg hr hs he hw hnow =>
    refine ⟨_, ?_, inv_retryWaiting (r := r') hg hr (hnow hne) rfl rfl he hnodup
      hwaiting htold rfl (fun q hq => (Option.some.inj hq).symm) horder hpast⟩
    simp [step, Layer.recvRetry, hp, hs, Layer.retryWaiting, r', l]
  | busy hg hr hs he =>
    refine ⟨r', ?_, .busy hg hr hs he, hnodup, fun q hq => (nomatch hq), hwaiting, htold,
      ⟨fun hb => Bool.noConfusion hb, fun hb => absurd rfl hb⟩, ?_, horder, hpast, h.time⟩
    · simp [step, Layer.recvRetry, hp, hs, r', l, sendRetry]
    · intro q hq
      obtain rfl := Option.some.inj hq
      exact ⟨⟨r.layer.waitingForLayer, rfl⟩, he, rfl⟩

theorem inv_advance {t : Nat} (h : Inv r) (hok : r.Allowed (.advance t)) :
    ∃ r', r.step clock (.advance t) = some r' ∧ Inv r' := by
  obtain ⟨hg, hr, hnow, hevent⟩ := hok
  refine ⟨{ r with now := t }, rfl, ?_, h.nodup, h.peer, h.waiting, h.told, h.owes, h.called,
    h.order, h.past, fun u hu => ⟨hevent u hu, (h.time u hu).2⟩⟩
  cases h.phase with
  | idle hg hr hs he hw hz =>
    refine .idle hg hr hs he hw fun hpeer => ?_
    have hpos := hz hpeer
    show t ≠ 0
    omega
  | busy hg hr hs he => exact .busy hg hr hs he
  | granted p hg' _ _ _ _ _ => exact nomatch hg.symm.trans hg'
  | retry _ hr' _ _ _ _ => omega

theorem inv_step (ev : Event P) (h : Inv r) (hok : r.Allowed ev) :
    ∃ r', r.step clock ev = some r' ∧ Inv r' := by
  cases ev with
  | tryTiming p => exact inv_tryTiming h hok
  | succeededTiming busy_time => exact inv_succeededTiming h hok
  | failedTiming busy_time => exact inv_failedTiming h hok
  | retryReturns => exact inv_retryReturns h hok
  | release => exact inv_release h hok
  | recvRetry => exact inv_recvRetry h hok
  | advance t => exact inv_advance h hok

/-! ## The order of the retries -/

/-- A retry goes to the front of the queue, or to the port that the destination calls for. -/
theorem retried_cases {ev : Event P} {r' : Run P} (hstep : r.step clock ev = some r') :
    r'.retried = r.retried ∨ ∃ p, r'.retried = update r.retried p (r.retried p + 1) ∧
      ((ev = .release ∧ ∃ rest, r.layer.waitingForLayer = p :: rest) ∨
        ev = .recvRetry ∧ r.layer.waitingForPeer = some p) := by
  have hwaiting : ∀ {l : Layer P} {x : Layer P × Option P}, l.retryWaiting = some x →
      ∃ p rest, l.waitingForLayer = p :: rest ∧ x.2 = some p := by
    intro l x hx
    unfold Layer.retryWaiting at hx
    split at hx
    · cases hx
    · rename_i p rest hlist
      split at hx
      · cases hx
        exact ⟨p, rest, hlist, rfl⟩
      · cases hx
  cases ev with
  | tryTiming p =>
    left
    obtain ⟨x, -, rfl⟩ := Option.map_eq_some_iff.mp hstep
    split
    · rfl
    · rfl
  | succeededTiming busy_time =>
    left
    obtain ⟨l, -, rfl⟩ := Option.map_eq_some_iff.mp hstep
    rfl
  | failedTiming busy_time =>
    left
    obtain ⟨p, -, hstep⟩ := Option.bind_eq_some_iff.mp hstep
    obtain ⟨l, -, rfl⟩ := Option.map_eq_some_iff.mp hstep
    rfl
  | retryReturns =>
    left
    obtain ⟨l, -, rfl⟩ := Option.map_eq_some_iff.mp hstep
    rfl
  | advance t =>
    left
    cases hstep
    rfl
  | release =>
    obtain ⟨t, -, hstep⟩ := Option.bind_eq_some_iff.mp hstep
    obtain ⟨x, hx, rfl⟩ := Option.map_eq_some_iff.mp hstep
    unfold Layer.releaseLayer at hx
    split at hx
    · dsimp only at hx
      split at hx
      · obtain ⟨p, rest, hlist, hp⟩ := hwaiting hx
        refine Or.inr ⟨p, ?_, Or.inl ⟨rfl, rest, hlist⟩⟩
        rw [hp]
        rfl
      · cases hx
        exact Or.inl rfl
    · cases hx
  | recvRetry =>
    obtain ⟨x, hx, rfl⟩ := Option.map_eq_some_iff.mp hstep
    obtain ⟨p, hp, hx⟩ := Option.bind_eq_some_iff.mp hx
    dsimp only at hx
    split at hx
    · obtain ⟨q, rest, hlist, hq⟩ := hwaiting hx
      obtain rfl := (List.cons.inj hlist).1
      refine Or.inr ⟨p, ?_, Or.inr ⟨rfl, hp⟩⟩
      rw [hq]
      rfl
    · split at hx
      · cases hx
        exact Or.inl rfl
      · cases hx

/-- The one refused by the destination goes first once the destination has called for it; else the
    one that has waited longest. -/
theorem Inv.retry_order {ev : Event P} {r' : Run P} {p : P} (h : Inv r)
    (hstep : r.step clock ev = some r') (hp : r'.retried p ≠ r.retried p) :
    r'.retried = update r.retried p (r.retried p + 1) ∧
      (ev = .recvRetry ∧ r.layer.waitingForPeer = some p ∨ r.called = some p ∨
        r.called = none ∧ p ∈ r.layer.waitingForLayer ∧
          ∀ q ∈ r.layer.waitingForLayer, q ≠ p → r.refusedAt p < r.refusedAt q) := by
  rcases retried_cases hstep with hsame | ⟨q, hq, hwhy⟩
  · exact absurd (congrFun hsame p) hp
  · obtain rfl : p = q := by
      by_contra hne
      exact hp (by rw [hq, update_of_ne hne])
    refine ⟨hq, ?_⟩
    rcases hwhy with ⟨-, rest, hlist⟩ | hwhy
    · right
      cases hc : r.called with
      | some c =>
        obtain ⟨⟨rest', hrest⟩, -⟩ := h.called c hc
        left
        rw [(List.cons.inj (hrest.symm.trans hlist)).1]
      | none =>
        right
        have horder := h.order
        rw [queue, if_pos hc, hlist] at horder
        refine ⟨rfl, by rw [hlist]; exact mem_cons_self, fun b hb hne => ?_⟩
        rw [hlist] at hb
        exact (pairwise_cons.mp horder).1 b ((mem_cons.mp hb).resolve_left hne)
    · exact Or.inl hwhy

/-- A port waits in one of the two places as often as it was refused more than it was retried. -/
theorem Inv.refusals_eq (h : Inv r) (p : P) :
    r.refusals p = r.retried p + (r.layer.waitingForLayer.count p +
        if r.layer.waitingForPeer = some p then 1 else 0) ∧
      r.refusals p ≤ r.retried p + 1 := by
  by_cases hlayer : p ∈ r.layer.waitingForLayer
  · have hpeer : r.layer.waitingForPeer ≠ some p := fun hp => h.peer p hp hlayer
    have hwaiting := h.waiting p (Or.inl hlayer)
    rw [count_eq_one_of_mem h.nodup hlayer, if_neg hpeer]
    omega
  · rw [count_eq_zero_of_not_mem hlayer]
    by_cases hpeer : r.layer.waitingForPeer = some p
    · have hwaiting := h.waiting p (Or.inr hpeer)
      rw [if_pos hpeer]
      omega
    · have htold := h.told p (not_or.mpr ⟨hlayer, hpeer⟩)
      rw [if_neg hpeer]
      omega

omit [DecidableEq P] in
theorem Inv.between (h : Inv r) (hg : r.granted = none) (hr : r.retries = 0) :
    (r.layer.state = .BUSY ↔ r.layer.releaseEvent ≠ none) ∧ (r.layer.waitingForLayer ≠ [] →
        r.layer.releaseEvent ≠ none ∨ r.layer.waitingForPeer ≠ none) := by
  cases h.phase with
  | idle _ _ hs he hw _ =>
    refine ⟨⟨fun hb => ?_, fun hb => absurd he hb⟩, fun hne => Or.inr (hw hne)⟩
    rw [hs] at hb
    cases hb
  | busy _ _ hs he => exact ⟨⟨fun _ => he, fun _ => hs⟩, fun _ => Or.inl he⟩
  | granted p hg' _ _ _ _ _ => exact nomatch hg.symm.trans hg'
  | retry _ hr' _ _ _ _ => omega

/-- In every run of a layer: each refused port waits in exactly one place until it is sent one
    retry; the retries go out in the order of the refusals, the one refused by the destination first
    once it is called for; between calls the layer is busy just when its release is scheduled, and
    does not leave a port waiting for nothing; and no assertion fails. -/
theorem no_waiting_port_lost {evs : List (Event P)}
    (hok : Trace.Obeys Allowed (step clock) ({} : Run P) evs) :
    ∃ r, Trace.runs (step clock) ({} : Run P) evs = some r ∧
      (∀ p, r.refusals p = r.retried p + (r.layer.waitingForLayer.count p +
          if r.layer.waitingForPeer = some p then 1 else 0) ∧
        r.refusals p ≤ r.retried p + 1) ∧
      (∀ ev r', r.Allowed ev → r.step clock ev = some r' → ∀ p, r'.retried p ≠ r.retried p →
        r'.retried = update r.retried p (r.retried p + 1) ∧
          (ev = .recvRetry ∧ r.layer.waitingForPeer = some p ∨ r.called = some p ∨
            r.called = none ∧ p ∈ r.layer.waitingForLayer ∧
              ∀ q ∈ r.layer.waitingForLayer, q ≠ p → r.refusedAt p < r.refusedAt q)) ∧
      (r.granted = none → r.retries = 0 → (r.layer.state = .BUSY ↔ r.layer.releaseEvent ≠ none) ∧
          (r.layer.waitingForLayer ≠ [] →
            r.layer.releaseEvent ≠ none ∨ r.layer.waitingForPeer ≠ none)) ∧
      ∀ ev, r.Allowed ev → ∃ r', r.step clock ev = some r' := by
  obtain ⟨r, hrun, h⟩ := hok.runs Inv (fun _ e hi he => inv_step e hi he) inv_init
  refine ⟨r, hrun, h.refusals_eq, fun ev r' _ hs p hp => h.retry_order hs hp, h.between,
    fun ev he => ?_⟩
  obtain ⟨r', hs, -⟩ := inv_step ev h he
  exact ⟨r', hs⟩

end Run

/-- A clock with an edge every ten ticks. -/
def everyTen : Clock where
  clockEdge t := (t + 9) / 10 * 10
  le_clockEdge t := by omega

namespace Run

/-- The destination refuses port 0 and calls for it while the layer is busy; 1 and 2 wait. -/
def refusedThenCalled : List (Event Nat) :=
  [.tryTiming 0, .failedTiming 10, .tryTiming 1, .tryTiming 2, .recvRetry, .release, .tryTiming 0,
    .succeededTiming 20, .retryReturns, .release, .retryReturns]

/-- Each refusal was answered by a retry or still waits for one. -/
theorem no_waiting_port_lost_called :
    ∃ r, Trace.runs (step everyTen) {} refusedThenCalled = some r ∧
    ∀ p, r.refusals p = r.retried p + (r.layer.waitingForLayer.count p +
      if r.layer.waitingForPeer = some p then 1 else 0) := by
  have hok : Trace.Obeys Allowed (step everyTen) {} refusedThenCalled := by decide
  obtain ⟨r, hrun, hplaces, -⟩ := no_waiting_port_lost hok
  exact ⟨r, hrun, fun p => (hplaces p).1⟩

end Run

end Gem5Dvr.XBar
