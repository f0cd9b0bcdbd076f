/-
  The packet queue (`mem/packet_queue.cc` 65-225).

    1. The functions of the source.  What fails is told apart (`Failure`): the panic of the sanity
       check ends a simulation that went astray elsewhere, the assertions are the queue's own.
    2. `Run`: the calls, with all that was scheduled and all that was sent, in order.  The packets
       that an accepted send enqueues are part of the send.
    3. The crux: what was sent and what is on the list are, one after the other, what was scheduled:
       the ones of an address in the order of scheduling, or all in the order of their ticks, those
       of one tick in the order of scheduling.  An event that is scheduled is not before the tick of
       the packet in front.
-/
import Mathlib.Algebra.Group.Nat.Defs
import Mathlib.Data.List.Basic
import Gem5Dvr.Lib.Trace

namespace Gem5Dvr.PacketQ

open List

/-- The largest tick stands for never. -/
def MaxTick : Nat := 2 ^ 64 - 1

/-- What is read of a packet. -/
structure Packet where
  addr : Nat
  secure : Bool := false
  isExpressSnoop : Bool := false
  deriving DecidableEq, Repr

/-- The same address, with its security. -/
def Packet.matchAddr (p pkt : Packet) : Bool := p.addr = pkt.addr && p.secure = pkt.secure

/-- A packet and its time. -/
structure DeferredPacket where
  tick : Nat
  pkt : Packet
  deriving DecidableEq, Repr

/-- What stops the queue. -/
inductive Failure | late | expressSnoop | grown | scheduled | notWaiting | waiting | notReady
  deriving DecidableEq, Repr

/-- The packets, and what is scheduled. -/
structure PacketQueue where
  forceOrder : Bool := false
  disableSanityCheck : Bool := false
  transmitList : List DeferredPacket := []
  sendEvent : Option Nat := none
  waitingOnRetry : Bool := false
  deriving DecidableEq, Repr

namespace PacketQueue

variable (q : PacketQueue)

/-- When the first packet is due. -/
def deferredPacketReadyTime : Nat :=
  match q.transmitList with
  | [] => MaxTick
  | dp :: _ => dp.tick

/-- The event at a time, if that is sooner. -/
def schedSendEvent (now when : Nat) : Except Failure PacketQueue :=
  if q.waitingOnRetry = true then
    if q.sendEvent.isSome = true then .error .scheduled else .ok q
  else if when ≠ MaxTick then
    let when := max when (now + 1)
    match q.sendEvent with
    | none => .ok { q with sendEvent := some when }
    | some t => .ok (if when < t then { q with sendEvent := some when } else q)
  else .ok q

/-- The search for the place, from the end of the list: none when it is before every other. -/
def emplaceFrom (stops : DeferredPacket → Bool) (dp : DeferredPacket) :
    List DeferredPacket → Option (List DeferredPacket)
  | [] => none
  | it :: rest =>
    if stops it = true then some (dp :: it :: rest)
    else (emplaceFrom stops dp rest).map fun l => it :: l

/-- A packet at its time. -/
def schedSendTiming (now : Nat) (pkt : Packet) (when : Nat) : Except Failure PacketQueue :=
  if when < now then .error .late
  else if pkt.isExpressSnoop = true then .error .expressSnoop
  else if q.disableSanityCheck = false ∧ q.transmitList.length > 128 then .error .grown
  else
    match emplaceFrom (fun it => q.forceOrder && it.pkt.matchAddr pkt || it.tick ≤ when)
        ⟨when, pkt⟩ q.transmitList.reverse with
    | some l => .ok { q with transmitList := l.reverse }
    | none => { q with transmitList := ⟨when, pkt⟩ :: q.transmitList }.schedSendEvent now when

/-- The packets that a send enqueues. -/
def enqueue (now : Nat) : List DeferredPacket → PacketQueue → Except Failure PacketQueue
  | [], q => .ok q
  | dp :: rest, q => (q.schedSendTiming now dp.pkt dp.tick).bind (enqueue now rest)

/-- `sendDeferredPacket`: the queue, and the packet that `sendTiming` is given.  The peer accepts it
    or not, and in the meantime packets may be enqueued. -/
def sendDeferredPacket (now : Nat) (accepted : Bool) (during : List DeferredPacket) :
    Except Failure (PacketQueue × DeferredPacket) :=
  if q.waitingOnRetry = true then .error .waiting
  else
    match q.transmitList with
    | [] => .error .notReady
    | dp :: rest =>
      if dp.tick ≤ now then
        (enqueue now during { q with transmitList := rest }).bind fun q =>
          if accepted = true then
            (q.schedSendEvent now q.deferredPacketReadyTime).map fun q => (q, dp)
          else .ok ({ q with waitingOnRetry := true, transmitList := dp :: q.transmitList }, dp)
      else .error .notReady

/-- `processSendEvent`, when its event has left the event queue. -/
def processSendEvent (now : Nat) (accepted : Bool) (during : List DeferredPacket) :
    Except Failure (PacketQueue × DeferredPacket) :=
  { q with sendEvent := none }.sendDeferredPacket now accepted during

/-- The peer asks again. -/
def retry (now : Nat) (accepted : Bool) (during : List DeferredPacket) :
    Except Failure (PacketQueue × DeferredPacket) :=
  if q.waitingOnRetry = true then
    { q with waitingOnRetry := false }.sendDeferredPacket now accepted during
  else .error .notWaiting

end PacketQueue

/-! ## Runs -/

/-- The queue, and what has been sent. -/
structure Run where
  queue : PacketQueue
  now : Nat := 0
  scheduled : List DeferredPacket := []
  /-- What was sent, and when. -/
  sent : List (DeferredPacket × Nat) := []
  /-- The peer has refused a packet and not called for it. -/
  refused : Bool := false
  /-- The sanity check has ended the simulation. -/
  panicked : Bool := false

/-- The calls. -/
inductive Event
  | schedSendTiming (pkt : Packet) (when : Nat)
  | sendEvent (accepted : Bool) (during : List DeferredPacket)
  | retry (accepted : Bool) (during : List DeferredPacket)
  | advance (t : Nat)

namespace Run

variable (r : Run)

/-- Before the first call. -/
def init (forceOrder disableSanityCheck : Bool) : Run where
  queue := { forceOrder := forceOrder, disableSanityCheck := disableSanityCheck }

/-- What is left of a run by a call that succeeds, panics or fails. -/
def after {α : Type} (x : Except Failure α) (f : α → Run) : Option Run :=
  match x with
  | .ok a => some (f a)
  | .error .grown => some { r with panicked := true }
  | .error _ => none

/-- The record of a send. -/
def send (accepted : Bool) (during : List DeferredPacket) (x : PacketQueue × DeferredPacket) :
    Run :=
  if accepted = true then
    { r with
      queue := x.1
      scheduled := r.scheduled ++ during
      sent := r.sent ++ [(x.2, r.now)]
      refused := false }
  else { r with queue := x.1, refused := true }

/-- A call. -/
def step : Event → Option Run
  | .schedSendTiming pkt when =>
    r.after (r.queue.schedSendTiming r.now pkt when) fun q =>
      { r with queue := q, scheduled := r.scheduled ++ [⟨when, pkt⟩] }
  | .sendEvent accepted during =>
    r.after (r.queue.processSendEvent r.now accepted during) (r.send accepted during)
  | .retry accepted during =>
    r.after (r.queue.retry r.now accepted during) (r.send accepted during)
  | .advance t => some { r with now := t }

/-- A packet to be sent later, at a tick up to `last`. -/
def Later (last : Nat) (dp : DeferredPacket) : Prop :=
  r.now ≤ dp.tick ∧ dp.tick ≤ last ∧ dp.pkt.isExpressSnoop = false

/-- Packets are scheduled for now or later; the event fires at its time; a retry comes when the
    peer owes one; a refused send enqueues nothing; time goes on, to no later than the event. -/
def Allowed (last : Nat) : Event → Prop
  | .schedSendTiming pkt when => r.panicked = false ∧ r.Later last ⟨when, pkt⟩
  | .sendEvent accepted during => r.panicked = false ∧ r.queue.sendEvent = some r.now ∧
    (∀ dp ∈ during, r.Later last dp) ∧ (accepted = false → during = [])
  | .retry accepted during => r.panicked = false ∧ r.refused = true ∧
    (∀ dp ∈ during, r.Later last dp) ∧ (accepted = false → during = [])
  | .advance t => r.panicked = false ∧ r.now ≤ t ∧ t ≤ last ∧ ∀ u ∈ r.queue.sendEvent, t ≤ u

instance decidableAllowed (last : Nat) (ev : Event) : Decidable (r.Allowed last ev) := by
  cases ev <;> unfold Allowed Later <;> infer_instance

end Run

/-! ## The list -/

/-- Those before which a packet is not put. -/
def Stops (forceOrder : Bool) (dp it : DeferredPacket) : Bool :=
  forceOrder && it.pkt.matchAddr dp.pkt || it.tick ≤ dp.tick

theorem emplaceFrom_some {stops : DeferredPacket → Bool} {dp : DeferredPacket} :
    ∀ {l l' : List DeferredPacket}, PacketQueue.emplaceFrom stops dp l = some l' →
      ∃ a x b, l = a ++ x :: b ∧ l' = a ++ dp :: x :: b ∧ stops x = true ∧
        ∀ y ∈ a, stops y = false := by
  intro l
  induction l with
  | nil => exact fun h => nomatch h
  | cons it rest ih =>
    intro l' h
    rw [PacketQueue.emplaceFrom] at h
    split at h
    · rename_i hstop
      cases h
      exact ⟨[], it, rest, rfl, rfl, hstop, fun y hy => absurd hy not_mem_nil⟩
    · rename_i hgo
      obtain ⟨l, hl, rfl⟩ := Option.map_eq_some_iff.mp h
      obtain ⟨a, x, b, rfl, rfl, hx, ha⟩ := ih hl
      refine ⟨it :: a, x, b, rfl, rfl, hx, fun y hy => ?_⟩
      rcases mem_cons.mp hy with rfl | hy
      · exact Bool.eq_false_iff.mpr hgo
      · exact ha y hy

theorem emplaceFrom_none {stops : DeferredPacket → Bool} {dp : DeferredPacket} :
    ∀ {l : List DeferredPacket}, PacketQueue.emplaceFrom stops dp l = none →
      ∀ y ∈ l, stops y = false := by
  intro l
  induction l with
  | nil => exact fun _ y hy => absurd hy not_mem_nil
  | cons it rest ih =>
    intro h y hy
    rw [PacketQueue.emplaceFrom] at h
    split at h
    · cases h
    · rename_i hgo
      rcases mem_cons.mp hy with rfl | hy
      · exact Bool.eq_false_iff.mpr hgo
      · exact ih (Option.map_eq_none_iff.mp h) y hy

/-- What was sent and what is on the list, against what was scheduled. -/
structure Tracks (forceOrder : Bool) (history scheduled : List DeferredPacket) : Prop where
  perm : history.Perm scheduled
  forced : forceOrder = true → ∀ p : Packet,
    history.filter (fun dp => dp.pkt.matchAddr p) = scheduled.filter fun dp => dp.pkt.matchAddr p
  ordered : forceOrder = false → history.Pairwise (fun a b => a.tick ≤ b.tick) ∧
    ∀ t, history.filter (fun dp => dp.tick = t) = scheduled.filter fun dp => dp.tick = t

/-- Of a kind of which there is none after it, a packet is the last. -/
theorem filter_insert {p : DeferredPacket → Bool} {dp : DeferredPacket}
    {before after scheduled : List DeferredPacket}
    (h : (before ++ after).filter p = scheduled.filter p)
    (hafter : p dp = true → ∀ y ∈ after, p y = false) :
    (before ++ dp :: after).filter p = (scheduled ++ [dp]).filter p := by
  rw [filter_append, filter_append, ← h, filter_append]
  cases hp : p dp with
  | false =>
    rw [filter_cons_of_neg (by rw [hp]; exact Bool.false_ne_true),
      filter_cons_of_neg (by rw [hp]; exact Bool.false_ne_true), filter_nil,
      append_nil]
  | true =>
    have hnone : after.filter p = [] :=
      filter_eq_nil_iff.mpr fun y hy => by rw [hafter hp y hy]; exact Bool.false_ne_true
    rw [filter_cons_of_pos hp, filter_cons_of_pos hp, hnone, filter_nil, append_nil]

theorem matchAddr_trans {a b c : Packet} (h : a.matchAddr c = true) (h' : b.matchAddr c = true) :
    b.matchAddr a = true := by
  simp only [Packet.matchAddr, Bool.and_eq_true, decide_eq_true_eq] at h h' ⊢
  exact ⟨h'.1.trans h.1.symm, h'.2.trans h.2.symm⟩

/-- A packet is put on the list, behind what was sent. -/
theorem Tracks.insert {forceOrder : Bool} {s pre post scheduled : List DeferredPacket}
    {dp : DeferredPacket} (h : Tracks forceOrder (s ++ (pre ++ post)) scheduled)
    (hpast : ∀ x ∈ s, x.tick ≤ dp.tick) (hpre : ∀ x ∈ pre.getLast?, Stops forceOrder dp x = true)
    (hpost : ∀ y ∈ post, Stops forceOrder dp y = false) :
    Tracks forceOrder (s ++ (pre ++ dp :: post)) (scheduled ++ [dp]) := by
  have hassoc : s ++ (pre ++ dp :: post) = (s ++ pre) ++ dp :: post := (append_assoc ..).symm
  rw [← append_assoc] at h
  rw [hassoc]
  refine ⟨?_, fun hf p => ?_, fun hf => ⟨?_, fun t => ?_⟩⟩
  · refine perm_middle.trans ((h.perm.cons dp).trans ?_)
    exact (perm_append_singleton dp scheduled).symm
  · refine filter_insert (h.forced hf p) fun hp y hy => ?_
    have hstop := hpost y hy
    rw [Stops, hf, Bool.true_and, Bool.or_eq_false_iff] at hstop
    by_contra hmatch
    have hy : y.pkt.matchAddr dp.pkt = true := matchAddr_trans hp (Bool.of_not_eq_false hmatch)
    exact Bool.noConfusion (hstop.1.symm.trans hy)
  · obtain ⟨hbefore, hpost', hcross⟩ := pairwise_append.mp (h.ordered hf).1
    have hlater : ∀ y ∈ post, dp.tick < y.tick := by
      intro y hy
      have hstop := hpost y hy
      rw [Stops, hf, Bool.false_and, Bool.false_or] at hstop
      exact Nat.lt_of_not_le (of_decide_eq_false hstop)
    refine pairwise_append.mpr ⟨hbefore, pairwise_cons.mpr
      ⟨fun y hy => Nat.le_of_lt (hlater y hy), hpost'⟩, fun x hx y hy => ?_⟩
    have hxdp : x.tick ≤ dp.tick := by
      rcases mem_append.mp hx with hx | hx
      · exact hpast x hx
      · -- all before it are not later than the last of them
        rcases eq_nil_or_concat pre with rfl | ⟨front, last, rfl⟩
        · exact absurd hx not_mem_nil
        · have hstop := hpre last (by simp)
          rw [Stops, hf, Bool.false_and, Bool.false_or] at hstop
          have hlast : last.tick ≤ dp.tick := of_decide_eq_true hstop
          rw [concat_eq_append] at hx hbefore
          rcases mem_append.mp hx with hx | hx
          · have hpair := (pairwise_append.mp hbefore).2.1
            have hle := (pairwise_append.mp hpair).2.2 x hx last mem_cons_self
            exact Nat.le_trans hle hlast
          · rw [mem_singleton.mp hx]
            exact hlast
    rcases mem_cons.mp hy with rfl | hy
    · exact hxdp
    · exact hcross x hx y hy
  · refine filter_insert ((h.ordered hf).2 t) fun ht y hy => ?_
    have hstop := hpost y hy
    rw [Stops, hf, Bool.false_and, Bool.false_or] at hstop
    have hlt := Nat.lt_of_not_le (of_decide_eq_false hstop)
    have hdp : dp.tick = t := of_decide_eq_true ht
    exact decide_eq_false (by omega)

/-! ## The event -/

namespace PacketQueue

/-- What holds of the event at any time, in the midst of a send too. -/
structure EventOk (q : PacketQueue) (now : Nat) : Prop where
  event : ∀ t, q.sendEvent = some t → now ≤ t ∧ ∃ dp rest, q.transmitList = dp :: rest ∧ dp.tick ≤ t
  wait : q.waitingOnRetry = true → q.sendEvent = none ∧
    ∃ dp rest, q.transmitList = dp :: rest ∧ dp.tick ≤ now
  below : ∀ dp ∈ q.transmitList, dp.tick < MaxTick

/-- Queues that differ in their lists and their events. -/
def SameFlags (q q' : PacketQueue) : Prop :=
  q'.forceOrder = q.forceOrder ∧ q'.waitingOnRetry = q.waitingOnRetry

variable {q : PacketQueue} {now : Nat}

/-- The event is scheduled for the packet in front, if it is not for earlier. -/
theorem schedSendEvent_spec {dp : DeferredPacket} {rest : List DeferredPacket}
    (hlist : q.transmitList = dp :: rest) (hwait : q.waitingOnRetry = false)
    (hevent : ∀ t, q.sendEvent = some t → now ≤ t ∧ dp.tick ≤ t)
    (hbelow : ∀ x ∈ q.transmitList, x.tick < MaxTick) :
    ∃ q', q.schedSendEvent now dp.tick = .ok q' ∧ EventOk q' now ∧ SameFlags q q' ∧
      q'.transmitList = q.transmitList ∧ q'.sendEvent ≠ none := by
  have hmax : dp.tick ≠ MaxTick := Nat.ne_of_lt (hbelow dp (by rw [hlist]; exact mem_cons_self))
  have hne : ¬ q.waitingOnRetry = true := by
    rw [hwait]
    exact Bool.false_ne_true
  have hnew : EventOk { q with sendEvent := some (max dp.tick (now + 1)) } now := by
    refine ⟨fun t ht => ?_, fun hw => absurd hw hne, hbelow⟩
    obtain rfl := Option.some.inj ht
    exact ⟨by omega, dp, rest, hlist, Nat.le_max_left _ _⟩
  have hold : EventOk q now :=
    ⟨fun t ht => ⟨(hevent t ht).1, dp, rest, hlist, (hevent t ht).2⟩, fun hw => absurd hw hne,
      hbelow⟩
  unfold schedSendEvent
  rw [if_neg hne, if_pos hmax]
  cases hs : q.sendEvent with
  | none => exact ⟨_, rfl, hnew, ⟨rfl, rfl⟩, rfl, Option.some_ne_none _⟩
  | some t =>
    dsimp only
    split
    · exact ⟨_, rfl, hnew, ⟨rfl, rfl⟩, rfl, Option.some_ne_none _⟩
    · exact ⟨q, rfl, hold, ⟨rfl, rfl⟩, rfl, by rw [hs]; exact Option.some_ne_none _⟩

/-- What a call that enqueues leaves: the event of a list that had one, or of one that was empty. -/
structure Enqueued (q q' : PacketQueue) (now : Nat) : Prop where
  ok : EventOk q' now
  same : SameFlags q q'
  event : q.sendEvent ≠ none ∨ q.transmitList = [] ∧ q.waitingOnRetry = false → q'.sendEvent ≠ none

theorem schedSendTiming_spec {pkt : Packet} {when : Nat} (h : EventOk q now) (hnow : now ≤ when)
    (hlast : when < MaxTick) (hsnoop : pkt.isExpressSnoop = false) :
    q.schedSendTiming now pkt when = .error .grown ∨
      ∃ q' pre post, q.schedSendTiming now pkt when = .ok q' ∧ q.transmitList = pre ++ post ∧
        q'.transmitList = pre ++ ⟨when, pkt⟩ :: post ∧
        (∀ x ∈ pre.getLast?, Stops q.forceOrder ⟨when, pkt⟩ x = true) ∧
        (∀ y ∈ post, Stops q.forceOrder ⟨when, pkt⟩ y = false) ∧ Enqueued q q' now := by
  have hsnoop : ¬ pkt.isExpressSnoop = true := by
    rw [hsnoop]
    exact Bool.false_ne_true
  unfold schedSendTiming
  rw [if_neg (Nat.not_lt.mpr hnow), if_neg hsnoop]
  split
  · exact Or.inl rfl
  · right
    have hbelow : ∀ {l : List DeferredPacket}, (∀ x ∈ l, x = ⟨when, pkt⟩ ∨ x ∈ q.transmitList) →
        ∀ x ∈ l, x.tick < MaxTick := by
      intro l hl x hx
      rcases hl x hx with rfl | hx
      · exact hlast
      · exact h.below x hx
    cases hem : emplaceFrom (fun it => q.forceOrder && it.pkt.matchAddr pkt || it.tick ≤ when)
        ⟨when, pkt⟩ q.transmitList.reverse with
    | some l =>
      obtain ⟨a, x, b, hlist, rfl, hstop, ha⟩ := emplaceFrom_some hem
      have hsplit : q.transmitList = (b.reverse ++ [x]) ++ a.reverse := by
        rw [← reverse_reverse q.transmitList, hlist]
        simp
      refine ⟨_, b.reverse ++ [x], a.reverse, rfl, hsplit, by simp, ?_, ?_, ⟨?_, ⟨rfl, rfl⟩, ?_⟩⟩
      · intro y hy
        rw [getLast?_concat] at hy
        obtain rfl := Option.some.inj hy
        exact hstop
      · exact fun y hy => ha y (mem_reverse.mp hy)
      · -- the packet in front stays
        have hfront : ∀ {dp rest}, q.transmitList = dp :: rest →
            ∃ rest', (a ++ ⟨when, pkt⟩ :: x :: b).reverse = dp :: rest' := by
          intro dp rest hdp
          rw [hsplit] at hdp
          rw [show (a ++ ⟨when, pkt⟩ :: x :: b).reverse =
            (b.reverse ++ [x]) ++ ⟨when, pkt⟩ :: a.reverse by simp]
          cases hb : b.reverse ++ [x] with
          | nil => simp at hb
          | cons y ys =>
            rw [hb] at hdp
            exact ⟨_, by rw [cons_append, (List.cons.inj hdp).1]⟩
        refine ⟨fun t ht => ?_, fun hw => ?_, hbelow fun y hy => ?_⟩
        · obtain ⟨hle, dp, rest, hdp, htick⟩ := h.event t ht
          obtain ⟨rest', hrest⟩ := hfront hdp
          exact ⟨hle, dp, rest', hrest, htick⟩
        · obtain ⟨hnone, dp, rest, hdp, htick⟩ := h.wait hw
          obtain ⟨rest', hrest⟩ := hfront hdp
          exact ⟨hnone, dp, rest', hrest, htick⟩
        · rw [hsplit]
          simp only [reverse_append, reverse_cons, mem_append, mem_cons,
            mem_reverse, not_mem_nil, or_false] at hy ⊢
          tauto
      · rintro (hs | ⟨hnil, -⟩)
        · exact hs
        · rw [hnil] at hsplit
          simp at hsplit
    | none =>
      have hgo : ∀ y ∈ q.transmitList, Stops q.forceOrder ⟨when, pkt⟩ y = false := fun y hy =>
        emplaceFrom_none hem y (mem_reverse.mpr hy)
      have hlater : ∀ y ∈ q.transmitList, when < y.tick := by
        intro y hy
        have hstop := hgo y hy
        rw [Stops, Bool.or_eq_false_iff] at hstop
        exact Nat.lt_of_not_le (of_decide_eq_false hstop.2)
      -- a refused packet would stop the search
      have hwait : q.waitingOnRetry = false := by
        by_contra hw
        obtain ⟨-, dp, rest, hdp, htick⟩ := h.wait (Bool.of_not_eq_false hw)
        have hlt := hlater dp (by rw [hdp]; exact mem_cons_self)
        omega
      have hevent : ∀ t, q.sendEvent = some t → now ≤ t ∧ when ≤ t := by
        intro t ht
        obtain ⟨hle, dp, rest, hdp, htick⟩ := h.event t ht
        have hlt := hlater dp (by rw [hdp]; exact mem_cons_self)
        exact ⟨hle, by omega⟩
      let front : PacketQueue := { q with transmitList := ⟨when, pkt⟩ :: q.transmitList }
      have hfront : front.transmitList = ⟨when, pkt⟩ :: q.transmitList := rfl
      obtain ⟨q', hq', hok, hsame, hlist, hevent⟩ := schedSendEvent_spec hfront hwait hevent
        (hbelow fun x hx => mem_cons.mp hx)
      exact ⟨q', [], q.transmitList, hq', rfl, hlist, fun x hx => (nomatch hx), hgo,
        ⟨hok, hsame, fun _ => hevent⟩⟩

/-- The packets that a send enqueues. -/
theorem enqueue_spec {s : List DeferredPacket} (hs : ∀ x ∈ s, x.tick ≤ now) :
    ∀ {during : List DeferredPacket} {q : PacketQueue} {scheduled : List DeferredPacket},
      EventOk q now → Tracks q.forceOrder (s ++ q.transmitList) scheduled →
      (∀ dp ∈ during, now ≤ dp.tick ∧ dp.tick < MaxTick ∧ dp.pkt.isExpressSnoop = false) →
      enqueue now during q = .error .grown ∨
        ∃ q', enqueue now during q = .ok q' ∧ EventOk q' now ∧ SameFlags q q' ∧
          Tracks q'.forceOrder (s ++ q'.transmitList) (scheduled ++ during) := by
  intro during
  induction during with
  | nil =>
    intro q scheduled h htracks _
    refine Or.inr ⟨q, rfl, h, ⟨rfl, rfl⟩, ?_⟩
    rw [append_nil]
    exact htracks
  | cons dp rest ih =>
    intro q scheduled h htracks hall
    obtain ⟨hnow, hlast, hsnoop⟩ := hall dp mem_cons_self
    rcases schedSendTiming_spec h hnow hlast hsnoop with hgrown | hspec
    · left
      rw [enqueue, hgrown]
      rfl
    · obtain ⟨q', pre, post, hq', hlist, hlist', hpre, hpost, henq⟩ := hspec
      rw [hlist] at htracks
      have htracks' := htracks.insert (fun x hx => Nat.le_trans (hs x hx) hnow) hpre hpost
      rw [← hlist', ← henq.same.1] at htracks'
      have hrest := ih henq.ok htracks' fun x hx => hall x (mem_cons_of_mem dp hx)
      rw [enqueue, hq']
      rcases hrest with hgrown | ⟨q'', hq'', hok, hsame, hlast⟩
      · exact Or.inl hgrown
      · refine Or.inr ⟨q'', hq'', hok, ⟨hsame.1.trans henq.same.1, hsame.2.trans henq.same.2⟩, ?_⟩
        rw [append_assoc] at hlast
        exact hlast

/-- What holds between calls. -/
structure Idle (q : PacketQueue) (now : Nat) : Prop extends EventOk q now where
  served : q.transmitList ≠ [] → q.waitingOnRetry = true ∨ q.sendEvent ≠ none

/-- A send from a list whose first packet is ready, with no event and nothing refused. -/
theorem sendDeferredPacket_spec (accepted : Bool)
    {s scheduled during rest : List DeferredPacket} {dp : DeferredPacket}
    (hlist : q.transmitList = dp :: rest)
    (hready : dp.tick ≤ now) (hwait : q.waitingOnRetry = false) (hevent : q.sendEvent = none)
    (hbelow : ∀ x ∈ q.transmitList, x.tick < MaxTick) (hs : ∀ x ∈ s, x.tick ≤ now)
    (htracks : Tracks q.forceOrder (s ++ q.transmitList) scheduled)
    (hduring : ∀ x ∈ during, now ≤ x.tick ∧ x.tick < MaxTick ∧ x.pkt.isExpressSnoop = false)
    (hrefused : accepted = false → during = []) :
    q.sendDeferredPacket now accepted during = .error .grown ∨
      ∃ q', q.sendDeferredPacket now accepted during = .ok (q', dp) ∧ Idle q' now ∧
        q'.forceOrder = q.forceOrder ∧ q'.waitingOnRetry = !accepted ∧
        (accepted = true →
          Tracks q.forceOrder ((s ++ [dp]) ++ q'.transmitList) (scheduled ++ during)) ∧
        (accepted = false → q'.transmitList = q.transmitList) := by
  have hne : ¬ q.waitingOnRetry = true := by
    rw [hwait]
    exact Bool.false_ne_true
  let mid : PacketQueue := { q with transmitList := rest }
  have hmid : EventOk mid now := by
    refine ⟨fun t ht => ?_, fun hw => absurd hw hne, fun x hx => hbelow x ?_⟩
    · exact nomatch hevent.symm.trans ht
    · rw [hlist]
      exact mem_cons_of_mem dp hx
  have hsent : ∀ x ∈ s ++ [dp], x.tick ≤ now := by
    intro x hx
    rcases mem_append.mp hx with hx | hx
    · exact hs x hx
    · rw [mem_singleton.mp hx]
      exact hready
  have htracks' : Tracks mid.forceOrder ((s ++ [dp]) ++ mid.transmitList) scheduled := by
    rw [append_assoc]
    rw [hlist] at htracks
    exact htracks
  unfold sendDeferredPacket
  rw [if_neg hne, hlist]
  dsimp only
  rw [if_pos hready]
  rcases enqueue_spec hsent hmid htracks' hduring with hgrown | ⟨q₁, hq₁, hok, hsame, htracks₁⟩
  · left
    rw [hgrown]
    rfl
  · right
    have hwait₁ : q₁.waitingOnRetry = false := hsame.2.trans hwait
    rw [hq₁]
    cases accepted with
    | false =>
      obtain rfl := hrefused rfl
      obtain rfl : mid = q₁ := Except.ok.inj hq₁
      refine ⟨_, rfl, ⟨⟨fun t ht => ?_, fun _ => ?_, ?_⟩, fun _ => Or.inl rfl⟩, rfl, rfl,
        fun h => (nomatch h), fun _ => rfl⟩
      · exact nomatch hevent.symm.trans ht
      · exact ⟨hevent, dp, rest, rfl, hready⟩
      · rw [← hlist]
        exact hbelow
    | true =>
      show ∃ q', (q₁.schedSendEvent now q₁.deferredPacketReadyTime).map _ = _ ∧ _
      cases hlist₁ : q₁.transmitList with
      | nil =>
        have hdone : q₁.schedSendEvent now q₁.deferredPacketReadyTime = .ok q₁ := by
          rw [schedSendEvent, if_neg (by rw [hwait₁]; exact Bool.false_ne_true),
            if_neg (by rw [deferredPacketReadyTime, hlist₁]; exact fun h => h rfl)]
        refine ⟨q₁, by rw [hdone]; rfl, ⟨hok, fun h => absurd hlist₁ h⟩, hsame.1, hwait₁,
          fun _ => ?_, fun h => (nomatch h)⟩
        rw [hsame.1] at htracks₁
        exact htracks₁
      | cons x xs =>
        have hready₁ : q₁.deferredPacketReadyTime = x.tick := by
          rw [deferredPacketReadyTime, hlist₁]
        obtain ⟨q', hq', hok', hsame', hlist', hevent'⟩ := schedSendEvent_spec hlist₁ hwait₁
          (fun t ht => by
            obtain ⟨hle, y, ys, hy, htick⟩ := hok.event t ht
            rw [hlist₁] at hy
            rw [(List.cons.inj hy).1]
            exact ⟨hle, htick⟩) hok.below
        refine ⟨q', by rw [hready₁, hq']; rfl, ⟨hok', fun _ => Or.inr hevent'⟩,
          hsame'.1.trans hsame.1, hsame'.2.trans hwait₁, fun _ => ?_, fun h => (nomatch h)⟩
        rw [hlist']
        rw [hsame.1] at htracks₁
        exact htracks₁

end PacketQueue

/-! ## The invariant -/

namespace Run

open PacketQueue (Idle EventOk)

structure Inv (forceOrder : Bool) (r : Run) : Prop where
  idle : Idle r.queue r.now
  force : r.queue.forceOrder = forceOrder
  tracks : Tracks r.queue.forceOrder (r.sent.map Prod.fst ++ r.queue.transmitList) r.scheduled
  times : ∀ x ∈ r.sent, x.1.tick ≤ x.2 ∧ x.2 ≤ r.now
  refused : r.refused = true ↔ r.queue.waitingOnRetry = true

variable {forceOrder : Bool} {r : Run}

theorem inv_init (forceOrder disableSanityCheck : Bool) :
    Inv forceOrder (init forceOrder disableSanityCheck) := by
  refine ⟨⟨⟨fun t ht => (nomatch ht), fun h => (nomatch h), fun dp h => ?_⟩, fun h => absurd rfl h⟩,
    rfl, ⟨Perm.nil, fun _ _ => rfl, fun _ => ⟨List.Pairwise.nil, fun _ => rfl⟩⟩,
    fun x hx => ?_, Iff.rfl⟩
  · exact absurd h not_mem_nil
  · exact absurd hx not_mem_nil

/-- A panic changes nothing else. -/
theorem Inv.panic (h : Inv forceOrder r) : Inv forceOrder { r with panicked := true } :=
  ⟨h.idle, h.force, h.tracks, h.times, h.refused⟩

theorem Inv.sent_le (h : Inv forceOrder r) : ∀ x ∈ r.sent.map Prod.fst, x.tick ≤ r.now := by
  intro x hx
  obtain ⟨y, hy, rfl⟩ := mem_map.mp hx
  exact Nat.le_trans (h.times y hy).1 (h.times y hy).2

theorem inv_schedSendTiming {last : Nat} {pkt : Packet} {when : Nat} (hlast : last < MaxTick)
    (h : Inv forceOrder r) (hok : r.Allowed last (.schedSendTiming pkt when)) :
    ∃ r', r.step (.schedSendTiming pkt when) = some r' ∧ Inv forceOrder r' := by
  obtain ⟨-, hnow, hle, hsnoop⟩ := hok
  rcases PacketQueue.schedSendTiming_spec h.idle.toEventOk hnow (Nat.lt_of_le_of_lt hle hlast)
    hsnoop with hgrown | ⟨q', pre, post, hq', hlist, hlist', hpre, hpost, henq⟩
  · exact ⟨_, by rw [step, hgrown]; rfl, h.panic⟩
  · have htracks := h.tracks
    rw [hlist] at htracks
    have htracks' := htracks.insert (fun x hx => Nat.le_trans (h.sent_le x hx) hnow) hpre hpost
    rw [← hlist', ← henq.same.1] at htracks'
    refine ⟨{ r with queue := q', scheduled := r.scheduled ++ [⟨when, pkt⟩] },
      by rw [step, hq']; rfl, ⟨henq.ok, fun _ => ?_⟩, henq.same.1.trans h.force, htracks', h.times,
      ?_⟩
    · show q'.waitingOnRetry = true ∨ q'.sendEvent ≠ none
      rw [henq.same.2]
      cases hw : r.queue.waitingOnRetry with
      | true => exact Or.inl rfl
      | false =>
        refine Or.inr (henq.event ?_)
        by_cases hnil : r.queue.transmitList = []
        · exact Or.inr ⟨hnil, hw⟩
        · rcases h.idle.served hnil with hwait | hevent
          · exact nomatch hw.symm.trans hwait
          · exact Or.inl hevent
    · show r.refused = true ↔ q'.waitingOnRetry = true
      rw [henq.same.2]
      exact h.refused

/-- A send of the packet in front, from `q`: the queue of the run without its event and its wait. -/
theorem inv_send {last : Nat} {q : PacketQueue} (accepted : Bool) {during : List DeferredPacket}
    (hlast : last < MaxTick) (h : Inv forceOrder r)
    (hq : q = { r.queue with sendEvent := none, waitingOnRetry := false })
    (hready : ∃ dp rest, r.queue.transmitList = dp :: rest ∧ dp.tick ≤ r.now)
    (hduring : ∀ dp ∈ during, r.Later last dp) (hrefused : accepted = false → during = []) :
    ∃ r', r.after (q.sendDeferredPacket r.now accepted during) (r.send accepted during) =
      some r' ∧ Inv forceOrder r' := by
  subst hq
  obtain ⟨dp, rest, hlist, htick⟩ := hready
  rcases PacketQueue.sendDeferredPacket_spec
      (q := { r.queue with sendEvent := none, waitingOnRetry := false }) accepted hlist htick
      rfl rfl h.idle.below h.sent_le h.tracks
      (fun x hx => ⟨(hduring x hx).1, Nat.lt_of_le_of_lt (hduring x hx).2.1 hlast,
        (hduring x hx).2.2⟩) hrefused with hgrown | ⟨q', hq', hidle, hforce, hwait, hacc, href⟩
  · exact ⟨_, by rw [hgrown]; rfl, h.panic⟩
  · refine ⟨_, by rw [hq']; rfl, ?_⟩
    cases accepted with
    | true =>
      refine ⟨hidle, hforce.trans h.force, ?_, fun x hx => ?_, ?_⟩
      · show Tracks q'.forceOrder ((r.sent ++ [(dp, r.now)]).map Prod.fst ++ q'.transmitList) _
        rw [hforce, map_append]
        exact hacc rfl
      · rcases mem_append.mp hx with hx | hx
        · exact h.times x hx
        · rw [mem_singleton.mp hx]
          exact ⟨htick, Nat.le_refl _⟩
      · show false = true ↔ q'.waitingOnRetry = true
        rw [hwait]
        rfl
    | false =>
      refine ⟨hidle, hforce.trans h.force, ?_, h.times, ?_⟩
      · show Tracks q'.forceOrder (r.sent.map Prod.fst ++ q'.transmitList) _
        rw [hforce, href rfl]
        exact h.tracks
      · show true = true ↔ q'.waitingOnRetry = true
        rw [hwait]
        rfl

theorem inv_step {last : Nat} (ev : Event) (hlast : last < MaxTick) (h : Inv forceOrder r)
    (hok : r.Allowed last ev) :
    ∃ r', r.step ev = some r' ∧ Inv forceOrder r' := by
  cases ev with
  | schedSendTiming pkt when => exact inv_schedSendTiming hlast h hok
  | sendEvent accepted during =>
    obtain ⟨-, hevent, hduring, hrefused⟩ := hok
    have hwait : r.queue.waitingOnRetry = false := by
      by_contra hw
      exact nomatch hevent.symm.trans (h.idle.wait (Bool.of_not_eq_false hw)).1
    refine inv_send accepted hlast h ?_ (h.idle.event r.now hevent).2 hduring hrefused
    rw [← hwait]
  | retry accepted during =>
    obtain ⟨-, howes, hduring, hrefused⟩ := hok
    have hwait := h.refused.mp howes
    obtain ⟨hnone, hready⟩ := h.idle.wait hwait
    have hsend := inv_send accepted hlast h rfl hready hduring hrefused
    rw [step, PacketQueue.retry, if_pos hwait]
    rw [← hnone] at hsend
    exact hsend
  | advance t =>
    obtain ⟨-, hnow, -, hevent⟩ := hok
    refine ⟨_, rfl, ⟨⟨fun u hu => ⟨hevent u hu, (h.idle.event u hu).2⟩, fun hw => ?_, h.idle.below⟩,
      h.idle.served⟩, h.force, h.tracks, fun x hx => ?_, h.refused⟩
    · obtain ⟨hnone, dp, rest, hlist, htick⟩ := h.idle.wait hw
      exact ⟨hnone, dp, rest, hlist, Nat.le_trans htick hnow⟩
    · exact ⟨(h.times x hx).1, Nat.le_trans (h.times x hx).2 hnow⟩

/-- In every run whose ticks are before the one that stands for never: what was scheduled was sent
    once or is on the list, and was sent no earlier than its tick; with `forceOrder` the packets of
    an address leave as they were scheduled, without it all packets leave in the order of their
    ticks, those of one tick as they were scheduled; a list that is not empty waits for a retry or
    for its event, never for both; and no assertion fails. -/
theorem sent_once_in_order {forceOrder disableSanityCheck : Bool} {last : Nat} {evs : List Event}
    (hlast : last < MaxTick)
    (hok : Trace.Obeys (fun r ev => r.Allowed last ev) step (init forceOrder disableSanityCheck)
      evs) :
    ∃ r, Trace.runs step (init forceOrder disableSanityCheck) evs = some r ∧
      (r.sent.map Prod.fst ++ r.queue.transmitList).Perm r.scheduled ∧
      (∀ x ∈ r.sent, x.1.tick ≤ x.2) ∧
      (forceOrder = true → ∀ p : Packet,
        (r.sent.map Prod.fst ++ r.queue.transmitList).filter (fun dp => dp.pkt.matchAddr p) =
          r.scheduled.filter fun dp => dp.pkt.matchAddr p) ∧
      (forceOrder = false →
        (r.sent.map Prod.fst ++ r.queue.transmitList).Pairwise (fun a b => a.tick ≤ b.tick) ∧
          ∀ t, (r.sent.map Prod.fst ++ r.queue.transmitList).filter (fun dp => dp.tick = t) =
            r.scheduled.filter fun dp => dp.tick = t) ∧
      (r.queue.transmitList ≠ [] → (r.queue.waitingOnRetry = true ∨ r.queue.sendEvent ≠ none) ∧
          ¬ (r.queue.waitingOnRetry = true ∧ r.queue.sendEvent ≠ none)) ∧
      ∀ ev, r.Allowed last ev → ∃ r', r.step ev = some r' := by
  obtain ⟨r, hrun, h⟩ := hok.runs (Inv forceOrder) (fun _ ev hi he => inv_step ev hlast hi he)
    (inv_init forceOrder disableSanityCheck)
  have htracks := h.tracks
  rw [h.force] at htracks
  refine ⟨r, hrun, htracks.perm, fun x hx => (h.times x hx).1, htracks.forced, htracks.ordered,
    fun hne => ⟨h.idle.served hne, fun hboth => hboth.2 (h.idle.wait hboth.1).1⟩, fun ev he => ?_⟩
  obtain ⟨r', hs, -⟩ := inv_step ev hlast h he
  exact ⟨r', hs⟩

/-- A packet that is refused, and one of the same address behind it. -/
def refusedOnce : List Event :=
  [.schedSendTiming ⟨64, false, false⟩ 5, .schedSendTiming ⟨64, false, false⟩ 2, .advance 5,
    .sendEvent false [], .advance 7, .retry true [⟨9, ⟨128, false, false⟩⟩]]

/-- No packet goes out before its time, though one is refused. -/
theorem sent_once_in_order_refused : ∃ r, Trace.runs step (init true false) refusedOnce = some r ∧
    ∀ x ∈ r.sent, x.1.tick ≤ x.2 := by
  have hok : Trace.Obeys (fun r ev => r.Allowed 100 ev) step (init true false) refusedOnce := by
    decide
  obtain ⟨r, hrun, -, htimes, -⟩ := sent_once_in_order (by decide) hok
  exact ⟨r, hrun, htimes⟩

/-- A packet for the largest tick waits for nothing. -/
theorem unserved_at_MaxTick :
    ¬ ∀ evs, Trace.Obeys (fun r ev => r.Allowed MaxTick ev) step (init false false) evs →
      ∀ r, Trace.runs step (init false false) evs = some r → r.queue.transmitList ≠ [] →
        r.queue.waitingOnRetry = true ∨ r.queue.sendEvent ≠ none := by
  intro h
  have hok : Trace.Obeys (fun r ev => r.Allowed MaxTick ev) step (init false false)
      [.schedSendTiming ⟨64, false, false⟩ MaxTick] := by
    decide
  have hrun : (Trace.runs step (init false false)
      [.schedSendTiming ⟨64, false, false⟩ MaxTick]).map (fun r => r.queue) =
      some { transmitList := [⟨MaxTick, ⟨64, false, false⟩⟩] } := by
    decide
  obtain ⟨r, hr, hq⟩ := Option.map_eq_some_iff.mp hrun
  rcases h _ hok r hr (by rw [hq]; exact cons_ne_nil _ _) with hw | he
  · rw [hq] at hw
    exact nomatch hw
  · rw [hq] at he
    exact he rfl

end Run

end Gem5Dvr.PacketQ
