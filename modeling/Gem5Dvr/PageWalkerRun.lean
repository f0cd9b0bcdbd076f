/-
  Runs of the page-table walker.

    1. `Queue`: the first walk is under way, or the wrapper event is scheduled.
    2. `Inv`: with that, every translation is finished or its walk is in the queue, once.
    3. One lemma for each event (`Inv.start`, `Inv.recvTimingResp`, ...), each with what the event
       does to `work`; `Inv.next` puts them together.
    4. `walks_answered`, over every run.
-/
import Mathlib.Data.List.Range
import Mathlib.Data.List.Perm.Basic
import Gem5Dvr.PageWalker

namespace Gem5Dvr.PageWalker

open List

open Tlb (Tables PTESv39)

variable {g : Tables} {numSquashable : Nat}

/-! ## The invariant -/

/-- The queue, whether the wrapper event is scheduled, and the packets in flight. -/
inductive Queue : List WalkerState → Bool → List Packet → Prop where
  | idle : Queue [] false []
  | running {w : WalkerState} {ws : List WalkerState} {port : List Packet} (hw : Active w port)
      (hws : ∀ v ∈ ws, Fresh v) : Queue (w :: ws) false port
  | waiting {w : WalkerState} {ws : List WalkerState} (hws : ∀ v ∈ w :: ws, Fresh v) :
      Queue (w :: ws) true []

/-- The translations that were finished and those whose walks are queued, together. -/
def Walker.translations (s : Walker) : List Nat :=
  s.finished.map Prod.fst ++ s.currStates.map WalkerState.id

structure Inv (s : Walker) : Prop where
  once : s.translations.Perm (range s.walks)
  dropped : s.dropped = []
  queue : Queue s.currStates s.startWalkWrapperEvent s.port

/-- Twice the responses to come, and one for the wrapper event. -/
def work (s : Walker) : Nat :=
  (s.currStates.map fun w => 2 * remaining w).sum + s.startWalkWrapperEvent.toNat

/-- What an event does to the work; the wrapper event leaves no walk waiting in front. -/
def Progress (s s' : Walker) : Event → Prop
  | .start _ _ => True
  | .recvTimingResp _ _ _ => work s' < work s
  | .recvReqRetry _ => work s' = work s
  | .startWalkWrapper _ => work s' < work s ∧ ∀ w ws, s'.currStates = w :: ws → w.started = true
  | .squash _ => work s' = work s

theorem fresh_new (id : Nat) (req : Request) : Fresh { id, req } := rfl

theorem Fresh.started {w : WalkerState} (h : Fresh w) : w.started = false := by rw [h]

theorem Fresh.retrying {w : WalkerState} (h : Fresh w) : w.retrying = false := by rw [h]

theorem Fresh.inflight {w : WalkerState} (h : Fresh w) : w.inflight = 0 := by rw [h]

/-- The walks of the queue have different numbers. -/
theorem Inv.ids_nodup {s : Walker} (h : Inv s) : (s.currStates.map WalkerState.id).Nodup :=
  ((h.once.nodup_iff).mpr nodup_range).of_append_right

/-- The number of a new walk goes to the end. -/
theorem translations_snoc {s : Walker} (h : s.translations.Perm (range s.walks)) :
    (s.translations ++ [s.walks]).Perm (range (s.walks + 1)) := by
  rw [range_succ]
  exact h.append_right [s.walks]

/-! ## The queue -/

namespace Queue

variable {ws : List WalkerState} {b : Bool} {port : List Packet}

theorem of_nil (h : Queue [] b port) : b = false ∧ port = [] := by
  cases h
  exact ⟨rfl, rfl⟩

theorem snoc {w v : WalkerState} (h : Queue (w :: ws) b port) (hv : Fresh v) :
    Queue (w :: (ws ++ [v])) b port := by
  cases h with
  | running hw hws =>
    refine .running hw fun u hu => ?_
    rcases mem_append.mp hu with hu | hu
    · exact hws u hu
    · rwa [mem_singleton.mp hu]
  | waiting hws =>
    refine .waiting fun u hu => ?_
    rcases mem_append.mp (show u ∈ (w :: ws) ++ [v] from hu) with hu | hu
    · exact hws u hu
    · rwa [mem_singleton.mp hu]

/-- A packet in flight is that of the first walk. -/
theorem of_mem_port {pkt : Packet} (h : Queue ws b port) (hpkt : pkt ∈ port) :
    b = false ∧ ∃ w rest, ws = w :: rest ∧ Active w port ∧ ∀ v ∈ rest, Fresh v := by
  cases h with
  | idle => cases hpkt
  | running hw hws => exact ⟨rfl, _, _, rfl, hw, hws⟩
  | waiting => cases hpkt

/-- The wrapper event finds walks, none of them started. -/
theorem of_scheduled (h : Queue ws true port) : port = [] ∧ ws ≠ [] ∧ ∀ v ∈ ws, Fresh v := by
  cases h with
  | waiting hws => exact ⟨rfl, cons_ne_nil _ _, hws⟩

/-- What is left when the first walk is complete. -/
theorem of_fresh (h : ∀ v ∈ ws, Fresh v) : Queue ws (!ws.isEmpty) [] := by
  cases ws with
  | nil => exact .idle
  | cons w ws => exact .waiting h

end Queue

variable {s : Walker} {w : WalkerState} {ws : List WalkerState} {b : Bool} {port : List Packet}

/-! ## The events -/

theorem startFront_spec (hw : Fresh w)
    (hws : ∀ v ∈ ws, Fresh v) (hevent : s.startWalkWrapperEvent = false) (hport : s.port = [])
    (accept : Port) : ∃ w' sent, s.startFront g accept w ws =
      some { s with currStates := w' :: ws, port := sent, packets := s.packets + 1 } ∧
      w'.id = w.id ∧ remaining w' = remaining w ∧ w'.started = true ∧
      Queue (w' :: ws) s.startWalkWrapperEvent sent := by
  obtain ⟨w', sent, hstart, hid, hactive, hremaining⟩ := startWalk_spec (g := g) hw s.packets accept
  refine ⟨w', sent, ?_, hid, hremaining, hactive.started, ?_⟩
  · unfold Walker.startFront
    rw [hstart, hport]
    rfl
  · rw [hevent]
    exact .running hactive hws

theorem Inv.start (h : Inv s) (req : Request) (accept : Port) :
    ∃ s', s.start g req accept = some s' ∧ Inv s' := by
  have honce := translations_snoc h.once
  have hqueue := h.queue
  have hnew : Fresh ({ id := s.walks, req } : WalkerState) := fresh_new s.walks req
  unfold Walker.translations at honce
  unfold Walker.start
  cases hcurr : s.currStates with
  | nil =>
    rw [hcurr] at hqueue honce
    obtain ⟨hevent, hport⟩ := hqueue.of_nil
    let s₁ : Walker := { s with walks := s.walks + 1, currStates := [{ id := s.walks, req }] }
    obtain ⟨w', sent, hstart, hid, -, -, hqueue'⟩ :=
      startFront_spec (g := g) (s := s₁) hnew (fun v (hv : v ∈ []) => nomatch hv) hevent hport
        accept
    refine ⟨_, hstart, ⟨?_, h.dropped, hqueue'⟩⟩
    show (s.finished.map Prod.fst ++ [w'.id]).Perm (range (s.walks + 1))
    rw [hid]
    rwa [map_nil, append_nil] at honce
  | cons w ws =>
    rw [hcurr] at hqueue honce
    refine ⟨_, rfl, ⟨?_, h.dropped, hqueue.snoc hnew⟩⟩
    show (s.finished.map Prod.fst ++ (w :: ws ++ [({ id := s.walks, req } : WalkerState)]).map
      WalkerState.id).Perm (range (s.walks + 1))
    rw [map_append, ← append_assoc]
    exact honce

/-- Replacing the first walk. -/
theorem settle_continue {r : Received}
    (hnodup : ((w :: ws).map WalkerState.id).Nodup) (hr : r.walkComplete = false) :
    Walker.settle w.id r (w :: ws) = r.walk :: ws := by
  have hothers : ∀ v ∈ ws, v.id ≠ w.id := fun v hv heq =>
    (nodup_cons.mp hnodup).1 (heq ▸ mem_map_of_mem hv)
  unfold Walker.settle
  rw [hr, if_neg (by decide), map_cons, if_pos rfl]
  congr 1
  refine (map_congr_left fun v hv => ?_).trans (map_id ws)
  exact if_neg (hothers v hv)

/-- Dropping it. -/
theorem settle_complete {r : Received}
    (hnodup : ((w :: ws).map WalkerState.id).Nodup) (hr : r.walkComplete = true) :
    Walker.settle w.id r (w :: ws) = ws := by
  have hothers : ∀ v ∈ ws, v.id ≠ w.id := fun v hv heq =>
    (nodup_cons.mp hnodup).1 (heq ▸ mem_map_of_mem hv)
  unfold Walker.settle
  rw [hr, if_pos rfl, filter_cons_of_neg (by simp)]
  refine filter_eq_self.mpr fun v hv => ?_
  simpa using hothers v hv

theorem settle_nil (id : Nat) (r : Received) : Walker.settle id r [] = [] := by
  unfold Walker.settle
  split
  · rfl
  · rfl

theorem remaining_pos (w : WalkerState) : 0 < remaining w := by
  unfold remaining
  split
  · split
    · omega
    · omega
  · omega

/-- A response goes to the first walk.  The walk goes on, or it leaves the queue and the wrapper
    event is scheduled for the next one. -/
theorem recvTimingResp_spec (h : Inv s) {pkt : Packet} (hpkt : pkt ∈ s.port)
    (pte : PTESv39) (accept : Port) : ∃ w ws, s.currStates = w :: ws ∧ (∀ v ∈ ws, Fresh v) ∧
      s.startWalkWrapperEvent = false ∧
      ((∃ w' sent, s.recvTimingResp g pkt pte accept = some { s with
          currStates := w' :: ws, port := sent, packets := s.packets + 1 } ∧
        w'.id = w.id ∧ Active w' sent ∧ remaining w' < remaining w) ∨
      ∃ answer, s.recvTimingResp g pkt pte accept = some { s with
          currStates := ws, startWalkWrapperEvent := !ws.isEmpty, port := []
          packets := s.packets + 1, finished := (w.id, answer) :: s.finished }) := by
  obtain ⟨hevent, w, ws, hcurr, hactive, hws⟩ := h.queue.of_mem_port hpkt
  have hnodup := h.ids_nodup
  rw [hcurr] at hnodup
  obtain ⟨hport, hwalk, r, hrecv, hcases⟩ :=
    recvPacket_spec (g := g) hactive hpkt s.packets accept pte
  have hfind : (s.currStates ++ s.dropped).find? (fun v => v.id == pkt.walk) = some w := by
    rw [hcurr, hwalk, cons_append, find?_cons_of_pos (by simp)]
  have herase : s.port.erase pkt = [] := by rw [hport, erase_cons_head]
  refine ⟨w, ws, hcurr, hws, hevent, ?_⟩
  rcases hcases with ⟨hgoes, hanswer, hid, hactive', hless⟩ | ⟨hcomplete, hsent, hanswer⟩
  · refine .inl ⟨r.walk, r.sent, ?_, hid, hactive', hless⟩
    have hsettle := settle_continue hnodup hgoes
    rw [← hcurr] at hsettle
    unfold Walker.recvTimingResp
    rw [hfind]
    simp only [hrecv, hsettle, h.dropped, settle_nil, herase, hgoes,
      hanswer, Option.bind_some, Option.map_some, Option.map_none, Option.toList_none,
      nil_append, Bool.false_and, Bool.or_false]
  · obtain ⟨answer, ha⟩ := Option.isSome_iff_exists.mp hanswer
    refine .inr ⟨answer, ?_⟩
    have hsettle := settle_complete hnodup hcomplete
    rw [← hcurr] at hsettle
    unfold Walker.recvTimingResp
    rw [hfind]
    simp only [hrecv, hsettle, h.dropped, settle_nil, herase,
      hcomplete, hsent, ha, hevent, Option.bind_some, Option.map_some, Option.toList_some,
      nil_append, cons_append, Bool.true_and, Bool.false_or]

theorem Inv.recvTimingResp (h : Inv s) {pkt : Packet} (hpkt : pkt ∈ s.port)
    (pte : PTESv39) (accept : Port) :
    ∃ s', s.recvTimingResp g pkt pte accept = some s' ∧ Inv s' ∧ work s' < work s := by
  obtain ⟨w, ws, hcurr, hws, hevent, hcases⟩ := recvTimingResp_spec (g := g) h hpkt pte accept
  have honce := h.once
  unfold Walker.translations at honce
  rw [hcurr] at honce
  have hwork : work s = 2 * remaining w + (ws.map fun v => 2 * remaining v).sum := by
    unfold work
    rw [hcurr, hevent]
    rfl
  rcases hcases with ⟨w', sent, heq, hid, hactive, hless⟩ | ⟨answer, heq⟩
  · refine ⟨_, heq, ⟨?_, h.dropped, ?_⟩, ?_⟩
    · show (s.finished.map Prod.fst ++ (w' :: ws).map WalkerState.id).Perm (range s.walks)
      rw [map_cons, hid]
      exact honce
    · show Queue (w' :: ws) s.startWalkWrapperEvent sent
      rw [hevent]
      exact .running hactive hws
    · show ((w' :: ws).map fun v => 2 * remaining v).sum + s.startWalkWrapperEvent.toNat < work s
      rw [hwork, hevent, map_cons, sum_cons, Bool.toNat_false]
      omega
  · refine ⟨_, heq, ⟨?_, h.dropped, Queue.of_fresh hws⟩, ?_⟩
    · exact perm_middle.symm.trans honce
    · show (ws.map fun v => 2 * remaining v).sum + (!ws.isEmpty).toNat < work s
      have hpos := remaining_pos w
      have hbit := Bool.toNat_le (!ws.isEmpty)
      omega

/-- Nothing is retried among walks that were not started. -/
theorem retryAll_fresh (h : ∀ v ∈ ws, Fresh v) (accept : Port) :
    Walker.retryAll accept ws = (ws, []) := by
  induction ws with
  | nil => rfl
  | cons w ws ih =>
    have hw : ¬ w.retrying = true := by simp [(h w mem_cons_self).retrying]
    unfold Walker.retryAll
    rw [ih fun v hv => h v (mem_cons_of_mem w hv)]
    dsimp only
    rw [if_neg hw]

theorem Queue.retry (h : Queue ws b port) (accept : Port) :
    Queue (Walker.retryAll accept ws).1 b (port ++ (Walker.retryAll accept ws).2) ∧
      (Walker.retryAll accept ws).1.map WalkerState.id = ws.map WalkerState.id ∧
      ((Walker.retryAll accept ws).1.map fun w => 2 * remaining w) =
        ws.map fun w => 2 * remaining w := by
  cases h with
  | idle => exact ⟨.idle, rfl, rfl⟩
  | @running w ws port hw hws =>
    unfold Walker.retryAll
    rw [retryAll_fresh hws]
    dsimp only
    cases hretry : w.retrying with
    | true =>
      obtain ⟨rfl, hid, hactive, hremaining⟩ := retry_spec hw hretry accept
      rw [if_pos rfl]
      refine ⟨?_, ?_, ?_⟩
      · rw [nil_append, append_nil]
        exact .running hactive hws
      · rw [map_cons, hid, map_cons]
      · rw [map_cons, hremaining, map_cons]
    | false =>
      rw [if_neg (by decide), append_nil]
      exact ⟨.running hw hws, rfl, rfl⟩
  | waiting hws =>
    rw [retryAll_fresh hws]
    exact ⟨.waiting hws, rfl, rfl⟩

theorem Inv.recvReqRetry (h : Inv s) (accept : Port) :
    Inv (s.recvReqRetry accept) ∧ work (s.recvReqRetry accept) = work s := by
  obtain ⟨hqueue, hids, hremaining⟩ := h.queue.retry accept
  refine ⟨⟨?_, h.dropped, hqueue⟩, ?_⟩
  · show (s.finished.map Prod.fst ++ (Walker.retryAll accept s.currStates).1.map
      WalkerState.id).Perm (range s.walks)
    rw [hids]
    exact h.once
  · show ((Walker.retryAll accept s.currStates).1.map fun w => 2 * remaining w).sum +
      s.startWalkWrapperEvent.toNat = work s
    rw [hremaining]
    rfl

/-- The walks dropped by the loop of the wrapper event are answered, and leave nothing behind. -/
theorem squashLoop_spec (numSquashable : Nat) (s : Walker) (h : ∀ v ∈ s.currStates, Fresh v) :
    ∃ rest finished, Walker.squashLoop numSquashable s = { s with currStates := rest, finished } ∧
      rest <:+ s.currStates ∧
      (finished.map Prod.fst ++ rest.map WalkerState.id).Perm s.translations := by
  induction numSquashable generalizing s with
  | zero => exact ⟨s.currStates, s.finished, rfl, suffix_refl _, Perm.refl _⟩
  | succ n ih =>
    unfold Walker.squashLoop
    cases hcurr : s.currStates with
    | nil =>
      refine ⟨[], s.finished, ?_, suffix_refl _, ?_⟩
      · dsimp only
        rw [← hcurr]
      · unfold Walker.translations
        rw [hcurr]
    | cons w ws =>
      rw [hcurr] at h
      dsimp only
      by_cases hsquashed : s.squashed w.id = true
      · rw [if_pos hsquashed, if_pos (h w mem_cons_self).inflight]
        obtain ⟨rest, finished, heq, hsuffix, hperm⟩ :=
          ih { s with currStates := ws, finished := (w.id, .squashed) :: s.finished }
            fun v hv => h v (mem_cons_of_mem w hv)
        refine ⟨rest, finished, heq, hsuffix.trans (suffix_cons w ws), hperm.trans ?_⟩
        unfold Walker.translations
        rw [hcurr]
        exact perm_middle.symm
      · rw [if_neg hsquashed]
        refine ⟨w :: ws, s.finished, ?_, suffix_refl _, ?_⟩
        · rw [← hcurr]
        · unfold Walker.translations
          rw [hcurr]

theorem sum_remaining_suffix {rest : List WalkerState} (h : rest <:+ ws) :
    (rest.map fun w => 2 * remaining w).sum ≤ (ws.map fun w => 2 * remaining w).sum := by
  obtain ⟨front, rfl⟩ := h
  rw [map_append, sum_append]
  omega

theorem Inv.startWalkWrapper (h : Inv s) (hevent : s.startWalkWrapperEvent = true)
    (accept : Port) : ∃ s', { s with startWalkWrapperEvent := false }.startWalkWrapper g
      numSquashable accept = some s' ∧ Inv s' ∧ work s' < work s ∧
      ∀ w ws, s'.currStates = w :: ws → w.started = true := by
  have hqueue := h.queue
  rw [hevent] at hqueue
  obtain ⟨hport, hne, hfresh⟩ := hqueue.of_scheduled
  have hwork : work s = (s.currStates.map fun w => 2 * remaining w).sum + 1 := by
    unfold work
    rw [hevent, Bool.toNat_true]
  obtain ⟨rest, finished, heq, hsuffix, hperm⟩ :=
    squashLoop_spec numSquashable { s with startWalkWrapperEvent := false } hfresh
  have hless : (rest.map fun w => 2 * remaining w).sum ≤
      (s.currStates.map fun w => 2 * remaining w).sum := sum_remaining_suffix hsuffix
  have honce := hperm.trans h.once
  have hfront : ∀ v ∈ rest, Fresh v := fun v hv => hfresh v (hsuffix.subset hv)
  unfold Walker.startWalkWrapper
  rw [if_neg (by simpa using hne), heq]
  cases rest with
  | nil =>
    refine ⟨_, rfl, ⟨honce, h.dropped, ?_⟩, ?_, fun w ws hcons => by cases hcons⟩
    · show Queue [] false s.port
      rw [hport]
      exact .idle
    · rw [hwork]
      exact Nat.succ_pos _
  | cons w ws =>
    have hw : ¬ w.started = true := by simp [(hfront w mem_cons_self).started]
    obtain ⟨w', sent, hstart, hid, hremaining, hstarted, hqueue'⟩ := startFront_spec (g := g)
      (s := { s with startWalkWrapperEvent := false, currStates := w :: ws, finished })
      (hfront w mem_cons_self) (fun v hv => hfront v (mem_cons_of_mem w hv)) rfl hport
      accept
    dsimp only
    rw [if_neg hw]
    refine ⟨_, hstart, ⟨?_, h.dropped, hqueue'⟩, ?_, fun v vs hcons => ?_⟩
    · show (finished.map Prod.fst ++ (w' :: ws).map WalkerState.id).Perm (range s.walks)
      rw [map_cons, hid]
      exact honce
    · show ((w' :: ws).map fun w => 2 * remaining w).sum + 0 < work s
      rw [map_cons, hremaining]
      rw [map_cons] at hless
      omega
    · obtain ⟨rfl, -⟩ := List.cons.inj hcons
      exact hstarted

/-- Every legal event has a result, keeps the invariant and does its part of the work. -/
theorem Inv.next (g : Tables) (numSquashable : Nat) (h : Inv s) {e : Event} (hlegal : Legal s e) :
    ∃ s', step g numSquashable s e = some s' ∧ Inv s' ∧ Progress s s' e := by
  cases e with
  | start req accept =>
    obtain ⟨s', hs', hinv⟩ := h.start (g := g) req accept
    exact ⟨s', hs', hinv, trivial⟩
  | recvTimingResp pkt pte accept => exact h.recvTimingResp hlegal pte accept
  | recvReqRetry accept =>
    obtain ⟨hinv, hwork⟩ := h.recvReqRetry accept
    exact ⟨_, rfl, hinv, hwork⟩
  | startWalkWrapper accept => exact h.startWalkWrapper hlegal accept
  | squash translation => exact ⟨_, rfl, ⟨h.once, h.dropped, h.queue⟩, rfl⟩

theorem inv_init : Inv {} := ⟨Perm.refl _, rfl, .idle⟩

/-! ## Every walk is answered once -/

/-- A packet is in flight, a refused one waits for its retry, or the wrapper event is scheduled. -/
def Due (s : Walker) : Prop :=
  s.port ≠ [] ∨ (∃ w ∈ s.currStates, w.retrying = true) ∨ s.startWalkWrapperEvent = true

/-- The packets of a walk in flight. -/
def Walker.portOf (s : Walker) (w : WalkerState) : List Packet :=
  s.port.filter fun pkt => pkt.walk == w.id

structure Answered (s : Walker) : Prop where
  once : s.translations.Perm (range s.walks)
  due : s.currStates ≠ [] → Due s
  one_in_flight : ∀ w ∈ s.currStates ++ s.dropped, ∀ v ∈ s.currStates ++ s.dropped,
    w.squashed = false → v.squashed = false → 0 < w.inflight → 0 < v.inflight → w = v
  restarted : ∀ w ws, s.currStates = w :: ws → w.started = false → s.startWalkWrapperEvent = true
  accounted : ∀ w ∈ s.currStates ++ s.dropped, w.inflight = (s.portOf w).length ∧
    ((w.read.toList ++ w.writes ++ s.portOf w).map Packet.id).Perm w.live ∧ w.live.Nodup

/-- The one packet of a walk under way is accounted for. -/
theorem Active.accounted (h : Active w port) :
    w.inflight = (port.filter fun pkt => pkt.walk == w.id).length ∧
    ((w.read.toList ++ w.writes ++ port.filter fun pkt => pkt.walk == w.id).map Packet.id).Perm
      w.live ∧ w.live.Nodup := by
  obtain ⟨-, -, -, pkt, hwalk, hlive, -, hholds⟩ := h
  rw [hlive]
  cases hholds with
  | sent _ hin hread hwrites hport =>
    rw [hport, hin, hread, hwrites, filter_cons_of_pos (by simp [hwalk])]
    exact ⟨rfl, Perm.refl _, nodup_singleton _⟩
  | read _ hin hread hwrites hport _ =>
    rw [hport, hin, hread, hwrites]
    exact ⟨rfl, Perm.refl _, nodup_singleton _⟩
  | write _ hin hread hwrites hport _ =>
    rw [hport, hin, hread, hwrites]
    exact ⟨rfl, Perm.refl _, nodup_singleton _⟩

/-- A walk that was not started has no packet, and none in flight is its. -/
theorem Fresh.accounted (h : Fresh w) (hport : ∀ pkt ∈ port, pkt.walk ≠ w.id) :
    w.inflight = (port.filter fun pkt => pkt.walk == w.id).length ∧
    ((w.read.toList ++ w.writes ++ port.filter fun pkt => pkt.walk == w.id).map Packet.id).Perm
      w.live ∧ w.live.Nodup := by
  have hnone : (port.filter fun pkt => pkt.walk == w.id) = [] :=
    filter_eq_nil_iff.mpr fun pkt hpkt => by simpa using hport pkt hpkt
  rw [hnone]
  obtain ⟨id, req, rfl⟩ : ∃ id req, w = { id, req } := ⟨w.id, w.req, h⟩
  exact ⟨rfl, Perm.refl _, nodup_nil⟩

theorem Active.due (h : Active w port) : port ≠ [] ∨ w.retrying = true := by
  obtain ⟨-, -, -, pkt, -, -, -, hholds⟩ := h
  cases hholds with
  | sent _ _ _ _ hport => exact .inl (by simp [hport])
  | read hretry => exact .inr hretry
  | write hretry => exact .inr hretry

/-- Every packet in flight is that of the walk under way. -/
theorem Active.port_walk (h : Active w port) : ∀ pkt ∈ port, pkt.walk = w.id := by
  obtain ⟨-, -, -, p, hwalk, -, -, hholds⟩ := h
  intro pkt hpkt
  cases hholds with
  | sent _ _ _ _ hport =>
    rw [hport] at hpkt
    rw [mem_singleton.mp hpkt, hwalk]
  | read _ _ _ _ hport => rw [hport] at hpkt; cases hpkt
  | write _ _ _ _ hport => rw [hport] at hpkt; cases hpkt

/-- Only the walk in front has packets in flight. -/
theorem Queue.front (h : Queue ws b port)
    (hw : w ∈ ws) (hin : 0 < w.inflight) : ∃ rest, ws = w :: rest := by
  cases h with
  | idle => cases hw
  | @running u us _ hu hus =>
    rcases mem_cons.mp hw with rfl | hw
    · exact ⟨us, rfl⟩
    · exact absurd (hus w hw).inflight (Nat.pos_iff_ne_zero.mp hin)
  | waiting hus => exact absurd (hus w hw).inflight (Nat.pos_iff_ne_zero.mp hin)

theorem Queue.due (h : Queue ws b port)
    (hne : ws ≠ []) : port ≠ [] ∨ (∃ w ∈ ws, w.retrying = true) ∨ b = true := by
  cases h with
  | idle => exact absurd rfl hne
  | running hu _ =>
    rcases hu.due with hport | hretry
    · exact .inl hport
    · exact .inr (.inl ⟨_, mem_cons_self, hretry⟩)
  | waiting _ => exact .inr (.inr rfl)

theorem Queue.restarted (h : Queue (w :: ws) b port) (hstarted : w.started = false) : b = true := by
  cases h with
  | running hu _ =>
    rw [hu.started] at hstarted
    cases hstarted
  | waiting _ => rfl

theorem Queue.accounted (h : Queue ws b port) (hnodup : (ws.map WalkerState.id).Nodup)
    (hw : w ∈ ws) : w.inflight = (port.filter fun pkt => pkt.walk == w.id).length ∧
    ((w.read.toList ++ w.writes ++ port.filter fun pkt => pkt.walk == w.id).map Packet.id).Perm
      w.live ∧ w.live.Nodup := by
  cases h with
  | idle => cases hw
  | @running u us _ hu hus =>
    rcases mem_cons.mp hw with rfl | hw
    · exact hu.accounted
    · refine (hus w hw).accounted fun pkt hpkt heq => ?_
      rw [hu.port_walk pkt hpkt] at heq
      exact (nodup_cons.mp hnodup).1 (heq ▸ mem_map_of_mem hw)
  | waiting hus => exact (hus w hw).accounted fun _ hpkt => by cases hpkt

theorem Inv.answered (h : Inv s) : Answered s := by
  refine ⟨h.once, fun hne => h.queue.due hne, fun w hw v hv _ _ hwin hvin => ?_,
    fun w ws hcurr hstarted => ?_, fun w hw => ?_⟩
  · rw [h.dropped, append_nil] at hw hv
    obtain ⟨ws, hws⟩ := h.queue.front hw hwin
    obtain ⟨vs, hvs⟩ := h.queue.front hv hvin
    rw [hws] at hvs
    exact (List.cons.inj hvs).1
  · have hqueue := h.queue
    rw [hcurr] at hqueue
    exact hqueue.restarted hstarted
  · rw [h.dropped, append_nil] at hw
    exact h.queue.accounted h.ids_nodup hw

/-- The events that bring an answer nearer. -/
def Event.works : Event → Bool
  | .recvTimingResp _ _ _ => true
  | .startWalkWrapper _ => true
  | _ => false

def Event.starts : Event → Bool
  | .start _ _ => true
  | _ => false

/-- Without new walks, no more responses and wrapper events come than there is work. -/
theorem Inv.bounded (h : Inv s) {es : List Event} (hstarts : ∀ e ∈ es, e.starts = false)
    (hlegal : Trace.Obeys Legal (step g numSquashable) s es) :
    es.countP Event.works ≤ work s := by
  induction es generalizing s with
  | nil => exact Nat.zero_le _
  | cons e es ih =>
    obtain ⟨s', hs', hinv, hprogress⟩ := h.next g numSquashable hlegal.1
    have hrest := ih hinv (fun e' he' => hstarts e' (mem_cons_of_mem e he')) (hlegal.2 s' hs')
    have hstart := hstarts e mem_cons_self
    rw [countP_cons]
    cases e with
    | start req accept => cases hstart
    | recvTimingResp pkt pte accept =>
      have : work s' < work s := hprogress
      show _ + 1 ≤ _
      omega
    | recvReqRetry accept =>
      have : work s' = work s := hprogress
      show _ + 0 ≤ _
      omega
    | startWalkWrapper accept =>
      have : work s' < work s := hprogress.1
      show _ + 1 ≤ _
      omega
    | squash translation =>
      have : work s' = work s := hprogress
      show _ + 0 ≤ _
      omega

/-- In every run each translation passed to `start` is finished once or its walk is queued once;
    while a walk is queued something is due, every legal event has a result, and without new walks
    only `work` many responses and wrapper events are left until nothing is. -/
theorem walks_answered (g : Tables) (numSquashable : Nat) (es : List Event)
    (hlegal : Trace.Obeys Legal (step g numSquashable) {} es) :
    ∃ s, Trace.runs (step g numSquashable) {} es = some s ∧ Answered s ∧
      (∀ e, Legal s e → ∃ s', step g numSquashable s e = some s' ∧ Progress s s' e) ∧
      ∀ later, (∀ e ∈ later, e.starts = false) →
        Trace.Obeys Legal (step g numSquashable) s later → later.countP Event.works ≤ work s := by
  obtain ⟨s, hrun, hinv⟩ := hlegal.runs Inv (fun s e hs he => by
    obtain ⟨s', hs', hinv, -⟩ := hs.next g numSquashable he
    exact ⟨s', hs', hinv⟩) inv_init
  refine ⟨s, hrun, hinv.answered, fun e he => ?_, fun later hstarts hlater =>
    hinv.bounded hstarts hlater⟩
  obtain ⟨s', hs', -, hprogress⟩ := hinv.next g numSquashable he
  exact ⟨s', hs', hprogress⟩

def allowed : Tables where
  root := fun _ => 0
  pmp := fun _ _ => true

def readOf (vaddr : BitVec 64) : Request := ⟨{ mode := .Read, prv := .PRV_S }, vaddr, 1⟩

def takes : Port := fun _ => true

def refuses : Port := fun _ => false

/-- Three walks; the second translation is squashed.  The first read is refused and sent again, and
    finds no valid entry; the wrapper event then starts the third walk. -/
def threeWalks : List Event := [.start (readOf 0x1000#64) refuses, .start (readOf 0x2000#64) takes,
    .start (readOf 0x3000#64) takes, .squash 1, .recvReqRetry takes,
    .recvTimingResp ⟨0, 0, 0, false⟩ {} takes, .startWalkWrapper takes]

/-- Two walks are answered, and the third is waiting for its read. -/
theorem threeWalks_answered : ∃ s, Trace.runs (step allowed 4) {} threeWalks = some s ∧ Answered s ∧
    s.finished = [(1, .squashed), (0, .fault ⟨0x1000#64, .LOAD_PAGE⟩)] ∧
    s.currStates.map WalkerState.id = [2] ∧ s.port.map Packet.walk = [2] := by
  have hlegal : Trace.Obeys Legal (step allowed 4) {} threeWalks := by
    refine ⟨trivial, fun s₁ h₁ => ⟨trivial, fun s₂ h₂ => ⟨trivial, fun s₃ h₃ => ⟨trivial,
      fun s₄ h₄ => ⟨trivial, fun s₅ h₅ => ⟨?_, fun s₆ h₆ => ⟨?_, fun _ _ => trivial⟩⟩⟩⟩⟩⟩⟩
    · cases h₁
      cases h₂
      cases h₃
      cases h₄
      cases h₅
      exact mem_singleton.mpr rfl
    · cases h₁
      cases h₂
      cases h₃
      cases h₄
      cases h₅
      cases h₆
      rfl
  obtain ⟨s, hrun, hanswered, -⟩ := walks_answered allowed 4 threeWalks hlegal
  refine ⟨s, hrun, hanswered, ?_⟩
  cases hrun
  exact ⟨by decide, by decide, by decide⟩

end Gem5Dvr.PageWalker
