/-
  Runs of the memory controller (`mem/mem_ctrl.cc` 163-373, 400-548, 871-1130).

    1. `Inv`: the shape of the controller, and the ledger over the bursts that wait in the read queue
       or in the response queue.
    2. Each event that is allowed has a result and keeps it: a request (`recvTimingReq_keeps`), the
       response at the front (`processRespondEvent_keeps`), the next burst
       (`processNextReqEvent_keeps`).
    3. **The result (`Run.answered_once`)**: for every run whose requests fit, what is said of the
       write queue, of each accepted read, of the room, of the respond event and of the retries.
    4. `lastBurst`: why they must, a read that is answered with bytes that nobody has read.

  The crux is when `processNextReqEvent` may leave without scheduling itself: no read is queued and
  the writes are at most at the low threshold, so that nothing that is owed a retry is forgotten.
-/
import Gem5Dvr.MemCtrlAccept

namespace Gem5Dvr.Memory

open List

variable {c : Config} {s : MemCtrl} {r : Run} {pkt : Packet}

namespace Run

/-- The bursts that wait. -/
def waiting (s : MemCtrl) : List (Packet × Option Nat) :=
  (s.readQueue.flatten ++ s.respQueue).map MemPacket.key

def books (r : Run) : Books where
  accepted := r.accepted
  covered := r.covered
  popped := r.popped
  responses := r.ctrl.responses
  burstHelpers := r.ctrl.burstHelpers
  waiting := waiting r.ctrl

structure Inv (c : Config) (r : Run) : Prop where
  shape : Shape c r.ctrl
  ledger : Ledger c r.books

theorem init_inv (c : Config) : Inv c (init c) := by
  have hnone : (replicate c.numPriorities ([] : List MemPacket)).flatten = [] :=
    flatten_replicate_nil
  constructor
  · constructor
    · show WriteQueue c (replicate c.numPriorities []).flatten ∅
      rw [hnone]
      exact ⟨nodup_nil, fun a => by simp, fun p hp => absurd hp not_mem_nil⟩
    · intro p hp
      change p ∈ (replicate c.numPriorities []).flatten at hp
      rw [hnone] at hp
      exact absurd hp not_mem_nil
    · exact ⟨length_replicate, length_replicate⟩
    · show 0 = (replicate c.numPriorities []).flatten.length
      rw [hnone]
      rfl
    · show 0 = (replicate c.numPriorities []).flatten.length
      rw [hnone]
      rfl
    · exact Nat.zero_le _
    · exact Nat.zero_le _
    · rfl
    · exact List.Pairwise.nil
    · exact fun _ => ⟨rfl, Nat.zero_le _⟩
    · exact fun hbus => nomatch hbus
    · exact fun hretry => nomatch hretry
    · exact fun hretry => nomatch hretry
  · have hwaiting : waiting (MemCtrl.init c) = [] := by
      show ((replicate c.numPriorities []).flatten ++ []).map MemPacket.key = []
      rw [hnone]
      rfl
    show Ledger c { waiting := waiting (MemCtrl.init c) }
    rw [hwaiting]
    exact Ledger.init

/-! ## A request -/

theorem recvTimingReq_keeps (h : Inv c r) {isWrite : Bool} {addr size qosValue : Nat}
    (hok : r.Allowed c (.recvTimingReq isWrite addr size qosValue)) (hfits : c.Fits addr size) :
    ∃ r', r.step c (.recvTimingReq isWrite addr size qosValue) = some r' ∧ Inv c r' := by
  obtain ⟨-, hsize, hqos, hwrites, hreads⟩ := hok
  let pkt : Packet := { id := r.accepted.length, isWrite := isWrite, addr := addr, size := size,
                        qosValue := qosValue }
  have hsize : pkt.size ≠ 0 := hsize
  have hfits : c.Fits pkt.addr pkt.size := hfits
  have hqos : pkt.qosValue < c.numPriorities := hqos
  show ∃ r', (r.ctrl.recvTimingReq c pkt).map _ = some r' ∧ Inv c r'
  cases isWrite with
  | true =>
    have hcount : pkt.count c ≤ c.writeBufferSize - c.writeLowThreshold := hwrites rfl
    rcases recvTimingReq_write h.shape rfl hqos hfits hsize hcount with
      ⟨hrun, hshape⟩ | ⟨wq, set, total, hrun, hshape⟩
    · rw [hrun]
      exact ⟨_, rfl, hshape, h.ledger⟩
    · rw [hrun]
      exact ⟨_, rfl, hshape, h.ledger.acceptWrite rfl rfl _⟩
  | false =>
    have hcount : pkt.count c ≤ c.readBufferSize := hreads rfl
    rcases recvTimingReq_read h.shape rfl hqos hfits hsize hcount with
      ⟨hrun, hshape⟩ | ⟨rq, hp, new, next, hrun, hshape, hperm, hmade, hnew, hold, hhelper⟩
    · rw [hrun]
      exact ⟨_, rfl, hshape, h.ledger⟩
    · have hsum : r.countCovered c pkt + new.length = pkt.count c := by
        rw [hnew]
        exact covered_add_uncovered h.shape.writes hfits hsize
      have hkeys : new.map MemPacket.key = replicate new.length (pkt, pkt.helper c) := by
        refine eq_replicate_iff.mpr ⟨length_map _, fun w hw => ?_⟩
        obtain ⟨p, hp, rfl⟩ := mem_map.mp hw
        exact (hmade p hp).1
      have hwaiting : ((rq.flatten ++ r.ctrl.respQueue).map MemPacket.key).Perm
          (replicate new.length (pkt, pkt.helper c) ++ r.books.waiting) := by
        have hbooks : r.books.waiting =
            (r.ctrl.readQueue.flatten ++ r.ctrl.respQueue).map MemPacket.key := rfl
        rw [← hkeys, hbooks, ← map_append, ← append_assoc]
        exact (hperm.append_right _).map _
      have hmine : 1 < pkt.count c → new.length ≠ 0 → hp pkt.id =
          some { burstCount := pkt.count c, burstsServiced := r.countCovered c pkt } := by
        intro hsplit hne
        rw [hhelper hsplit hne, ← hsum, Nat.add_sub_cancel]
      rw [hrun]
      exact ⟨_, rfl, hshape, h.ledger.acceptRead rfl rfl hsum hwaiting hold hmine⟩

variable {p : MemPacket} {env : Env}

/-! ## The response at the front -/

/-- What `respondTo` does, by what the ledger says of the request. -/
theorem respondTo_spec {serviced waiting responses : Nat}
    (hread : ReadOk (p.pkt.count c) serviced (waiting + 1) responses (s.burstHelpers p.pkt.id))
    (hhelper : p.burstHelper = p.pkt.helper c) :
    ∃ burstHelpers, s.respondTo p = some { s with
        burstHelpers := burstHelpers
        responses := if waiting = 0 then p.pkt.id :: s.responses else s.responses } ∧
      (∀ id, id ≠ p.pkt.id → burstHelpers id = s.burstHelpers id) ∧
      (1 < p.pkt.count c → waiting ≠ 0 → burstHelpers p.pkt.id =
        some { burstCount := p.pkt.count c, burstsServiced := serviced + 1 }) := by
  have hsum := hread.sum
  unfold MemCtrl.respondTo
  by_cases hsplit : 1 < p.pkt.count c
  · have hmine : p.burstHelper = some p.pkt.id := hhelper.trans (if_pos hsplit)
    rw [hmine]
    dsimp only
    rw [hread.helper hsplit (Nat.succ_ne_zero _)]
    dsimp only
    by_cases hlast : waiting = 0
    · rw [if_pos (show serviced + 1 = p.pkt.count c by omega), if_pos hlast]
      exact ⟨_, rfl, fun id hne => Function.update_of_ne hne .., fun _ hne => absurd hlast hne⟩
    · rw [if_neg (show serviced + 1 ≠ p.pkt.count c by omega), if_neg hlast]
      exact ⟨_, rfl, fun id hne => Function.update_of_ne hne .., fun _ _ => Function.update_self ..⟩
  · have hmine : p.burstHelper = none := hhelper.trans (if_neg hsplit)
    rw [hmine, if_pos (show waiting = 0 by omega)]
    exact ⟨_, rfl, fun _ _ => rfl, fun hx => absurd hx hsplit⟩

/-- The front of the response queue is popped. -/
theorem Shape.pop (h : Shape c s) {rest : List MemPacket}
    (hqueue : s.respQueue = p :: rest) (burstHelpers : Nat → Option BurstHelper)
    (responses : List Nat) : Shape c { s with
      burstHelpers := burstHelpers
      responses := responses
      respQueue := rest
      respondEvent := rest.head?.map MemPacket.readyTime
      retryRdReq := false } where
  writes := h.writes
  readSizes := h.readSizes
  priorities := h.priorities
  readCount := h.readCount
  writeCount := h.writeCount
  readRoom := by
    have hroom := h.readRoom
    rw [hqueue, length_cons] at hroom
    exact Nat.le_of_succ_le hroom
  writeRoom := h.writeRoom
  respond := rfl
  sorted := by
    have hsorted := h.sorted
    rw [hqueue, map_cons] at hsorted
    exact (pairwise_cons.mp hsorted).2
  idle := h.idle
  bus := h.bus
  retryRd := fun hretry => Bool.noConfusion hretry
  retryWr := h.retryWr

theorem processRespondEvent_keeps (h : Inv c r) (hok : r.Allowed c .processRespondEvent) :
    ∃ r', r.step c .processRespondEvent = some r' ∧ Inv c r' := by
  have hdue : r.ctrl.respondEvent ≠ none := hok.1
  have hevent := h.shape.respond
  show ∃ r', r.ctrl.processRespondEvent.map _ = some r' ∧ Inv c r'
  unfold MemCtrl.processRespondEvent
  cases hqueue : r.ctrl.respQueue with
  | nil =>
    rw [hqueue] at hevent
    exact absurd hevent hdue
  | cons p rest =>
    rw [hqueue, head?_cons, Option.map_some] at hevent
    have hmiddle : r.books.waiting.Perm
        (p.key :: (r.ctrl.readQueue.flatten ++ rest).map MemPacket.key) := by
      show ((r.ctrl.readQueue.flatten ++ r.ctrl.respQueue).map MemPacket.key).Perm _
      rw [hqueue, ← map_cons]
      exact perm_middle.map _
    obtain ⟨hmem, hread, hhelper⟩ := h.ledger.known p.key (hmiddle.mem_iff.mpr mem_cons_self)
    have hwaiting : waitingOf p.pkt r.books.waiting =
        waitingOf p.pkt ((r.ctrl.readQueue.flatten ++ rest).map MemPacket.key) + 1 := by
      rw [waitingOf, hmiddle.countP_eq, countP_cons_of_pos (by simp [MemPacket.key])]
      rfl
    have hreadOk := h.ledger.reads p.pkt hmem hread
    rw [hwaiting] at hreadOk
    obtain ⟨hp, hrun, hold, hnew⟩ := respondTo_spec hreadOk hhelper
    have hledger := h.ledger.pop hmiddle hold hnew
    rw [hevent]
    dsimp only
    rw [hrun, Option.bind_some]
    cases hrest : rest with
    | nil =>
      subst hrest
      exact ⟨_, rfl, Shape.pop h.shape hqueue _ _, hledger⟩
    | cons front rest' =>
      have hsorted := h.shape.sorted
      rw [hqueue, hrest, map_cons, map_cons] at hsorted
      have hle : p.readyTime ≤ front.readyTime := (pairwise_cons.mp hsorted).1 _ mem_cons_self
      subst hrest
      dsimp only
      rw [if_pos hle]
      exact ⟨_, rfl, Shape.pop h.shape hqueue _ _, hledger⟩

/-! ## The next burst -/

/-- What a step does not touch, up to the order of the bursts that wait. -/
structure Kept (s s' : MemCtrl) : Prop where
  responses : s'.responses = s.responses
  burstHelpers : s'.burstHelpers = s.burstHelpers
  waiting : (Run.waiting s).Perm (Run.waiting s')

theorem Kept.ledger {s' : MemCtrl} (h : Kept r.ctrl s') (hledger : Ledger c r.books) :
    Ledger c ({ r with ctrl := s' } : Run).books := by
  have hbooks : ({ r with ctrl := s' } : Run).books = { r.books with waiting := Run.waiting s' } := by
    rw [books, h.responses, h.burstHelpers]
    rfl
  rw [hbooks]
  exact hledger.perm h.waiting

/-- The shape, but that the next request need not be scheduled. -/
def Awake (c : Config) (s : MemCtrl) : Prop := Shape c { s with nextReqEvent := true }

theorem Awake.again (h : Awake c s) : Shape c (s.again c) := { h with
    idle := fun hidle => Bool.noConfusion hidle
    retryWr := fun hretry => h.retryWr (Bool.and_elim_left hretry) }

/-- A burst of a read is issued. -/
theorem issueRead_spec (h : Awake c s) {q : List MemPacket}
    {prio index : Nat} (hq : s.readQueue[prio]? = some q) (hp : q[index]? = some p)
    (hready : ∀ p ∈ s.respQueue, p.readyTime ≤ env.readyTime) :
    ∃ s', s.issueRead c env prio index p = some s' ∧ Awake c s' ∧ Kept s s' := by
  have hperm := Buckets.flatten_remove hq hp
  have hlen := hperm.length_eq
  rw [length_cons] at hlen
  have hcount : s.totalReadQueueSize = s.readQueue.flatten.length := h.readCount
  have hroom : s.totalReadQueueSize + s.respQueue.length ≤ c.readBufferSize := h.readRoom
  have hrespond : s.respondEvent = s.respQueue.head?.map MemPacket.readyTime := h.respond
  have hevent : if s.respQueue = [] then s.respondEvent = none
      else s.respondEvent ≠ none ∧ ∀ p ∈ s.respQueue.getLast?, p.readyTime ≤ env.readyTime := by
    cases hqueue : s.respQueue with
    | nil =>
      rw [if_pos rfl, hrespond, hqueue]
      rfl
    | cons front rest =>
      rw [if_neg (cons_ne_nil front rest), hrespond, hqueue]
      refine ⟨Option.some_ne_none _, fun p' hp' => hready p' ?_⟩
      rw [hqueue]
      exact mem_of_mem_getLast? hp'
  have hcond : p.size ≤ c.burst_size ∧ (if s.respQueue = [] then s.respondEvent = none
      else s.respondEvent ≠ none ∧ ∀ p ∈ s.respQueue.getLast?, p.readyTime ≤ env.readyTime) :=
    ⟨h.readSizes p (hperm.mem_iff.mpr mem_cons_self), hevent⟩
  unfold MemCtrl.issueRead
  rw [if_pos hcond]
  refine ⟨_, rfl, ?_, ?_⟩
  · constructor
    · exact h.writes
    · exact fun p' hp' => h.readSizes p' (hperm.mem_iff.mpr (mem_cons_of_mem p hp'))
    · exact ⟨Buckets.length_remove.trans h.priorities.1, h.priorities.2⟩
    · show s.totalReadQueueSize - 1 = (Buckets.remove s.readQueue prio index).flatten.length
      omega
    · exact h.writeCount
    · show s.totalReadQueueSize - 1 +
        (s.respQueue ++ [{ p with readyTime := env.readyTime }]).length ≤ c.readBufferSize
      rw [length_append, length_singleton]
      omega
    · exact h.writeRoom
    · show (if s.respQueue = [] then some env.readyTime else s.respondEvent) =
        (s.respQueue ++ [{ p with readyTime := env.readyTime }]).head?.map MemPacket.readyTime
      cases hqueue : s.respQueue with
      | nil => rfl
      | cons front rest =>
        rw [if_neg (cons_ne_nil front rest), hrespond, hqueue]
        rfl
    · show ((s.respQueue ++ [{ p with readyTime := env.readyTime }]).map
        MemPacket.readyTime).Pairwise (· ≤ ·)
      rw [map_append]
      refine pairwise_append.mpr ⟨h.sorted, pairwise_singleton _ _, ?_⟩
      intro t ht t' ht'
      obtain ⟨p', hp', rfl⟩ := mem_map.mp ht
      rw [mem_singleton.mp ht']
      exact hready p' hp'
    · exact fun hidle => Bool.noConfusion hidle
    · intro hbus
      change (if s.totalWriteQueueSize > c.writeHighThreshold ∧ _ then BusState.WRITE
        else s.busStateNext) = .WRITE at hbus
      show 0 < s.totalWriteQueueSize
      split at hbus
      · rename_i hhigh
        omega
      · exact h.bus hbus
    · intro _
      show 0 < s.totalReadQueueSize - 1 +
        (s.respQueue ++ [{ p with readyTime := env.readyTime }]).length
      rw [length_append, length_singleton]
      omega
    · exact h.retryWr
  · refine ⟨rfl, rfl, ?_⟩
    show ((s.readQueue.flatten ++ s.respQueue).map MemPacket.key).Perm
      (((Buckets.remove s.readQueue prio index).flatten ++
        (s.respQueue ++ [{ p with readyTime := env.readyTime }])).map MemPacket.key)
    have hkey : ({ p with readyTime := env.readyTime } : MemPacket).key = p.key := rfl
    rw [map_append, map_append, map_append, map_singleton, hkey]
    have hkeys := hperm.map MemPacket.key
    refine (hkeys.append_right _).trans ?_
    rw [← append_assoc]
    exact (perm_append_singleton _ _).symm

/-- The search finds a burst where one is queued. -/
theorem search_spec {queues : List (List MemPacket)}
    (hchoose : ∀ q : List MemPacket, q ≠ [] → ∃ i < q.length, env.chooseNext q = some i)
    (hne : 0 < queues.flatten.length) :
    ∃ prio index p q, Buckets.search env.chooseNext queues 0 = some (prio, index, p) ∧
      queues[prio]? = some q ∧ q[index]? = some p := by
  obtain ⟨⟨prio, index, p⟩, hfound⟩ :=
    Buckets.search_isSome (fun q _ => hchoose q) (length_pos_iff.mp hne) 0
  obtain ⟨-, q, hq, hp⟩ := Buckets.search_some hfound
  exact ⟨prio, index, p, q, hfound, hq, hp⟩

theorem nextRead_spec (h : Awake c s)
    (hchoose : ∀ q : List MemPacket, q ≠ [] → ∃ i < q.length, env.chooseNext q = some i)
    (hready : ∀ p ∈ s.respQueue, p.readyTime ≤ env.readyTime) :
    ∃ s', s.nextRead c env = some s' ∧ Shape c s' ∧ Kept s s' := by
  have hcount : s.totalReadQueueSize = s.readQueue.flatten.length := h.readCount
  unfold MemCtrl.nextRead
  by_cases hempty : s.totalReadQueueSize = 0
  · rw [if_pos hempty]
    by_cases hwrite : s.totalWriteQueueSize ≠ 0 ∧
        (env.draining = true ∨ s.totalWriteQueueSize > c.writeLowThreshold)
    · rw [if_pos hwrite]
      have hturned : Awake c { s with busStateNext := .WRITE } :=
        { h with bus := fun _ => Nat.pos_of_ne_zero hwrite.1 }
      exact ⟨_, rfl, hturned.again, rfl, rfl, .refl _⟩
    · -- nothing to do: no read, and too few writes
      rw [if_neg hwrite]
      have hlow : s.totalWriteQueueSize ≤ c.writeLowThreshold := by
        by_contra hhigh
        exact hwrite ⟨by omega, .inr (Nat.lt_of_not_le hhigh)⟩
      exact ⟨s, rfl, { h with idle := fun _ => ⟨hempty, hlow⟩ }, rfl, rfl, .refl _⟩
  · rw [if_neg hempty]
    have hpos : 0 < s.readQueue.flatten.length := by omega
    obtain ⟨prio, index, p, q, hfound, hq, hp⟩ := search_spec hchoose hpos
    obtain ⟨s', hrun, hawake, hkept⟩ := issueRead_spec h hq hp hready
    rw [hfound]
    dsimp only
    rw [hrun]
    exact ⟨_, rfl, hawake.again, hkept.responses, hkept.burstHelpers, hkept.waiting⟩

theorem nextWrite_spec (h : Awake c s)
    (hchoose : ∀ q : List MemPacket, q ≠ [] → ∃ i < q.length, env.chooseNext q = some i)
    (hpos : 0 < s.totalWriteQueueSize) :
    ∃ s', s.nextWrite c env = some s' ∧ Shape c s' ∧ Kept s s' := by
  have hcount : s.totalWriteQueueSize = s.writeQueue.flatten.length := h.writeCount
  have hroom : s.totalWriteQueueSize ≤ c.writeBufferSize := h.writeRoom
  unfold MemCtrl.nextWrite
  obtain ⟨prio, index, p, q, hfound, hq, hp⟩ := search_spec hchoose (hcount ▸ hpos)
  have hperm := Buckets.flatten_remove hq hp
  have hlen := hperm.length_eq
  rw [length_cons] at hlen
  have hwrites : WriteQueue c (p :: (Buckets.remove s.writeQueue prio index).flatten)
      s.isInWriteQueue := h.writes.perm hperm
  have hsize : p.size ≤ c.burst_size :=
    size_le_of_ends (hwrites.fits p mem_cons_self).ends
  rw [hfound]
  dsimp only
  rw [if_pos hsize]
  refine ⟨_, rfl, ?_, rfl, rfl, .refl _⟩
  constructor
  · exact hwrites.erase
  · exact h.readSizes
  · exact ⟨h.priorities.1, Buckets.length_remove.trans h.priorities.2⟩
  · exact h.readCount
  · show s.totalWriteQueueSize - 1 = (Buckets.remove s.writeQueue prio index).flatten.length
    omega
  · exact h.readRoom
  · exact Nat.le_trans (Nat.sub_le _ 1) hroom
  · exact h.respond
  · exact h.sorted
  · exact fun hidle => Bool.noConfusion hidle
  · intro hbus
    change (if s.totalWriteQueueSize - 1 = 0 ∨ _ then BusState.READ else s.busStateNext) =
      .WRITE at hbus
    show 0 < s.totalWriteQueueSize - 1
    split at hbus
    · cases hbus
    · rename_i hstay
      exact Nat.pos_of_ne_zero fun hzero => hstay (.inl hzero)
  · exact h.retryRd
  · -- a queue that has just been left is not full, so the retry has been sent
    intro hretry
    have hfull : c.writeBufferSize ≤ s.totalWriteQueueSize - 1 :=
      of_decide_eq_true (Bool.and_elim_right hretry)
    omega

theorem processNextReqEvent_keeps (h : Inv c r) (hok : r.Allowed c (.processNextReqEvent env)) :
    ∃ r', r.step c (.processNextReqEvent env) = some r' ∧ Inv c r' := by
  obtain ⟨⟨-, hready⟩, hbusy, hchoose⟩ := hok
  let s := { r.ctrl with nextReqEvent := false }.turn
  have hawake : Awake c s := { h.shape with idle := fun hidle => Bool.noConfusion hidle }
  have hnext : ∃ s', r.ctrl.processNextReqEvent c env = some s' ∧ Shape c s' ∧ Kept s s' := by
    show ∃ s', (if env.memBusy = true then some s
      else if s.busState = .READ then s.nextRead c env else s.nextWrite c env) = some s' ∧ _
    rw [if_neg (by rw [hbusy]; exact Bool.false_ne_true)]
    cases hbus : s.busState with
    | READ =>
      exact nextRead_spec hawake hchoose hready
    | WRITE =>
      exact nextWrite_spec hawake hchoose (h.shape.bus hbus)
  obtain ⟨s', hrun, hshape, hkept⟩ := hnext
  show ∃ r', (r.ctrl.processNextReqEvent c env).map _ = some r' ∧ Inv c r'
  rw [hrun]
  have hkept' : Kept r.ctrl s' := ⟨hkept.responses, hkept.burstHelpers, hkept.waiting⟩
  exact ⟨_, rfl, hshape, hkept'.ledger h.ledger⟩

/-! ## The result -/

theorem step_keeps (h : Inv c r) {e : Event} (hok : r.Allowed c e ∧ Fits c e) :
    ∃ r', r.step c e = some r' ∧ Inv c r' := by
  cases e with
  | recvTimingReq => exact recvTimingReq_keeps h hok.1 hok.2
  | processNextReqEvent => exact processNextReqEvent_keeps h hok.1
  | processRespondEvent => exact processRespondEvent_keeps h hok.1

/-- Nothing is lost: each accepted read has been answered ONCE when all its bursts were covered or
    popped, and not before, and what was refused will be retried. -/
structure Answers (c : Config) (r : Run) : Prop where
  distinct : (r.ctrl.writeQueue.flatten.map fun p => c.burstAlign p.addr).Nodup
  inWriteQueue : ∀ addr, addr ∈ r.ctrl.isInWriteQueue ↔
    ∃ p ∈ r.ctrl.writeQueue.flatten, c.burstAlign p.addr = addr
  bursts : ∀ pkt ∈ r.accepted, pkt.isWrite = false → r.covered pkt.id + r.popped.count pkt.id +
      (r.ctrl.readQueue.flatten ++ r.ctrl.respQueue).countP (fun p => decide (p.pkt = pkt)) =
        c.pkt_count pkt.addr pkt.size
  reads : ∀ pkt ∈ r.accepted, pkt.isWrite = false → r.ctrl.responses.count pkt.id =
    if r.covered pkt.id + r.popped.count pkt.id = c.pkt_count pkt.addr pkt.size then 1 else 0
  writes : ∀ pkt ∈ r.accepted, pkt.isWrite = true → r.ctrl.responses.count pkt.id = 1
  others : ∀ id, (∀ pkt ∈ r.accepted, pkt.id ≠ id) → r.ctrl.responses.count id = 0
  readRoom : r.ctrl.readQueue.flatten.length + r.ctrl.respQueue.length ≤ c.readBufferSize
  writeRoom : r.ctrl.writeQueue.flatten.length ≤ c.writeBufferSize
  respondEvent : r.ctrl.respondEvent ≠ none ↔ r.ctrl.respQueue ≠ []
  retry : r.ctrl.retryRdReq = true ∨ r.ctrl.retryWrReq = true →
    r.ctrl.nextReqEvent = true ∨ r.ctrl.respondEvent ≠ none

theorem respondEvent_iff (h : Shape c s) : s.respondEvent ≠ none ↔ s.respQueue ≠ [] := by
  rw [h.respond]
  cases s.respQueue with
  | nil => simp
  | cons p rest => simp

/-- A retry that is owed will be sent. -/
theorem retry_scheduled (h : Shape c s) (hretry : s.retryRdReq = true ∨ s.retryWrReq = true) :
    s.nextReqEvent = true ∨ s.respondEvent ≠ none := by
  by_cases hnext : s.nextReqEvent = true
  · exact .inl hnext
  · obtain ⟨hreads, hwrites⟩ := h.idle (Bool.eq_false_of_not_eq_true hnext)
    rcases hretry with hrd | hwr
    · have hpos := h.retryRd hrd
      refine .inr ((respondEvent_iff h).mpr fun hempty => ?_)
      rw [hempty, length_nil] at hpos
      omega
    · have hhigh := h.retryWr hwr
      omega

theorem waitingOf_keys (pkt : Packet) (queue : List MemPacket) :
    waitingOf pkt (queue.map MemPacket.key) = queue.countP fun p => decide (p.pkt = pkt) :=
  countP_map ..

theorem Inv.answers (h : Inv c r) : Answers c r where
  distinct := h.shape.writes.distinct
  inWriteQueue := fun addr => by
    rw [h.shape.writes.mirror, mem_map]
  bursts := fun pkt hp hread => by
    have hsum := (h.ledger.reads pkt hp hread).sum
    rw [← waitingOf_keys]
    exact hsum
  reads := fun pkt hp hread => by
    have hok := h.ledger.reads pkt hp hread
    have hsum : r.covered pkt.id + r.popped.count pkt.id + waitingOf pkt r.books.waiting =
      c.pkt_count pkt.addr pkt.size := hok.sum
    refine hok.once.trans (if_congr ?_ rfl rfl)
    omega
  writes := h.ledger.writes
  others := fun id hid => by
    refine (h.ledger.fresh id (Nat.le_of_not_lt fun hlt => ?_)).1
    have hmem : id ∈ r.accepted.map Packet.id := by
      rw [show r.accepted.map Packet.id = _ from h.ledger.ids, mem_reverse, mem_range]
      exact hlt
    obtain ⟨pkt, hp, heq⟩ := mem_map.mp hmem
    exact hid pkt hp heq
  readRoom := by
    rw [← h.shape.readCount]
    exact h.shape.readRoom
  writeRoom := by
    rw [← h.shape.writeCount]
    exact h.shape.writeRoom
  respondEvent := respondEvent_iff h.shape
  retry := retry_scheduled h.shape

/-- **The requests are kept**: in every run in which each event is allowed and each request fits the
    address space, no assertion fails, and every request is answered as it should be. -/
theorem answered_once {es : List Event}
    (hok : Trace.Obeys (fun r e => r.Allowed c e ∧ Fits c e) (step c) (init c) es) :
    ∃ r, Trace.runs (step c) (init c) es = some r ∧ Answers c r := by
  obtain ⟨r, hrun, hinv⟩ := hok.runs (Inv c) (fun _ _ h he => step_keeps h he) (init_inv c)
  exact ⟨r, hrun, hinv.answers⟩

/-- A controller with room for three reads and three writes. -/
def small : Config where
  burstBits := 6
  numPriorities := 2
  readBufferSize := 3
  writeBufferSize := 3
  writeHighThreshold := 2
  writeLowThreshold := 1
  minWritesPerSwitch := 1
  minReadsPerSwitch := 1

/-- A read of three bursts, the first of which is covered; a second read is refused. -/
def splitRead : List Event :=
  [.recvTimingReq true 0 64 0, .recvTimingReq false 32 128 1, .recvTimingReq false 256 128 0,
    .processNextReqEvent { readyTime := 10 }, .processNextReqEvent { readyTime := 20 },
    .processRespondEvent, .processRespondEvent]

theorem promised_splitRead : ∀ e ∈ splitRead, Promised small e := by
  have hchoose : ∀ q : List MemPacket, q ≠ [] →
      ∃ i < q.length, (if q = [] then none else some 0) = some i :=
    fun q hne => ⟨0, length_pos_iff.mpr hne, if_neg hne⟩
  intro e he
  simp only [splitRead, mem_cons, not_mem_nil, or_false] at he
  rcases he with rfl | rfl | rfl | rfl | rfl | rfl | rfl
  · exact ⟨by decide, by decide, by decide, by decide⟩
  · exact ⟨by decide, by decide, by decide, by decide⟩
  · exact ⟨by decide, by decide, by decide, by decide⟩
  · exact ⟨rfl, hchoose⟩
  · exact ⟨rfl, hchoose⟩
  · trivial
  · trivial

theorem fits_splitRead : ∀ e ∈ splitRead, Fits small e := by
  intro e he
  simp only [splitRead, mem_cons, not_mem_nil, or_false] at he
  rcases he with rfl | rfl | rfl | rfl | rfl | rfl | rfl
  · exact (by decide : small.Fits 0 64)
  · exact (by decide : small.Fits 32 128)
  · exact (by decide : small.Fits 256 128)
  all_goals trivial

/-- A write, a read whose first burst it covers, and one more read. -/
theorem answered_once_splitRead : ∃ r, Trace.runs (step small) (init small) splitRead = some r ∧
    Answers small r := by
  have hdue : Trace.Obeys Due (step small) (init small) splitRead := by decide
  exact answered_once ((hdue.and_of_forall promised_splitRead).and_of_forall fits_splitRead)

/-- A write of 8 bytes at the start of the last burst of the address space, and a read of all of that
    burst: both entries end at 0. -/
def lastBurst : List Event :=
  [.recvTimingReq true (2 ^ 64 - 64) 8 0, .recvTimingReq false (2 ^ 64 - 64) 64 0]

/-- The read is answered from the write queue, though 56 of its bytes are written by nobody and no
    burst of it is ever read. -/
theorem last_burst_answered_unread :
    Trace.Obeys (Allowed small) (step small) (init small) lastBurst ∧
      ∃ r, Trace.runs (step small) (init small) lastBurst = some r ∧ ¬ Answers small r := by
  constructor
  · have hdue : Trace.Obeys Due (step small) (init small) lastBurst := by decide +kernel
    refine hdue.and_of_forall fun e he => ?_
    simp only [lastBurst, mem_cons, not_mem_nil, or_false] at he
    rcases he with rfl | rfl
    · exact ⟨by decide, by decide, by decide +kernel, by decide⟩
    · exact ⟨by decide, by decide, by decide, by decide +kernel⟩
  · have hends : (Trace.runs (step small) (init small) lastBurst).map (fun r =>
        (r.accepted.head?, r.covered 1 + r.popped.count 1, r.ctrl.responses.count 1)) =
        some (some ⟨1, false, 2 ^ 64 - 64, 64, 0⟩, 0, 1) := by decide +kernel
    obtain ⟨r, hrun, heq⟩ := Option.map_eq_some_iff.mp hends
    obtain ⟨hlast, hcovered, hresponses⟩ :
        r.accepted.head? = some ⟨1, false, 2 ^ 64 - 64, 64, 0⟩ ∧
          r.covered 1 + r.popped.count 1 = 0 ∧ r.ctrl.responses.count 1 = 1 := by
      simpa only [Prod.mk.injEq] using heq
    refine ⟨r, hrun, fun h => ?_⟩
    have hread := h.reads _ (mem_of_mem_head? hlast) rfl
    have hcount : small.pkt_count (2 ^ 64 - 64) 64 = 1 := by decide +kernel
    rw [hcovered, hresponses, hcount] at hread
    exact absurd hread (by decide)

end Run

end Gem5Dvr.Memory
