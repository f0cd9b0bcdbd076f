/-
  How the controller takes in a request (`mem/mem_ctrl.cc` 186-373, 401-479).

    1. `Shape`: what is said of the queues, the counters, the two events and the retries.
    2. One spec lemma for each of the two loops over the bursts.
    3. `recvTimingReq` keeps the shape and the ledger; a refusal leaves a retry that is owed.
-/
import Gem5Dvr.MemCtrlBursts
import Gem5Dvr.MemCtrlLedger

namespace Gem5Dvr.Memory

open List Function

variable {c : Config} {s : MemCtrl} {pkt : Packet}

/-- What is said of the controller.  The crux are the last four: the next request is only left
    unscheduled when no read is queued and the writes are below the low threshold, the bus is only
    turned to a write that is there, and a retry is only owed where something is still to be done. -/
structure Shape (c : Config) (s : MemCtrl) : Prop where
  writes : WriteQueue c s.writeQueue.flatten s.isInWriteQueue
  readSizes : ∀ p ∈ s.readQueue.flatten, p.size ≤ c.burst_size
  priorities : s.readQueue.length = c.numPriorities ∧ s.writeQueue.length = c.numPriorities
  readCount : s.totalReadQueueSize = s.readQueue.flatten.length
  writeCount : s.totalWriteQueueSize = s.writeQueue.flatten.length
  readRoom : s.totalReadQueueSize + s.respQueue.length ≤ c.readBufferSize
  writeRoom : s.totalWriteQueueSize ≤ c.writeBufferSize
  respond : s.respondEvent = s.respQueue.head?.map MemPacket.readyTime
  sorted : (s.respQueue.map MemPacket.readyTime).Pairwise (· ≤ ·)
  idle : s.nextReqEvent = false →
    s.totalReadQueueSize = 0 ∧ s.totalWriteQueueSize ≤ c.writeLowThreshold
  bus : s.busStateNext = .WRITE → 0 < s.totalWriteQueueSize
  retryRd : s.retryRdReq = true → 0 < s.totalReadQueueSize + s.respQueue.length
  retryWr : s.retryWrReq = true → c.writeLowThreshold < s.totalWriteQueueSize

/-! ## The loop over the bursts of a read -/

/-- A part of a request in one burst is not longer than that. -/
theorem size_le_of_ends {addr size : Nat} (hends : addr + size = pkt.partEnd c addr) :
    size ≤ c.burst_size := by
  have hend := partEnd_le c pkt addr
  have hsplit := Nat.div_add_mod' addr c.burst_size
  rw [Nat.succ_mul] at hend
  omega

/-- The bursts that the write queue does not cover. -/
def uncovered (s : MemCtrl) (bs : List Burst) : Nat :=
  bs.countP fun b => !s.writeQueue.flatten.any (covers b)

/-- The packet that is made for a burst of a read. -/
def Packet.made (c : Config) (pkt : Packet) (b : Burst) : MemPacket where
  pkt := pkt
  addr := b.addr
  size := b.size
  burstHelper := pkt.helper c

/-- Packets that were made for bursts of a read. -/
def MadeFor (c : Config) (pkt : Packet) (new : List MemPacket) : Prop :=
  ∀ p ∈ new, p.key = (pkt, pkt.helper c) ∧ p.size ≤ c.burst_size

/-- The helper, while the bursts are gone through. -/
structure HelperOk (c : Config) (pkt : Packet) (burstHelpers : Nat → Option BurstHelper)
    (helper : Option Nat) : Prop where
  mine : helper ≠ none → helper = pkt.helper c ∧ 1 < pkt.count c
  new : helper ≠ none → burstHelpers pkt.id = some { burstCount := pkt.count c }

/-- One burst that is covered. -/
theorem addReadBurst_covered {b : Burst}
    (hwrites : WriteQueue c s.writeQueue.flatten s.isInWriteQueue) (hb : Within c pkt b)
    (hany : s.writeQueue.flatten.any (covers b) = true) (n serviced : Nat) (helper : Option Nat) :
    s.addReadBurst c pkt n b serviced helper = some (s, serviced + 1, helper) := by
  have hfound := foundInWrQ_eq hwrites hb
  rw [if_pos hany] at hfound
  rw [MemCtrl.addReadBurst, hfound, if_pos Nat.one_pos]

/-- One burst that is not. -/
theorem addReadBurst_uncovered {b : Burst}
    (hwrites : WriteQueue c s.writeQueue.flatten s.isInWriteQueue) (hb : Within c pkt b)
    (hany : ¬ s.writeQueue.flatten.any (covers b) = true)
    (hroom : s.totalReadQueueSize + s.respQueue.length + 1 ≤ c.readBufferSize) (serviced : Nat)
    {helper : Option Nat} (hhelper : HelperOk c pkt s.burstHelpers helper) :
    ∃ burstHelpers, s.addReadBurst c pkt (pkt.count c) b serviced helper = some ({ s with
        burstHelpers := burstHelpers
        readQueue := Buckets.push s.readQueue pkt.qosValue (pkt.made c b)
        totalReadQueueSize := s.totalReadQueueSize + 1 }, serviced, pkt.helper c) ∧
      (∀ id, id ≠ pkt.id → burstHelpers id = s.burstHelpers id) ∧
      HelperOk c pkt burstHelpers (pkt.helper c) := by
  have hfound := foundInWrQ_eq hwrites hb
  rw [if_neg hany] at hfound
  have hnotfull : ¬ s.readQueueFull c 1 := Nat.not_lt_of_le hroom
  rw [MemCtrl.addReadBurst, hfound, if_neg (Nat.lt_irrefl 0)]
  simp only [if_neg hnotfull]
  by_cases hmake : 1 < pkt.count c ∧ helper = none
  · have hmine : pkt.helper c = some pkt.id := if_pos hmake.1
    refine ⟨update s.burstHelpers pkt.id (some { burstCount := pkt.count c }), ?_,
      fun id hne => update_of_ne hne .., fun _ => ⟨rfl, hmake.1⟩,
      fun _ => update_self ..⟩
    simp only [if_pos hmake, ← hmine]
    rfl
  · have hsame : helper = pkt.helper c := by
      by_cases hnone : helper = none
      · rw [hnone]
        exact (if_neg fun hcount => hmake ⟨hcount, hnone⟩).symm
      · exact (hhelper.mine hnone).1
    simp only [if_neg hmake]
    subst hsame
    exact ⟨_, rfl, fun _ _ => rfl, hhelper⟩

theorem addReadBursts_spec (hqos : pkt.qosValue < c.numPriorities) : ∀ (bs : List Burst)
    (s : MemCtrl) (serviced : Nat) (helper : Option Nat),
    s.readQueue.length = c.numPriorities →
    WriteQueue c s.writeQueue.flatten s.isInWriteQueue → (∀ b ∈ bs, Within c pkt b) →
    s.totalReadQueueSize + s.respQueue.length + uncovered s bs ≤ c.readBufferSize →
    HelperOk c pkt s.burstHelpers helper →
    ∃ readQueue burstHelpers helper' new,
      MemCtrl.addReadBursts c pkt (pkt.count c) bs s serviced helper = some ({ s with
        burstHelpers := burstHelpers
        readQueue := readQueue
        totalReadQueueSize := s.totalReadQueueSize + new.length },
        serviced + (bs.length - new.length), helper') ∧
      readQueue.length = c.numPriorities ∧ readQueue.flatten.Perm (new ++ s.readQueue.flatten) ∧
      MadeFor c pkt new ∧ new.length = uncovered s bs ∧
      (∀ id, id ≠ pkt.id → burstHelpers id = s.burstHelpers id) ∧
      HelperOk c pkt burstHelpers helper' ∧
      (new ≠ [] → helper' = pkt.helper c) ∧ (new = [] → helper' = helper) := by
  intro bs
  induction bs with
  | nil =>
    intro s serviced helper hlen _ _ _ hhelper
    exact ⟨s.readQueue, s.burstHelpers, helper, [], rfl, hlen, .refl _,
      fun p hp => absurd hp not_mem_nil, rfl, fun _ _ => rfl, hhelper,
      fun hne => absurd rfl hne, fun _ => rfl⟩
  | cons b bs ih =>
    intro s serviced helper hlen hwrites hwithin hroom hhelper
    have hb := hwithin b mem_cons_self
    have hbs : ∀ b ∈ bs, Within c pkt b := fun b hb => hwithin b (mem_cons_of_mem _ hb)
    rw [MemCtrl.addReadBursts]
    by_cases hany : s.writeQueue.flatten.any (covers b) = true
    · have hsame : uncovered s (b :: bs) = uncovered s bs := by
        rw [uncovered, countP_cons_of_neg (by simp [hany])]
        rfl
      rw [hsame] at hroom ⊢
      obtain ⟨rq, hp, helper', new, hrun, hlen', hperm, hmade, hcount, hold, hok, hmine, hnone⟩ :=
        ih s (serviced + 1) helper hlen hwrites hbs hroom hhelper
      refine ⟨rq, hp, helper', new, ?_, hlen', hperm, hmade, hcount, hold, hok, hmine, hnone⟩
      have hle : new.length ≤ bs.length := hcount ▸ countP_le_length
      rw [addReadBurst_covered hwrites hb hany, Option.bind_some, hrun, length_cons,
        show serviced + 1 + (bs.length - new.length) =
          serviced + (bs.length + 1 - new.length) by omega]
    · have hmore : uncovered s (b :: bs) = uncovered s bs + 1 := by
        rw [uncovered, countP_cons_of_pos (by simp [hany])]
        rfl
      rw [hmore] at hroom ⊢
      obtain ⟨hp₁, hrun₁, hold₁, hok₁⟩ :=
        addReadBurst_uncovered hwrites hb hany (by omega) serviced hhelper
      rw [hrun₁, Option.bind_some]
      have hroom' : s.totalReadQueueSize + 1 + s.respQueue.length + uncovered s bs ≤
        c.readBufferSize := by omega
      obtain ⟨rq, hp, helper', new, hrun, hlen', hperm, hmade, hcount, hold, hok, hmine, hnone⟩ :=
        ih { s with
          burstHelpers := hp₁
          readQueue := Buckets.push s.readQueue pkt.qosValue (pkt.made c b)
          totalReadQueueSize := s.totalReadQueueSize + 1 }
          serviced _ (Buckets.length_push.trans hlen) hwrites hbs hroom' hok₁
      have hpush : (Buckets.push s.readQueue pkt.qosValue (pkt.made c b)).flatten.Perm
          (pkt.made c b :: s.readQueue.flatten) := Buckets.flatten_push (hlen ▸ hqos)
      refine ⟨rq, hp, helper', new ++ [pkt.made c b], ?_, hlen', ?_, ?_, ?_, fun id hne => ?_,
        hok, ?_, ?_⟩
      · rw [hrun, length_append, length_cons, length_cons, length_nil,
          Nat.add_sub_add_right, Nat.zero_add, Nat.add_assoc, Nat.add_comm 1]
      · rw [append_assoc]
        exact hperm.trans (hpush.append_left new)
      · intro p hp
        rcases mem_append.mp hp with hnew | hlast
        · exact hmade p hnew
        · rw [mem_singleton.mp hlast]
          exact ⟨rfl, size_le_of_ends hb.ends⟩
      · rw [length_append, hcount]
        rfl
      · rw [hold id hne]
        exact hold₁ id hne
      · intro _
        by_cases hempty : new = []
        · exact hnone hempty
        · exact hmine hempty
      · intro hempty
        exact absurd hempty (by simp)

/-- The bursts that lie in what the write queue is to write are the others. -/
theorem covered_add_uncovered (hwrites : WriteQueue c s.writeQueue.flatten s.isInWriteQueue)
    (hfits : c.Fits pkt.addr pkt.size) (hsize : pkt.size ≠ 0) :
    (bursts c pkt).countP (fun b => s.writeQueue.flatten.any (subsumed c pkt b.addr)) +
      uncovered s (bursts c pkt) = pkt.count c := by
  have hcovered : (bursts c pkt).countP (fun b => s.writeQueue.flatten.any (covers b)) =
      (bursts c pkt).countP fun b => s.writeQueue.flatten.any (subsumed c pkt b.addr) :=
    countP_congr fun b hb => by rw [hwrites.any_covers (bursts_within hfits hsize b hb)]
  rw [← hcovered]
  have hsplit := length_eq_countP_add_countP (l := bursts c pkt)
    (fun b => s.writeQueue.flatten.any (covers b))
  rw [length_bursts] at hsplit
  rw [uncovered, Packet.count, hsplit]
  congr 1
  refine countP_congr fun b _ => ?_
  simp

/-- What `addToReadQueue` does: `new` are the packets that it makes. -/
theorem addToReadQueue_spec (h : Shape c s) (hqos : pkt.qosValue < c.numPriorities)
    (hfits : c.Fits pkt.addr pkt.size) (hsize : pkt.size ≠ 0) (hroom : ¬ s.readQueueFull c (pkt.count c)) :
    ∃ readQueue burstHelpers new,
      s.addToReadQueue c pkt (pkt.count c) = some ({ s with
        burstHelpers := burstHelpers
        readQueue := readQueue
        totalReadQueueSize := s.totalReadQueueSize + new.length
        responses := if new.length = 0 then pkt.id :: s.responses else s.responses },
        decide (new.length = 0)) ∧
      readQueue.length = c.numPriorities ∧ readQueue.flatten.Perm (new ++ s.readQueue.flatten) ∧
      MadeFor c pkt new ∧ new.length = uncovered s (bursts c pkt) ∧
      (∀ id, id ≠ pkt.id → burstHelpers id = s.burstHelpers id) ∧
      (1 < pkt.count c → new.length ≠ 0 → burstHelpers pkt.id =
        some { burstCount := pkt.count c, burstsServiced := pkt.count c - new.length }) := by
  have hle : uncovered s (bursts c pkt) ≤ pkt.count c :=
    Nat.le_trans countP_le_length (Nat.le_of_eq (length_bursts pkt))
  have hroom' : s.totalReadQueueSize + s.respQueue.length + uncovered s (bursts c pkt) ≤
      c.readBufferSize := by
    have hfit := Nat.le_of_not_lt hroom
    omega
  obtain ⟨rq, hp, helper, new, hrun, hlen, hperm, hmade, hcount, hold, hok, hmine, hnone⟩ :=
    addReadBursts_spec hqos (bursts c pkt) s 0 none h.priorities.1 h.writes (bursts_within hfits
      hsize) hroom' ⟨fun hne => absurd rfl hne, fun hne => absurd rfl hne⟩
  rw [Nat.zero_add, length_bursts] at hrun
  change MemCtrl.addReadBursts c pkt (pkt.count c) _ s 0 none =
    some (_, pkt.count c - new.length, helper) at hrun
  unfold MemCtrl.addToReadQueue
  rw [if_neg (show pkt.count c ≠ 0 from Nat.ne_of_gt (pkt_count_pos hfits hsize)), hrun,
    Option.map_some]
  by_cases hempty : new = []
  · -- the write queue covers all of it
    subst hempty
    refine ⟨rq, hp, [], ?_, hlen, hperm, hmade, hcount, hold, fun _ hne => absurd rfl hne⟩
    rw [length_nil, Nat.sub_zero, if_pos rfl]
    rfl
  · have hpos : 0 < new.length := length_pos_iff.mpr hempty
    have hne : pkt.count c - new.length ≠ pkt.count c := by omega
    rw [if_neg hne, hmine hempty]
    by_cases hsplit : 1 < pkt.count c
    · have hhelper : pkt.helper c = some pkt.id := if_pos hsplit
      have hmade' : hp pkt.id = some { burstCount := pkt.count c } :=
        hok.new (by rw [hmine hempty, hhelper]; exact Option.some_ne_none _)
      let helper : BurstHelper := ⟨pkt.count c, pkt.count c - new.length⟩
      refine ⟨rq, update hp pkt.id (some helper), new, ?_, hlen, hperm, hmade, hcount,
        fun id hne => (update_of_ne hne ..).trans (hold id hne),
        fun _ _ => update_self ..⟩
      rw [hhelper]
      dsimp only
      rw [hmade', if_neg (Nat.ne_of_gt hpos), decide_eq_false (Nat.ne_of_gt hpos)]
      rfl
    · have hhelper : pkt.helper c = none := if_neg hsplit
      refine ⟨rq, hp, new, ?_, hlen, hperm, hmade, hcount, hold, fun hx => absurd hx hsplit⟩
      rw [hhelper]
      rw [if_neg (Nat.ne_of_gt hpos), decide_eq_false (Nat.ne_of_gt hpos)]

/-! ## The loop over the bursts of a write -/

theorem addWriteBursts_spec (hqos : pkt.qosValue < c.numPriorities) : ∀ (bs : List Burst)
    (s : MemCtrl), s.writeQueue.length = c.numPriorities →
    WriteQueue c s.writeQueue.flatten s.isInWriteQueue →
    s.totalWriteQueueSize = s.writeQueue.flatten.length → (∀ b ∈ bs, Within c pkt b) →
    s.totalWriteQueueSize + bs.length ≤ c.writeBufferSize →
    ∃ writeQueue isInWriteQueue total, MemCtrl.addWriteBursts c pkt bs s = some { s with
        writeQueue := writeQueue
        isInWriteQueue := isInWriteQueue
        totalWriteQueueSize := total } ∧
      writeQueue.length = c.numPriorities ∧ WriteQueue c writeQueue.flatten isInWriteQueue ∧
      total = writeQueue.flatten.length ∧ s.totalWriteQueueSize ≤ total ∧
      total ≤ s.totalWriteQueueSize + bs.length := by
  intro bs
  induction bs with
  | nil =>
    exact fun s hlen hwrites hcount _ _ => ⟨s.writeQueue, s.isInWriteQueue,
      s.totalWriteQueueSize, rfl, hlen, hwrites, hcount, Nat.le_refl _, Nat.le_refl _⟩
  | cons b bs ih =>
    intro s hlen hwrites hcount hwithin hroom
    rw [length_cons] at hroom ⊢
    have hb := hwithin b mem_cons_self
    have hbs : ∀ b ∈ bs, Within c pkt b := fun b hb => hwithin b (mem_cons_of_mem _ hb)
    rw [MemCtrl.addWriteBursts, MemCtrl.addWriteBurst]
    by_cases hmerged : c.burstAlign b.addr ∈ s.isInWriteQueue
    · rw [if_pos hmerged, Option.bind_some]
      obtain ⟨wq, set, total, hrun, hlen', hwrites', hcount', hge, hle⟩ :=
        ih s hlen hwrites hcount hbs (by omega)
      exact ⟨wq, set, total, hrun, hlen', hwrites', hcount', hge, by omega⟩
    · have hlt : s.totalWriteQueueSize < c.writeBufferSize := by omega
      have hpush : (Buckets.push s.writeQueue pkt.qosValue
          { pkt := pkt, addr := b.addr, size := b.size }).flatten.Perm
          ({ pkt := pkt, addr := b.addr, size := b.size } :: s.writeQueue.flatten) :=
        Buckets.flatten_push (hlen ▸ hqos)
      have hwrites₁ := (hwrites.insert hb hmerged).perm hpush.symm
      have hcount₁ : s.totalWriteQueueSize + 1 = (Buckets.push s.writeQueue pkt.qosValue
          { pkt := pkt, addr := b.addr, size := b.size }).flatten.length := by
        rw [hpush.length_eq, length_cons, hcount]
      rw [if_neg hmerged, if_pos hlt]
      rw [if_pos (hcount₁.trans hwrites₁.card.symm), Option.bind_some]
      obtain ⟨wq, set, total, hrun, hlen', hwrites', hcount', hge, hle⟩ :=
        ih { s with
          writeQueue := Buckets.push s.writeQueue pkt.qosValue
            { pkt := pkt, addr := b.addr, size := b.size }
          isInWriteQueue := insert (c.burstAlign b.addr) s.isInWriteQueue
          totalWriteQueueSize := s.totalWriteQueueSize + 1 }
          (Buckets.length_push.trans hlen) hwrites₁ hcount₁ hbs
          (by show s.totalWriteQueueSize + 1 + bs.length ≤ _; omega)
      dsimp only at hge hle
      exact ⟨wq, set, total, hrun, hlen', hwrites', hcount', by omega, by omega⟩

/-! ## recvTimingReq -/

/-- A read is accepted. -/
theorem Shape.acceptRead (h : Shape c s) {readQueue : List (List MemPacket)}
    {burstHelpers : Nat → Option BurstHelper} {new : List MemPacket} {responses : List Nat}
    {nextReqEvent : Bool} (hlen : readQueue.length = c.numPriorities)
    (hperm : readQueue.flatten.Perm (new ++ s.readQueue.flatten)) (hmade : MadeFor c pkt new)
    (hroom : s.totalReadQueueSize + new.length + s.respQueue.length ≤ c.readBufferSize)
    (hnext : nextReqEvent = false → new = [] ∧ s.nextReqEvent = false) :
    Shape c { s with
      burstHelpers := burstHelpers
      readQueue := readQueue
      totalReadQueueSize := s.totalReadQueueSize + new.length
      responses := responses
      nextReqEvent := nextReqEvent } where
  writes := h.writes
  readSizes := fun p hp => by
    rcases mem_append.mp (hperm.mem_iff.mp hp) with hnew | hold
    · exact (hmade p hnew).2
    · exact h.readSizes p hold
  priorities := ⟨hlen, h.priorities.2⟩
  readCount := by
    show s.totalReadQueueSize + new.length = readQueue.flatten.length
    rw [hperm.length_eq, length_append, h.readCount, Nat.add_comm]
  writeCount := h.writeCount
  readRoom := hroom
  writeRoom := h.writeRoom
  respond := h.respond
  sorted := h.sorted
  idle := fun hidle => by
    obtain ⟨rfl, hold⟩ := hnext hidle
    exact h.idle hold
  bus := h.bus
  retryRd := fun hretry => by
    have hpos := h.retryRd hretry
    show 0 < s.totalReadQueueSize + new.length + s.respQueue.length
    omega
  retryWr := h.retryWr

/-- A write is accepted. -/
theorem Shape.acceptWrite (h : Shape c s) {writeQueue : List (List MemPacket)}
    {isInWriteQueue : Finset Nat} {total : Nat} {responses : List Nat}
    (hlen : writeQueue.length = c.numPriorities)
    (hwrites : WriteQueue c writeQueue.flatten isInWriteQueue)
    (hcount : total = writeQueue.flatten.length) (hge : s.totalWriteQueueSize ≤ total)
    (hroom : total ≤ c.writeBufferSize) :
    Shape c { s with
      writeQueue := writeQueue
      isInWriteQueue := isInWriteQueue
      totalWriteQueueSize := total
      responses := responses
      nextReqEvent := true } where
  writes := hwrites
  readSizes := h.readSizes
  priorities := ⟨h.priorities.1, hlen⟩
  readCount := h.readCount
  writeCount := hcount
  readRoom := h.readRoom
  writeRoom := hroom
  respond := h.respond
  sorted := h.sorted
  idle := fun hidle => by cases hidle
  bus := fun hbus => Nat.lt_of_lt_of_le (h.bus hbus) hge
  retryRd := h.retryRd
  retryWr := fun hretry => Nat.lt_of_lt_of_le (h.retryWr hretry) hge

/-- A refused read: something is still to be read or to be answered. -/
theorem Shape.refuseRead (h : Shape c s) (hretry : 0 < s.totalReadQueueSize + s.respQueue.length) :
    Shape c { s with retryRdReq := true } :=
  { h with retryRd := fun _ => hretry }

/-- A refused write: the queue is above the low threshold. -/
theorem Shape.refuseWrite (h : Shape c s) (hretry : c.writeLowThreshold < s.totalWriteQueueSize) :
    Shape c { s with retryWrReq := true } :=
  { h with retryWr := fun _ => hretry }

/-- What `recvTimingReq` does with a write. -/
theorem recvTimingReq_write (h : Shape c s) (hwrite : pkt.isWrite = true)
    (hqos : pkt.qosValue < c.numPriorities) (hfits : c.Fits pkt.addr pkt.size)
    (hsize : pkt.size ≠ 0) (hcount : pkt.count c ≤ c.writeBufferSize - c.writeLowThreshold) :
    (s.recvTimingReq c pkt = some ({ s with retryWrReq := true }, false) ∧
      Shape c { s with retryWrReq := true }) ∨
    ∃ writeQueue isInWriteQueue total, let s' : MemCtrl := { s with
        writeQueue := writeQueue
        isInWriteQueue := isInWriteQueue
        totalWriteQueueSize := total
        responses := pkt.id :: s.responses
        nextReqEvent := true }
      s.recvTimingReq c pkt = some (s', true) ∧ Shape c s' := by
  have hpos : 0 < pkt.count c := pkt_count_pos hfits hsize
  unfold MemCtrl.recvTimingReq
  rw [if_pos hwrite]
  by_cases hfull : s.writeQueueFull c (pkt.count c)
  · have hlow : c.writeLowThreshold < s.totalWriteQueueSize := by
      unfold MemCtrl.writeQueueFull at hfull
      omega
    exact .inl ⟨if_pos hfull, h.refuseWrite hlow⟩
  · have hfit : s.totalWriteQueueSize + (bursts c pkt).length ≤ c.writeBufferSize := by
      rw [length_bursts]
      exact Nat.le_of_not_lt hfull
    obtain ⟨wq, set, total, hrun, hlen, hwrites, hlength, hge, hle⟩ :=
      addWriteBursts_spec hqos (bursts c pkt) s h.priorities.2 h.writes h.writeCount
        (bursts_within hfits hsize) hfit
    refine .inr ⟨wq, set, total, ?_, h.acceptWrite hlen hwrites hlength hge (Nat.le_trans hle hfit)⟩
    refine (if_neg hfull).trans ?_
    rw [MemCtrl.addToWriteQueue, hrun]
    rfl

/-- What `recvTimingReq` does with a read. -/
theorem recvTimingReq_read (h : Shape c s) (hread : pkt.isWrite = false)
    (hqos : pkt.qosValue < c.numPriorities) (hfits : c.Fits pkt.addr pkt.size)
    (hsize : pkt.size ≠ 0) (hcount : pkt.count c ≤ c.readBufferSize) :
    (s.recvTimingReq c pkt = some ({ s with retryRdReq := true }, false) ∧
      Shape c { s with retryRdReq := true }) ∨
    ∃ readQueue burstHelpers new nextReqEvent, let s' : MemCtrl := { s with
        burstHelpers := burstHelpers
        readQueue := readQueue
        totalReadQueueSize := s.totalReadQueueSize + new.length
        responses := if new.length = 0 then pkt.id :: s.responses else s.responses
        nextReqEvent := nextReqEvent }
      s.recvTimingReq c pkt = some (s', true) ∧ Shape c s' ∧
      readQueue.flatten.Perm (new ++ s.readQueue.flatten) ∧ MadeFor c pkt new ∧
      new.length = uncovered s (bursts c pkt) ∧
      (∀ id, id ≠ pkt.id → burstHelpers id = s.burstHelpers id) ∧
      (1 < pkt.count c → new.length ≠ 0 → burstHelpers pkt.id =
        some { burstCount := pkt.count c, burstsServiced := pkt.count c - new.length }) := by
  unfold MemCtrl.recvTimingReq
  rw [if_neg (by rw [hread]; exact Bool.false_ne_true)]
  by_cases hfull : s.readQueueFull c (pkt.count c)
  · have hbusy : 0 < s.totalReadQueueSize + s.respQueue.length := by
      unfold MemCtrl.readQueueFull at hfull
      omega
    exact .inl ⟨if_pos hfull, h.refuseRead hbusy⟩
  · obtain ⟨rq, hp, new, hrun, hlen, hperm, hmade, hnew, hold, hhelper⟩ :=
      addToReadQueue_spec h hqos hfits hsize hfull
    have hroom : s.totalReadQueueSize + new.length + s.respQueue.length ≤ c.readBufferSize := by
      have hfit := Nat.le_of_not_lt hfull
      have hle : new.length ≤ pkt.count c := by
        rw [hnew, ← covered_add_uncovered h.writes hfits hsize]
        exact Nat.le_add_left ..
      omega
    by_cases hempty : new.length = 0
    · refine .inr ⟨rq, hp, new, s.nextReqEvent, ?_, h.acceptRead hlen hperm hmade hroom fun hidle =>
        ⟨length_eq_zero_iff.mp hempty, hidle⟩, hperm, hmade, hnew, hold, hhelper⟩
      refine (if_neg hfull).trans ?_
      change (s.addToReadQueue c pkt (pkt.count c)).map _ = _
      rw [hrun, Option.map_some, if_pos (decide_eq_true hempty)]
    · refine .inr ⟨rq, hp, new, true, ?_, h.acceptRead hlen hperm hmade hroom fun hidle =>
        Bool.noConfusion hidle, hperm, hmade, hnew, hold, hhelper⟩
      refine (if_neg hfull).trans ?_
      change (s.addToReadQueue c pkt (pkt.count c)).map _ = _
      rw [hrun, Option.map_some, if_neg (by simp [hempty])]

end Gem5Dvr.Memory
