/-
  What has become of the accepted requests.

  A read is split into bursts; each was covered by the write queue, waits (in the read queue or in
  the response queue), or has been popped.  `Ledger` says that the three add up, that a read is
  answered ONCE, when none of its bursts waits, and that the burst helper of a split read counts what
  no longer waits.  The rules are those of the three things that happen: a request is accepted, the
  waiting bursts are reordered, and one is popped.
-/
import Mathlib.Data.List.Perm.Lattice
import Gem5Dvr.MemCtrl

namespace Gem5Dvr.Memory

open List Function

variable {c : Config}

/-- The bursts of a packet. -/
def Packet.count (c : Config) (pkt : Packet) : Nat := c.pkt_count pkt.addr pkt.size

/-- The helper that the bursts of a packet have. -/
def Packet.helper (c : Config) (pkt : Packet) : Option Nat :=
  if 1 < pkt.count c then some pkt.id else none

/-- What a waiting burst is known by. -/
def MemPacket.key (p : MemPacket) : Packet × Option Nat := (p.pkt, p.burstHelper)

/-- The waiting bursts of a packet. -/
def waitingOf (pkt : Packet) (waiting : List (Packet × Option Nat)) : Nat :=
  waiting.countP fun w => decide (w.1 = pkt)

/-- What the requests have come to. -/
structure Books where
  accepted : List Packet := []
  covered : Nat → Nat := fun _ => 0
  popped : List Nat := []
  responses : List Nat := []
  burstHelpers : Nat → Option BurstHelper := fun _ => none
  waiting : List (Packet × Option Nat) := []

/-- The bursts that no longer wait. -/
def Books.serviced (b : Books) (pkt : Packet) : Nat := b.covered pkt.id + b.popped.count pkt.id

/-- What is said of one read, in numbers. -/
structure ReadOk (count serviced waiting responses : Nat) (helper : Option BurstHelper) :
    Prop where
  sum : serviced + waiting = count
  once : responses = if waiting = 0 then 1 else 0
  helper : 1 < count → waiting ≠ 0 →
    helper = some { burstCount := count, burstsServiced := serviced }

structure Ledger (c : Config) (b : Books) : Prop where
  ids : b.accepted.map Packet.id = (List.range b.accepted.length).reverse
  known : ∀ w ∈ b.waiting, w.1 ∈ b.accepted ∧ w.1.isWrite = false ∧ w.2 = w.1.helper c
  reads : ∀ pkt ∈ b.accepted, pkt.isWrite = false → ReadOk (pkt.count c) (b.serviced pkt)
    (waitingOf pkt b.waiting) (b.responses.count pkt.id) (b.burstHelpers pkt.id)
  writes : ∀ pkt ∈ b.accepted, pkt.isWrite = true → b.responses.count pkt.id = 1
  fresh : ∀ id, b.accepted.length ≤ id → b.responses.count id = 0 ∧ b.popped.count id = 0

namespace Ledger

variable {b b' : Books} {pkt pkt' : Packet}

theorem init : Ledger c {} where
  ids := rfl
  known := fun _ hw => absurd hw not_mem_nil
  reads := fun _ hp => absurd hp not_mem_nil
  writes := fun _ hp => absurd hp not_mem_nil
  fresh := fun _ _ => ⟨rfl, rfl⟩

theorem id_lt (h : Ledger c b) (hp : pkt ∈ b.accepted) : pkt.id < b.accepted.length := by
  have hmem : pkt.id ∈ b.accepted.map Packet.id := mem_map_of_mem hp
  rw [h.ids, mem_reverse, mem_range] at hmem
  exact hmem

/-- A request is known by its number. -/
theorem id_inj (h : Ledger c b) (hp : pkt ∈ b.accepted) (hp' : pkt' ∈ b.accepted)
    (hid : pkt.id = pkt'.id) : pkt = pkt' := by
  have hnodup : (b.accepted.map Packet.id).Nodup := by
    rw [h.ids, nodup_reverse]
    exact nodup_range
  exact inj_on_of_nodup_map hnodup hp hp' hid

theorem ids_cons (h : Ledger c b) (hid : pkt.id = b.accepted.length) :
    (pkt :: b.accepted).map Packet.id = (List.range (pkt :: b.accepted).length).reverse := by
  rw [map_cons, h.ids, hid, length_cons, range_succ, reverse_append]
  rfl

/-- A request that has just been accepted is none that waits. -/
theorem waitingOf_new (h : Ledger c b) (hid : pkt.id = b.accepted.length) :
    waitingOf pkt b.waiting = 0 := by
  refine countP_eq_zero.mpr fun w hw heq => ?_
  have hlt := h.id_lt (h.known w hw).1
  rw [of_decide_eq_true heq, hid] at hlt
  exact Nat.lt_irrefl _ hlt

variable {waiting : List (Packet × Option Nat)}

/-- The waiting bursts in another order. -/
theorem perm (h : Ledger c b)
    (hperm : b.waiting.Perm waiting) : Ledger c { b with waiting := waiting } := by
  refine ⟨h.ids, fun w hw => h.known w (hperm.mem_iff.mpr hw), fun pkt hp hread => ?_,
    h.writes, h.fresh⟩
  have hsame : waitingOf pkt waiting = waitingOf pkt b.waiting := (hperm.countP_eq _).symm
  show ReadOk _ (b.serviced pkt) (waitingOf pkt waiting) _ _
  rw [hsame]
  exact h.reads pkt hp hread

theorem ne_of_new (h : Ledger c b) (hid : pkt.id = b.accepted.length) (hp : pkt' ∈ b.accepted) :
    pkt'.id ≠ pkt.id := by
  have hlt := h.id_lt hp
  omega

/-- A write is answered at once. -/
theorem acceptWrite (h : Ledger c b) (hid : pkt.id = b.accepted.length)
    (hwrite : pkt.isWrite = true) (covered : Nat) : Ledger c { b with
      accepted := pkt :: b.accepted
      covered := update b.covered pkt.id covered
      responses := pkt.id :: b.responses } := by
  refine ⟨h.ids_cons hid, fun w hw => ?_, fun p hp hread => ?_, fun p hp hwrite' => ?_,
    fun id hle => ?_⟩
  · obtain ⟨hmem, hrest⟩ := h.known w hw
    exact ⟨mem_cons_of_mem _ hmem, hrest⟩
  · rcases mem_cons.mp hp with rfl | hold
    · rw [hwrite] at hread
      cases hread
    · have hne := h.ne_of_new hid hold
      show ReadOk _ (update b.covered pkt.id covered p.id + b.popped.count p.id)
        (waitingOf p b.waiting) ((pkt.id :: b.responses).count p.id) (b.burstHelpers p.id)
      rw [update_of_ne hne, count_cons_of_ne (Ne.symm hne)]
      exact h.reads p hold hread
  · rcases mem_cons.mp hp with rfl | hold
    · rw [count_cons_self, (h.fresh p.id (Nat.le_of_eq hid.symm)).1]
    · rw [count_cons_of_ne (Ne.symm (h.ne_of_new hid hold))]
      exact h.writes p hold hwrite'
  · rw [length_cons] at hle
    rw [count_cons_of_ne (show pkt.id ≠ id by omega)]
    exact h.fresh id (by omega)

/-- The answers, when the last burst of a packet no longer waits. -/
theorem count_answer (responses : List Nat) (id : Nat) (last : Prop) [Decidable last] (id' : Nat) :
    (if last then id :: responses else responses).count id' =
      responses.count id' + if last ∧ id = id' then 1 else 0 := by
  by_cases hlast : last
  · rw [if_pos hlast, count_cons]
    simp [hlast]
  · simp [hlast]

/-- A read is accepted: `covered` bursts are, and `k` wait. -/
theorem acceptRead (h : Ledger c b) (hid : pkt.id = b.accepted.length)
    (hread : pkt.isWrite = false) {covered k : Nat} (hsum : covered + k = pkt.count c)
    (hperm : waiting.Perm (replicate k (pkt, pkt.helper c) ++ b.waiting))
    {burstHelpers : Nat → Option BurstHelper}
    (hold : ∀ id, id ≠ pkt.id → burstHelpers id = b.burstHelpers id)
    (hnew : 1 < pkt.count c → k ≠ 0 → burstHelpers pkt.id =
      some { burstCount := pkt.count c, burstsServiced := covered }) :
    Ledger c { b with
      accepted := pkt :: b.accepted
      covered := update b.covered pkt.id covered
      responses := if k = 0 then pkt.id :: b.responses else b.responses
      burstHelpers := burstHelpers
      waiting := waiting } := by
  have hwaiting : ∀ p, waitingOf p waiting =
      (if pkt = p then k else 0) + waitingOf p b.waiting := by
    intro p
    rw [waitingOf, hperm.countP_eq, countP_append, countP_replicate]
    simp [waitingOf]
  obtain ⟨hfresh, hunpopped⟩ := h.fresh pkt.id (Nat.le_of_eq hid.symm)
  refine ⟨h.ids_cons hid, fun w hw => ?_, fun p hp hpread => ?_, fun p hp hwrite => ?_,
    fun id hle => ?_⟩
  · rcases mem_append.mp (hperm.mem_iff.mp hw) with hmine | hother
    · obtain ⟨-, rfl⟩ := mem_replicate.mp hmine
      exact ⟨mem_cons_self, hread, rfl⟩
    · obtain ⟨hmem, hrest⟩ := h.known w hother
      exact ⟨mem_cons_of_mem _ hmem, hrest⟩
  · show ReadOk _ (update b.covered pkt.id covered p.id + b.popped.count p.id)
      (waitingOf p waiting) ((if k = 0 then pkt.id :: b.responses else b.responses).count p.id)
      (burstHelpers p.id)
    rcases mem_cons.mp hp with rfl | hmem
    · rw [update_self, hunpopped, hwaiting, if_pos rfl, h.waitingOf_new hid, count_answer, hfresh]
      exact ⟨hsum, by simp, hnew⟩
    · have hne := h.ne_of_new hid hmem
      have hnep : pkt ≠ p := fun heq => hne (congrArg Packet.id heq.symm)
      rw [update_of_ne hne, hwaiting, if_neg hnep, Nat.zero_add, count_answer,
        if_neg fun hx => hne hx.2.symm, hold p.id hne]
      exact h.reads p hmem hpread
  · rcases mem_cons.mp hp with rfl | hmem
    · rw [hread] at hwrite
      cases hwrite
    · have hne := h.ne_of_new hid hmem
      rw [count_answer, if_neg fun hx => hne hx.2.symm]
      exact h.writes p hmem hwrite
  · rw [length_cons] at hle
    rw [count_answer, if_neg fun hx => by omega]
    exact h.fresh id (by omega)

/-- A burst is popped; the last one answers its request. -/
theorem pop (h : Ledger c b) {helper : Option Nat}
    (hperm : b.waiting.Perm ((pkt, helper) :: waiting)) {burstHelpers : Nat → Option BurstHelper}
    (hold : ∀ id, id ≠ pkt.id → burstHelpers id = b.burstHelpers id)
    (hnew : 1 < pkt.count c → waitingOf pkt waiting ≠ 0 → burstHelpers pkt.id =
      some { burstCount := pkt.count c, burstsServiced := b.serviced pkt + 1 }) :
    Ledger c { b with
      popped := pkt.id :: b.popped
      responses := if waitingOf pkt waiting = 0 then pkt.id :: b.responses else b.responses
      burstHelpers := burstHelpers
      waiting := waiting } := by
  obtain ⟨hmem, hread, -⟩ := h.known (pkt, helper) (hperm.mem_iff.mpr mem_cons_self)
  have hwaiting : ∀ p, waitingOf p b.waiting = waitingOf p waiting + if pkt = p then 1 else 0 := by
    intro p
    rw [waitingOf, hperm.countP_eq, countP_cons]
    simp [waitingOf]
  have hother : ∀ p ∈ b.accepted, pkt ≠ p → p.id ≠ pkt.id := fun p hp hne hid =>
    hne (h.id_inj hp hmem hid).symm
  refine ⟨h.ids, fun w hw => h.known w (hperm.mem_iff.mpr (mem_cons_of_mem _ hw)),
    fun p hp hpread => ?_, fun p hp hwrite => ?_, fun id hle => ?_⟩
  · have hp' := h.reads p hp hpread
    show ReadOk _ (b.covered p.id + (pkt.id :: b.popped).count p.id) (waitingOf p waiting)
      ((if waitingOf pkt waiting = 0 then pkt.id :: b.responses else b.responses).count p.id)
      (burstHelpers p.id)
    rw [hwaiting] at hp'
    by_cases heq : pkt = p
    · subst heq
      rw [if_pos rfl] at hp'
      have hunanswered := hp'.once
      rw [count_cons_self, count_answer, hunanswered, ← Nat.add_assoc]
      refine ⟨?_, by simp, hnew⟩
      have hsum := hp'.sum
      unfold Books.serviced at hsum
      omega
    · have hne := hother p hp heq
      rw [if_neg heq, Nat.add_zero] at hp'
      rw [count_cons_of_ne (Ne.symm hne), count_answer, if_neg fun hx => hne hx.2.symm,
        hold p.id hne]
      exact hp'
  · have hne : p.id ≠ pkt.id := hother p hp fun heq => by
      rw [← heq, hread] at hwrite
      cases hwrite
    rw [count_answer, if_neg fun hx => hne hx.2.symm]
    exact h.writes p hp hwrite
  · have hlt : pkt.id < b.accepted.length := h.id_lt hmem
    have hne : pkt.id ≠ id := fun heq => Nat.lt_irrefl _ (Nat.lt_of_lt_of_le (heq ▸ hlt) hle)
    rw [count_answer, if_neg fun hx => hne hx.2, count_cons_of_ne hne]
    exact h.fresh id hle

end Ledger

end Gem5Dvr.Memory
