/-
  Runs of the event queue (`sim/eventq.cc` 90-236).

    1. `Run`: the queue, what was inserted and not yet removed or serviced, and when it was
       inserted.  A pointer that is stale may be written at any time (`Op.stale`).
    2. `Inv`: there are bins, sorted, each of equal events with the last inserted at its top.
    3. `queue_is_lifo_priority_queue`: the queue is a priority queue with last-in-first-out ties.
-/
import Gem5Dvr.EventQueue

namespace Gem5Dvr.EventQ

open List Function

open LinkedList (Seg)
open EventQueue (RepSeg events Sorted Same)

structure Run (E : Type) where
  queue : EventQueue E
  queued : List E := []
  serial : Nat := 0
  insertedAt : E → Nat := fun _ => 0

inductive Op (E : Type)
  | setWhen (e : E) (when : Nat)
  | stale (e : E) (a : Option E)
  | insert (event : E)
  | remove (event : E)
  | serviceOne

namespace Run

variable {E : Type}

/-- An empty queue; what the pointers of the events hold does not matter. -/
def init (nextBin nextInBin : E → Option E) (when : E → Nat) (priority : E → Int) : Run E where
  queue :=
    { head := none, nextBin := nextBin, nextInBin := nextInBin, when := when, priority := priority }

/-- More than the loops need. -/
def fuel (r : Run E) : Nat := r.queued.length + 1

section

variable [DecidableEq E] (r : Run E)

def step : Op E → Option (Run E)
  | .setWhen e t =>
    some { r with queue := { r.queue with when := update r.queue.when e t } }
  | .stale e a => some { r with queue := r.queue.setNextBin e a }
  | .insert e =>
    (r.queue.insert r.fuel e).map fun q =>
      { queue := q
        queued := e :: r.queued
        serial := r.serial + 1
        insertedAt := update r.insertedAt e r.serial }
  | .remove e =>
    (r.queue.remove r.fuel e).map fun q =>
      { r with queue := q, queued := r.queued.filter fun x => x ≠ e }
  | .serviceOne =>
    r.queue.serviceOne.map fun y =>
      { r with queue := y.1, queued := r.queued.filter fun x => x ≠ y.2 }

/-- The time of an event is set, and it is inserted, when it is not queued; what is removed is
    queued; there is something to service.  A pointer is stale when its event is not met by the walk
    along `nextBin`. -/
def Allowed : Op E → Prop
  | .setWhen e _ => e ∉ r.queued
  | .stale e _ => e ∉ LinkedList.follow r.queue.nextBin r.fuel r.queue.head
  | .insert e => e ∉ r.queued
  | .remove e => e ∈ r.queued
  | .serviceOne => r.queued ≠ []

instance decidableAllowed (op : Op E) : Decidable (r.Allowed op) := by
  cases op <;> unfold Allowed <;> infer_instance

end

/-- The bins of a queue, in order. -/
structure Bins (q : EventQueue E) (bins : List (E × List E)) : Prop where
  rep : RepSeg q q.head bins none
  sorted : Sorted q bins
  same : Same q bins
  nodup : (events bins).Nodup

structure Inv (r : Run E) (bins : List (E × List E)) : Prop extends Bins r.queue bins where
  lifo : ∀ b ∈ bins, (b.1 :: b.2).Pairwise fun d e => r.insertedAt e < r.insertedAt d
  queued : ∀ e, e ∈ events bins ↔ e ∈ r.queued
  once : r.queued.Nodup
  past : ∀ e ∈ r.queued, r.insertedAt e < r.serial

variable {r : Run E}

theorem inv_init (nextBin nextInBin : E → Option E) (when : E → Nat) (priority : E → Int) :
    Inv (init nextBin nextInBin when priority) [] := by
  refine ⟨⟨⟨rfl, ?_⟩, List.Pairwise.nil, ?_, nodup_nil⟩, ?_, ?_, nodup_nil, ?_⟩
  · exact fun x hx => absurd hx not_mem_nil
  · exact fun x hx => absurd hx not_mem_nil
  · exact fun x hx => absurd hx not_mem_nil
  · exact fun e => Iff.rfl
  · exact fun e he => absurd he not_mem_nil

/-- As many events as are queued. -/
theorem Inv.length_eq {bins : List (E × List E)} (h : Inv r bins) :
    (events bins).length = r.queued.length :=
  ((perm_ext_iff_of_nodup h.nodup h.once).mpr h.queued).length_eq

theorem Inv.events_lt {bins : List (E × List E)} (h : Inv r bins) :
    (events bins).length < r.fuel := Nat.lt_succ_of_le (Nat.le_of_eq h.length_eq)

theorem Inv.bins_lt {bins : List (E × List E)} (h : Inv r bins) : bins.length < r.fuel :=
  Nat.lt_of_le_of_lt (EventQueue.length_events bins) h.events_lt

/-! ## The events of bins that change -/

/-- An event comes on top of its bin, or as a new bin. -/
theorem sorted_push {q : EventQueue E} {event : E} {pre post : List (E × List E)}
    (h : Sorted q (pre ++ post)) (hpre : ∀ b ∈ pre, q.key b.1 < q.key event)
    (hpost : ∀ b ∈ post.head?, q.key event ≤ q.key b.1) :
    Sorted q (pre ++ q.pushBin event post) := by
  obtain ⟨hsorted, hrest, hcross⟩ := pairwise_append.mp h
  match post with
  | [] =>
    refine pairwise_append.mpr ⟨hsorted, pairwise_singleton _ _, fun b hb c hc => ?_⟩
    rw [mem_singleton.mp hc]
    exact hpre b hb
  | (curr, rest) :: post =>
    have hle := hpost (curr, rest) rfl
    obtain ⟨hhead, htail⟩ := pairwise_cons.mp hrest
    rw [EventQueue.pushBin]
    split
    · rename_i hlt
      refine pairwise_append.mpr ⟨hsorted, pairwise_cons.mpr ⟨fun c hc => ?_, hrest⟩, ?_⟩
      · rcases mem_cons.mp hc with rfl | hc
        · exact EventQueue.lt_iff.mp hlt
        · exact lt_of_le_of_lt hle (hhead c hc)
      · intro b hb c hc
        rcases mem_cons.mp hc with rfl | hc
        · exact hpre b hb
        · exact hcross b hb c hc
    · refine pairwise_append.mpr ⟨hsorted, pairwise_cons.mpr ⟨fun c hc => ?_, htail⟩, ?_⟩
      · exact lt_of_le_of_lt hle (hhead c hc)
      · intro b hb c hc
        rcases mem_cons.mp hc with rfl | hc
        · exact hpre b hb
        · exact hcross b hb c (mem_cons_of_mem _ hc)

/-- What holds of every bin and of a new one holds after a push, when it holds of the event on the
    first bin. -/
theorem forall_push {q : EventQueue E} {event : E} {pre post : List (E × List E)}
    {p : E × List E → Prop} (h : ∀ b ∈ pre ++ post, p b) (hnew : p (event, []))
    (hon : ∀ curr rest, post.head? = some (curr, rest) → ¬ q.lt event curr →
      p (event, curr :: rest)) :
    ∀ b ∈ pre ++ q.pushBin event post, p b := by
  intro b hb
  rcases mem_append.mp hb with hb | hb
  · exact h b (mem_append_left _ hb)
  · match post with
    | [] =>
      rw [mem_singleton.mp hb]
      exact hnew
    | (curr, rest) :: post =>
      rw [EventQueue.pushBin] at hb
      split at hb
      · rcases mem_cons.mp hb with rfl | hb
        · exact hnew
        · exact h b (mem_append_right pre hb)
      · rename_i hlt
        rcases mem_cons.mp hb with rfl | hb
        · exact hon curr rest rfl hlt
        · exact h b (mem_append_right pre (mem_cons_of_mem _ hb))

variable [DecidableEq E]

/-- The bin of a removed event: it is gone, or has another top of the same key, or lost an event
    below its top. -/
theorem popItem_cases {event top : E} {rest : List E} (hin : event ∈ top :: rest)
    (post : List (E × List E)) :
    (EventQueue.popItem event (top, rest) post = post) ∨
      ∃ top' rest', EventQueue.popItem event (top, rest) post = (top', rest') :: post ∧
        Sublist (top' :: rest') (top :: rest) := by
  by_cases heq : event = top
  · match rest with
    | [] => exact Or.inl (if_pos heq)
    | next :: rest => exact Or.inr ⟨next, rest, if_pos heq, sublist_cons_self top _⟩
  · exact Or.inr ⟨top, rest.filter (· ≠ event), if_neg heq, filter_sublist.cons_cons top⟩

/-- An event leaves its bin. -/
theorem Inv.pop {event top : E} {rest : List E} {pre post : List (E × List E)} {q' : EventQueue E}
    (h : Inv r (pre ++ (top, rest) :: post)) (hin : event ∈ top :: rest)
    (hrep : RepSeg q' q'.head (pre ++ EventQueue.popItem event (top, rest) post) none)
    (hwhen : q'.when = r.queue.when) (hpriority : q'.priority = r.queue.priority) :
    Inv { r with queue := q', queued := r.queued.filter fun x => x ≠ event }
      (pre ++ EventQueue.popItem event (top, rest) post) := by
  have hkey : q'.key = r.queue.key := by
    funext e
    rw [EventQueue.key, EventQueue.key, hwhen, hpriority]
  have hnd := h.nodup
  rw [EventQueue.events_append] at hnd
  obtain ⟨-, hndpost, hapart⟩ := nodup_append.mp hnd
  have hmem : event ∈ events ((top, rest) :: post) :=
    EventQueue.mem_events.mpr ⟨_, mem_cons_self, hin⟩
  have hevents : events (pre ++ EventQueue.popItem event (top, rest) post) =
      (events (pre ++ (top, rest) :: post)).filter fun e => e ≠ event := by
    have hpre : (events pre).filter (fun e => e ≠ event) = events pre :=
      filter_eq_self.mpr fun e he => decide_eq_true fun heq => hapart e he event hmem heq
    rw [EventQueue.events_append, EventQueue.events_append, filter_append, hpre,
      EventQueue.events_popItem hndpost hin]
  -- the keys of a bin are those of its top
  have hall : ∀ e ∈ top :: rest, r.queue.key e = r.queue.key top := by
    intro e he
    rcases mem_cons.mp he with rfl | he
    · rfl
    · exact h.same (top, rest) (mem_append_right pre mem_cons_self) e he
  obtain ⟨hsortedpre, hsortedpost, hcross⟩ := pairwise_append.mp h.sorted
  obtain ⟨hhead, htail⟩ := pairwise_cons.mp hsortedpost
  have hlater : ∀ {b : E × List E}, b ∈ pre ++ post → b ∈ pre ++ (top, rest) :: post := by
    intro b hb
    rcases mem_append.mp hb with hb | hb
    · exact mem_append_left _ hb
    · exact mem_append_right pre (mem_cons_of_mem _ hb)
  have hqueued : ∀ e, e ∈ events (pre ++ EventQueue.popItem event (top, rest) post) ↔
      e ∈ r.queued.filter fun x => x ≠ event := by
    intro e
    rw [hevents, mem_filter, mem_filter, h.queued]
  have hbins : Sorted q' (pre ++ EventQueue.popItem event (top, rest) post) ∧
      (∀ b ∈ pre ++ EventQueue.popItem event (top, rest) post, (∀ e ∈ b.2, q'.key e = q'.key b.1) ∧
          (b.1 :: b.2).Pairwise fun d e => r.insertedAt e < r.insertedAt d) := by
    rw [Sorted, hkey]
    rcases popItem_cases hin post with hpop | ⟨top', rest', hpop, hsub⟩
    · rw [hpop]
      refine ⟨?_, fun b hb => ⟨h.same b (hlater hb), h.lifo b (hlater hb)⟩⟩
      exact pairwise_append.mpr ⟨hsortedpre, htail, fun b hb c hc =>
        hcross b hb c (mem_cons_of_mem _ hc)⟩
    · rw [hpop]
      have htop : r.queue.key top' = r.queue.key top := hall top' (hsub.subset mem_cons_self)
      refine ⟨?_, fun b hb => ?_⟩
      · refine pairwise_append.mpr ⟨hsortedpre, pairwise_cons.mpr ⟨fun c hc => ?_, htail⟩, ?_⟩
        · rw [htop]
          exact hhead c hc
        · intro b hb c hc
          rcases mem_cons.mp hc with rfl | hc
          · rw [htop]
            exact hcross b hb _ mem_cons_self
          · exact hcross b hb c (mem_cons_of_mem _ hc)
      · rcases mem_append.mp hb with hb | hb
        · exact ⟨h.same b (mem_append_left _ hb), h.lifo b (mem_append_left _ hb)⟩
        · rcases mem_cons.mp hb with rfl | hb
          · refine ⟨fun e he => ?_, (h.lifo (top, rest) (mem_append_right pre
              mem_cons_self)).sublist hsub⟩
            exact (hall e (hsub.subset (mem_cons_of_mem _ he))).trans htop.symm
          · have hb := mem_append_right pre (mem_cons_of_mem (top, rest) hb)
            exact ⟨h.same b hb, h.lifo b hb⟩
  refine ⟨⟨hrep, hbins.1, fun b hb => (hbins.2 b hb).1, ?_⟩, fun b hb => (hbins.2 b hb).2, hqueued,
    h.once.filter _, fun e he => h.past e (mem_filter.mp he).1⟩
  rw [hevents]
  exact h.nodup.filter _

/-! ## The calls -/

theorem inv_insert {e : E} {bins : List (E × List E)} (h : Inv r bins) (hok : e ∉ r.queued) :
    ∃ r' bins', r.step (.insert e) = some r' ∧ Inv r' bins' := by
  have hnew : e ∉ events bins := fun hm => hok ((h.queued e).mp hm)
  obtain ⟨q', pre, post, rfl, hinsert, hrep, hpre, hpost, hwhen, hpriority⟩ :=
    EventQueue.insert_spec h.rep h.nodup hnew h.bins_lt
  have hkey : q'.key = r.queue.key := by
    funext x
    rw [EventQueue.key, EventQueue.key, hwhen, hpriority]
  have hevents : (events (pre ++ r.queue.pushBin e post)).Perm (e :: events (pre ++ post)) := by
    rw [EventQueue.events_append, EventQueue.events_append, EventQueue.events_pushBin]
    exact perm_middle
  have hstamp : ∀ x ∈ events (pre ++ post), update r.insertedAt e r.serial x = r.insertedAt x := by
    intro x hx
    refine update_of_ne ?_ _ _
    rintro rfl
    exact hnew hx
  have hpast : ∀ x ∈ events (pre ++ post), r.insertedAt x < r.serial := fun x hx =>
    h.past x ((h.queued x).mp hx)
  refine ⟨_, pre ++ r.queue.pushBin e post, by rw [step, hinsert]; rfl, ⟨hrep, ?_, ?_, ?_⟩, ?_, ?_,
    nodup_cons.mpr ⟨hok, h.once⟩, ?_⟩
  · show Sorted q' _
    rw [Sorted, hkey]
    exact sorted_push h.sorted hpre hpost
  · show Same q' _
    rw [Same, hkey]
    refine forall_push h.same (fun x hx => absurd hx not_mem_nil) fun curr rest hhead hlt => ?_
    have hmem : (curr, rest) ∈ pre ++ post := mem_append_right pre (mem_of_head? hhead)
    have hcurr : r.queue.key curr = r.queue.key e :=
      le_antisymm (not_lt.mp fun hk => hlt (EventQueue.lt_iff.mpr hk)) (hpost _ hhead)
    intro x hx
    rcases mem_cons.mp hx with rfl | hx
    · exact hcurr
    · exact (h.same (curr, rest) hmem x hx).trans hcurr
  · exact hevents.nodup_iff.mpr (nodup_cons.mpr ⟨hnew, h.nodup⟩)
  · have hold : ∀ b ∈ pre ++ post, (b.1 :: b.2).Pairwise fun d x =>
        update r.insertedAt e r.serial x < update r.insertedAt e r.serial d := by
      intro b hb
      refine (h.lifo b hb).imp_of_mem fun hc hd hcd => ?_
      rw [hstamp _ (EventQueue.mem_events.mpr ⟨b, hb, hc⟩),
        hstamp _ (EventQueue.mem_events.mpr ⟨b, hb, hd⟩)]
      exact hcd
    refine forall_push hold (pairwise_singleton _ _) fun curr rest hhead _ => ?_
    have hmem : (curr, rest) ∈ pre ++ post := mem_append_right pre (mem_of_head? hhead)
    refine pairwise_cons.mpr ⟨fun x hx => ?_, hold _ hmem⟩
    have hx : x ∈ events (pre ++ post) := EventQueue.mem_events.mpr ⟨_, hmem, hx⟩
    show update r.insertedAt e r.serial x < update r.insertedAt e r.serial e
    rw [hstamp x hx, update_self]
    exact hpast x hx
  · intro x
    rw [hevents.mem_iff, mem_cons, h.queued]
    exact mem_cons.symm
  · intro x hx
    show update r.insertedAt e r.serial x < r.serial + 1
    rcases mem_cons.mp hx with rfl | hx
    · rw [update_self]
      exact Nat.lt_succ_self _
    · rw [hstamp x ((h.queued x).mpr hx)]
      exact Nat.lt_succ_of_lt (h.past x hx)

theorem inv_remove {e : E} {bins : List (E × List E)} (h : Inv r bins) (hok : e ∈ r.queued) :
    ∃ r' bins', r.step (.remove e) = some r' ∧ Inv r' bins' := by
  obtain ⟨q', pre, top, rest, post, rfl, hin, hremove, hrep, hwhen, hpriority⟩ :=
    EventQueue.remove_spec h.rep h.nodup h.sorted h.same ((h.queued e).mpr hok) h.events_lt
  exact ⟨_, _, by rw [step, hremove]; rfl, h.pop hin hrep hwhen hpriority⟩

/-- The event that is taken is at the top of the first bin. -/
theorem Inv.serviceOne {bins : List (E × List E)} (h : Inv r bins) (hok : r.queued ≠ []) :
    ∃ q' event bins', r.queue.serviceOne = some (q', event) ∧ event ∈ r.queued ∧
      (∀ e ∈ r.queued, e ≠ event → r.queue.lt event e ∨
        r.queue.eq event e ∧ r.insertedAt e < r.insertedAt event) ∧
      Inv { r with queue := q', queued := r.queued.filter fun x => x ≠ event } bins' := by
  match bins with
  | [] =>
    obtain ⟨x, hx⟩ := exists_mem_of_ne_nil _ hok
    exact absurd ((h.queued x).mpr hx) not_mem_nil
  | (event, rest) :: bins =>
    obtain ⟨q', hservice, hrep, hwhen, hpriority⟩ := EventQueue.serviceOne_spec h.rep h.nodup
    have hsplit : Inv r ([] ++ (event, rest) :: bins) := h
    refine ⟨q', event, _, hservice, ?_, fun e he hne => ?_,
      hsplit.pop mem_cons_self hrep hwhen hpriority⟩
    · exact (h.queued event).mp (EventQueue.mem_events.mpr ⟨_, mem_cons_self, mem_cons_self⟩)
    · obtain ⟨b, hb, hmem⟩ := EventQueue.mem_events.mp ((h.queued e).mpr he)
      rcases mem_cons.mp hb with rfl | hb
      · have hmem := (mem_cons.mp hmem).resolve_left hne
        right
        exact ⟨EventQueue.eq_iff.mpr (h.same _ mem_cons_self e hmem).symm,
          (pairwise_cons.mp (h.lifo _ mem_cons_self)).1 e hmem⟩
      · left
        have hlt := (pairwise_cons.mp h.sorted).1 b hb
        have hkey : r.queue.key e = r.queue.key b.1 := by
          rcases mem_cons.mp hmem with rfl | hmem
          · rfl
          · exact h.same b (mem_cons_of_mem _ hb) e hmem
        rw [EventQueue.lt_iff, hkey]
        exact hlt

theorem inv_step (op : Op E) {bins : List (E × List E)} (h : Inv r bins) (hok : r.Allowed op) :
    ∃ r' bins', r.step op = some r' ∧ Inv r' bins' := by
  cases op with
  | insert e => exact inv_insert h hok
  | remove e => exact inv_remove h hok
  | serviceOne =>
    obtain ⟨q', event, bins', hservice, -, -, hinv⟩ := h.serviceOne hok
    exact ⟨_, bins', by rw [step, hservice]; rfl, hinv⟩
  | setWhen e t =>
    have hkey : ∀ x ∈ events bins, ({ r.queue with
        when := update r.queue.when e t } : EventQueue E).key x = r.queue.key x := by
      intro x hx
      have hne : x ≠ e := by
        rintro rfl
        exact hok ((h.queued x).mp hx)
      rw [EventQueue.key, EventQueue.key]
      show toLex (update r.queue.when e t x, _) = _
      rw [update_of_ne hne]
    refine ⟨_, bins, rfl, ⟨⟨h.rep.tops, h.rep.bins⟩, ?_, fun b hb x hx => ?_, h.nodup⟩, h.lifo,
      h.queued, h.once, h.past⟩
    · refine h.sorted.imp_of_mem fun hb hc hlt => ?_
      rw [hkey _ (EventQueue.mem_events.mpr ⟨_, hb, mem_cons_self⟩),
        hkey _ (EventQueue.mem_events.mpr ⟨_, hc, mem_cons_self⟩)]
      exact hlt
    · rw [hkey x (EventQueue.mem_events.mpr ⟨b, hb, mem_cons_of_mem _ hx⟩),
        hkey b.1 (EventQueue.mem_events.mpr ⟨b, hb, mem_cons_self⟩)]
      exact h.same b hb x hx
  | stale e a =>
    refine ⟨_, bins, rfl, ⟨h.rep.congr (fun x hx => ?_) fun _ _ => rfl, h.sorted, h.same, h.nodup⟩,
      h.lifo, h.queued, h.once, h.past⟩
    refine update_of_ne ?_ _ _
    rintro rfl
    refine hok ?_
    have hwalk := h.rep.tops.follow_eq (n := r.fuel) (by
      rw [length_map]
      exact Nat.le_of_lt h.bins_lt)
    rw [hwalk]
    exact mem_map.mpr ⟨x, hx, rfl⟩

/-- In every run: the queued events are those in the bins; the walk along `nextBin` visits bins that
    are strictly later, the walk along `nextInBin` events that are equal; what is serviced is the
    least, and of the equal ones the last inserted; and every allowed call has a result.  That what
    is removed is just the given event is what `step` records. -/
theorem queue_is_lifo_priority_queue {nextBin nextInBin : E → Option E} {when : E → Nat}
    {priority : E → Int} {ops : List (Op E)}
    (hok : Trace.Obeys Allowed step (init nextBin nextInBin when priority) ops) :
    ∃ r, Trace.runs step (init nextBin nextInBin when priority) ops = some r ∧
      (∃ bins : List (E × List E), Seg r.queue.nextBin r.queue.head (bins.map Prod.fst) none ∧
        (∀ b ∈ bins, Seg r.queue.nextInBin (some b.1) (b.1 :: b.2) none) ∧
        (bins.Pairwise fun b c => r.queue.lt b.1 c.1) ∧
        (∀ b ∈ bins, ∀ e ∈ b.1 :: b.2, r.queue.eq e b.1) ∧
        (bins.flatMap fun b => b.1 :: b.2).Perm r.queued) ∧
      (r.queued ≠ [] → ∃ q' event, r.queue.serviceOne = some (q', event) ∧ event ∈ r.queued ∧
        ∀ e ∈ r.queued, e ≠ event → r.queue.lt event e ∨
          r.queue.eq event e ∧ r.insertedAt e < r.insertedAt event) ∧
      ∀ op, r.Allowed op → ∃ r', r.step op = some r' := by
  obtain ⟨r, hrun, bins, h⟩ := hok.runs (fun r => ∃ bins, Inv r bins) (fun s op hs ho => by
    obtain ⟨bins, hi⟩ := hs
    obtain ⟨s', bins', hs', hi'⟩ := inv_step op hi ho
    exact ⟨s', hs', bins', hi'⟩) ⟨[], inv_init nextBin nextInBin when priority⟩
  refine ⟨r, hrun, ⟨bins, h.rep.tops, fun b hb => ⟨rfl, h.rep.bins b hb⟩, ?_, fun b hb e he => ?_,
    (perm_ext_iff_of_nodup h.nodup h.once).mpr h.queued⟩, fun hne => ?_, fun op ho => ?_⟩
  · exact h.sorted.imp fun hlt => EventQueue.lt_iff.mpr hlt
  · rw [EventQueue.eq_iff]
    rcases mem_cons.mp he with rfl | he
    · rfl
    · exact h.same b hb e he
  · obtain ⟨q', event, bins', hservice, hmem, hleast, -⟩ := h.serviceOne hne
    exact ⟨q', event, hservice, hmem, hleast⟩
  · obtain ⟨r', -, hs, -⟩ := inv_step op h ho
    exact ⟨r', hs⟩

/-- Three events, two of the same time and priority, with stale pointers throughout. -/
def twoTied : List (Op Nat) :=
  [.setWhen 0 5, .setWhen 1 5, .setWhen 2 3, .insert 0, .insert 2, .insert 1, .stale 0 (some 0),
    .remove 2, .serviceOne]

/-- Of the tied ones the last inserted is taken. -/
theorem queue_is_lifo_priority_queue_tied :
    ∃ r, Trace.runs step (init (fun _ => some 7) (fun _ => some 7) (fun _ => 0) fun _ => 0)
        twoTied = some r ∧ r.queued = [0] ∧
      ∃ bins : List (Nat × List Nat),
        Seg r.queue.nextBin r.queue.head (bins.map Prod.fst) none := by
  have hok : Trace.Obeys Allowed step
      (init (fun _ => some 7) (fun _ => some 7) (fun _ => 0) fun _ => 0) twoTied := by
    decide
  have hqueued : (Trace.runs step
      (init (fun _ => some 7) (fun _ => some 7) (fun _ => 0) fun _ => 0) twoTied).map
      (fun r => r.queued) = some [0] := by
    decide
  obtain ⟨r, hrun, ⟨bins, hwalk, -⟩, -⟩ := queue_is_lifo_priority_queue hok
  rw [hrun] at hqueued
  exact ⟨r, hrun, Option.some.inj hqueued, bins, hwalk⟩

end Run

end Gem5Dvr.EventQ
