/-
  The event queue (`sim/eventq.cc` 90-236).

    1. The functions of the source.  An event is its address; the loops get fuel, and a panic, a
       null pointer or no fuel leaves no result.
    2. `RepSeg`: a stretch of bins, each with its top and the events below it.  Nothing is said of
       `nextBin` below the top: it is stale.
    3. Every operation is a change of the bins at one place: what is before it is linked anew at its
       last top (`RepSeg.link`), what is after it stays.
    4. `Run`: the calls, with what is queued and the order of the insertions.
-/
import Mathlib.Data.Prod.Lex
import Gem5Dvr.Lib.LinkedList
import Gem5Dvr.Lib.Trace

namespace Gem5Dvr.EventQ

open List Function

open LinkedList (Seg)

/-! ## The functions of the source -/

structure EventQueue (E : Type) where
  head : Option E
  nextBin : E → Option E
  nextInBin : E → Option E
  when : E → Nat
  priority : E → Int

namespace EventQueue

variable {E : Type} (q : EventQueue E)

/-- `operator<`. -/
def lt (l r : E) : Prop := q.when l < q.when r ∨ q.when l = q.when r ∧ q.priority l < q.priority r

/-- `operator<=`. -/
def le (l r : E) : Prop := q.when l < q.when r ∨ q.when l = q.when r ∧ q.priority l ≤ q.priority r

/-- `operator==`. -/
def eq (l r : E) : Prop := q.when l = q.when r ∧ q.priority l = q.priority r

instance (l r : E) : Decidable (q.lt l r) := inferInstanceAs (Decidable (_ ∨ _))
instance (l r : E) : Decidable (q.le l r) := inferInstanceAs (Decidable (_ ∨ _))
instance (l r : E) : Decidable (q.eq l r) := inferInstanceAs (Decidable (_ ∧ _))

section

variable [DecidableEq E]

def setNextBin (e : E) (a : Option E) : EventQueue E := { q with nextBin := update q.nextBin e a }

def setNextInBin (e : E) (a : Option E) : EventQueue E :=
  { q with nextInBin := update q.nextInBin e a }

/-- `Event::insertBefore`, which answers the event. -/
def insertBefore (event : E) : Option E → EventQueue E
  | none => (q.setNextBin event none).setNextInBin event none
  | some curr =>
    if q.lt event curr then (q.setNextBin event (some curr)).setNextInBin event none
    else (q.setNextBin event (q.nextBin curr)).setNextInBin event (some curr)

/-- The loop of `insert` and of `remove`: `prev` and `curr` at its end. -/
def findBin (event : E) : Nat → E → Option E → Option (E × Option E)
  | 0, _, _ => none
  | _ + 1, prev, none => some (prev, none)
  | fuel + 1, prev, some curr =>
    if q.lt curr event then findBin event fuel curr (q.nextBin curr) else some (prev, some curr)

def insert (fuel : Nat) (event : E) : Option (EventQueue E) :=
  match q.head with
  | none => some { q.insertBefore event none with head := some event }
  | some head =>
    if q.le event head then some { q.insertBefore event (some head) with head := some event }
    else
      (q.findBin event fuel head (q.nextBin head)).map fun x =>
        (q.insertBefore event x.2).setNextBin x.1 (some event)

/-- The loop of `Event::removeItem`: `curr` at its end. -/
def findItem (event : E) : Nat → E → Option E → Option E
  | 0, _, _ => none
  | _ + 1, _, none => none
  | fuel + 1, curr, some next =>
    if event = next then some curr else findItem event fuel next (q.nextInBin next)

/-- `Event::removeItem`: the queue, and the new top or the next bin. -/
def removeItem (fuel : Nat) (event top : E) : Option (EventQueue E × Option E) :=
  if event = top then
    match q.nextInBin top with
    | none => some (q, q.nextBin top)
    | some next => some (q.setNextBin next (q.nextBin top), some next)
  else
    (q.findItem event fuel top (q.nextInBin top)).map fun curr =>
      (q.setNextInBin curr (q.nextInBin event), some top)

def remove (fuel : Nat) (event : E) : Option (EventQueue E) := q.head.bind fun head =>
    if q.eq head event then
      (q.removeItem fuel event head).map fun x => { x.1 with head := x.2 }
    else
      (q.findBin event fuel head (q.nextBin head)).bind fun x => x.2.bind fun curr =>
        if q.eq curr event then
          (q.removeItem fuel event curr).map fun y => y.1.setNextBin x.1 y.2
        else none

/-- `EventQueue::serviceOne`: the queue, and the event that is taken. -/
def serviceOne : Option (EventQueue E × E) := q.head.map fun event =>
    match q.nextInBin event with
    | some next => ({ q.setNextBin next (q.nextBin event) with head := some next }, event)
    | none => ({ q with head := q.nextBin event }, event)

end

/-! ## The order -/

/-- Events by their time, then by their priority. -/
def key (e : E) : Nat ×ₗ Int := toLex (q.when e, q.priority e)

variable {q}

theorem lt_iff {l r : E} : q.lt l r ↔ q.key l < q.key r := by
  rw [key, key, Prod.Lex.toLex_lt_toLex]
  rfl

theorem le_iff {l r : E} : q.le l r ↔ q.key l ≤ q.key r := by
  rw [key, key, Prod.Lex.toLex_le_toLex]
  rfl

theorem eq_iff {l r : E} : q.eq l r ↔ q.key l = q.key r := by
  rw [key, key, toLex_inj, Prod.mk.injEq]
  rfl

/-! ## Bins -/

/-- The events of bins, each a top and what is below it. -/
def events (bins : List (E × List E)) : List E := bins.flatMap fun b => b.1 :: b.2

theorem mem_events {bins : List (E × List E)} {e : E} :
    e ∈ events bins ↔ ∃ b ∈ bins, e ∈ b.1 :: b.2 := mem_flatMap

theorem events_append (bs cs : List (E × List E)) : events (bs ++ cs) = events bs ++ events cs :=
  flatMap_append

/-- A stretch of bins, from `a` to `b`. -/
structure RepSeg (q : EventQueue E) (a : Option E) (bins : List (E × List E)) (b : Option E) :
    Prop where
  tops : Seg q.nextBin a (bins.map Prod.fst) b
  bins : ∀ x ∈ bins, Seg q.nextInBin (q.nextInBin x.1) x.2 none

variable {q' : EventQueue E} {a b c : Option E} {bs cs : List (E × List E)} {x : E × List E}

theorem repSeg_append : RepSeg q a (bs ++ cs) b ↔ ∃ c, RepSeg q a bs c ∧ RepSeg q c cs b := by
  constructor
  · rintro ⟨htops, hbins⟩
    rw [map_append] at htops
    obtain ⟨c, hb, hc⟩ := LinkedList.seg_append.mp htops
    exact ⟨c, ⟨hb, fun x hx => hbins x (mem_append_left cs hx)⟩,
      hc, fun x hx => hbins x (mem_append_right bs hx)⟩
  · rintro ⟨c, hb, hc⟩
    refine ⟨?_, fun x hx => ?_⟩
    · rw [map_append]
      exact hb.tops.trans hc.tops
    · rcases mem_append.mp hx with hx | hx
      · exact hb.bins x hx
      · exact hc.bins x hx

/-- The links that matter are those of the tops, and those in the bins. -/
theorem RepSeg.congr (h : RepSeg q a bs b) (htops : ∀ x ∈ bs, q'.nextBin x.1 = q.nextBin x.1)
    (hall : ∀ e ∈ events bs, q'.nextInBin e = q.nextInBin e) : RepSeg q' a bs b := by
  refine ⟨h.tops.congr fun t ht => ?_, fun x hx => ?_⟩
  · obtain ⟨x, hx, rfl⟩ := mem_map.mp ht
    exact htops x hx
  · have hin : ∀ e ∈ x.1 :: x.2, q'.nextInBin e = q.nextInBin e := fun e he =>
      hall e (mem_events.mpr ⟨x, hx, he⟩)
    rw [hin x.1 mem_cons_self]
    exact (h.bins x hx).congr fun e he => hin e (mem_cons_of_mem x.1 he)

/-- Where a stretch to the end begins. -/
theorem RepSeg.start (h : RepSeg q a bs none) : a = bs.head?.map Prod.fst := by
  cases bs with
  | nil => exact h.tops
  | cons x bs => exact h.tops.1

/-- The queues differ in the links of some events. -/
structure Frame (q q' : EventQueue E) (l : List E) : Prop where
  head : q'.head = q.head
  when : q'.when = q.when
  priority : q'.priority = q.priority
  nextBin : ∀ e, e ∉ l → q'.nextBin e = q.nextBin e
  nextInBin : ∀ e, e ∉ l → q'.nextInBin e = q.nextInBin e

theorem RepSeg.frame {l : List E} (h : RepSeg q a bs b) (hf : Frame q q' l)
    (hoff : ∀ e ∈ events bs, e ∉ l) : RepSeg q' a bs b := by
  refine h.congr (fun x hx => hf.nextBin x.1 (hoff x.1 ?_)) fun e he => hf.nextInBin e (hoff e he)
  exact mem_events.mpr ⟨x, hx, mem_cons_self⟩

section

variable [DecidableEq E]

/-- The last top is linked anew. -/
theorem RepSeg.link (h : RepSeg q a (bs ++ [x]) b) (hx : x.1 ∉ events bs) :
    RepSeg (q.setNextBin x.1 c) a (bs ++ [x]) c := by
  refine ⟨?_, h.bins⟩
  have htops := h.tops
  rw [map_append] at htops ⊢
  refine LinkedList.Seg.relink htops fun hmem => hx ?_
  obtain ⟨y, hy, hxy⟩ := mem_map.mp hmem
  exact mem_events.mpr ⟨y, hy, by rw [hxy]; exact mem_cons_self⟩

/-- The last top is linked to other bins. -/
theorem RepSeg.join (h : RepSeg q a (bs ++ [x]) b) (h' : RepSeg q c cs none)
    (hx : x.1 ∉ events bs) (hoff : ∀ y ∈ cs, y.1 ≠ x.1) :
    RepSeg (q.setNextBin x.1 c) a (bs ++ [x] ++ cs) none := by
  refine repSeg_append.mpr ⟨c, h.link hx, h'.congr (fun y hy => ?_) fun _ _ => rfl⟩
  exact update_of_ne (hoff y hy) _ _

/-! ## What the functions do to bins -/

/-- An event before bins, or on the first of them. -/
def pushBin (q : EventQueue E) (event : E) : List (E × List E) → List (E × List E)
  | [] => [(event, [])]
  | (curr, rest) :: bs =>
    if q.lt event curr then (event, []) :: (curr, rest) :: bs else (event, curr :: rest) :: bs

omit [DecidableEq E] in
theorem events_pushBin (event : E) (bs : List (E × List E)) :
    events (q.pushBin event bs) = event :: events bs := by
  match bs with
  | [] => rfl
  | (curr, rest) :: bs =>
    rw [pushBin]
    split
    · rfl
    · rfl

theorem insertBefore_frame (event : E) (curr : Option E) :
    Frame q (q.insertBefore event curr) [event] := by
  cases curr with
  | none =>
    refine ⟨rfl, rfl, rfl, fun e he => ?_, fun e he => ?_⟩
    · exact update_of_ne (ne_of_not_mem_cons he) _ _
    · exact update_of_ne (ne_of_not_mem_cons he) _ _
  | some curr =>
    have hframe : ∀ v w, Frame q ((q.setNextBin event v).setNextInBin event w) [event] := by
      refine fun v w => ⟨rfl, rfl, rfl, fun e he => ?_, fun e he => ?_⟩
      · exact update_of_ne (ne_of_not_mem_cons he) _ _
      · exact update_of_ne (ne_of_not_mem_cons he) _ _
    by_cases hlt : q.lt event curr
    · have hq : q.insertBefore event (some curr) =
          (q.setNextBin event (some curr)).setNextInBin event none := if_pos hlt
      rw [hq]
      exact hframe _ _
    · have hq : q.insertBefore event (some curr) =
          (q.setNextBin event (q.nextBin curr)).setNextInBin event (some curr) := if_neg hlt
      rw [hq]
      exact hframe _ _

theorem insertBefore_spec {event : E} (h : RepSeg q a bs none) (he : event ∉ events bs) :
    RepSeg (q.insertBefore event a) (some event) (q.pushBin event bs) none := by
  have hkeep := h.frame (insertBefore_frame (q := q) event a) fun e hmem heq =>
    he (mem_singleton.mp heq ▸ hmem)
  obtain rfl := h.start
  have hold : ∀ e ∈ events bs, e ≠ event := by
    rintro e hmem rfl
    exact he hmem
  match bs with
  | [] =>
    refine ⟨⟨rfl, update_self ..⟩, fun x hx => ?_⟩
    obtain rfl := mem_singleton.mp hx
    exact update_self ..
  | (curr, rest) :: bs =>
    by_cases hlt : q.lt event curr
    · rw [pushBin, if_pos hlt]
      have hq : q.insertBefore event (some curr) =
          (q.setNextBin event (some curr)).setNextInBin event none := if_pos hlt
      refine ⟨⟨rfl, ?_⟩, fun x hx => ?_⟩
      · have hnext : (q.insertBefore event (some curr)).nextBin event = some curr := by
          rw [hq]
          exact update_self ..
        show Seg _ ((q.insertBefore event (some curr)).nextBin event) _ none
        rw [hnext]
        exact hkeep.tops
      · rcases mem_cons.mp hx with rfl | hx
        · show (q.insertBefore event (some curr)).nextInBin event = none
          rw [hq]
          exact update_self ..
        · exact hkeep.bins x hx
    · rw [pushBin, if_neg hlt]
      have hq : q.insertBefore event (some curr) =
          (q.setNextBin event (q.nextBin curr)).setNextInBin event (some curr) := if_neg hlt
      have hne : curr ≠ event := hold curr (mem_events.mpr ⟨_, mem_cons_self, mem_cons_self⟩)
      refine ⟨⟨rfl, ?_⟩, fun x hx => ?_⟩
      · have hnext : (q.insertBefore event (some curr)).nextBin event =
            (q.insertBefore event (some curr)).nextBin curr := by
          rw [hq]
          exact (update_self ..).trans (update_of_ne hne _ _).symm
        show Seg _ ((q.insertBefore event (some curr)).nextBin event) _ none
        rw [hnext]
        exact hkeep.tops.2
      · rcases mem_cons.mp hx with rfl | hx
        · have hnext : (q.insertBefore event (some curr)).nextInBin event = some curr := by
            rw [hq]
            exact update_self ..
          exact ⟨hnext, hkeep.bins (curr, rest) mem_cons_self⟩
        · exact hkeep.bins x (mem_cons_of_mem _ hx)

omit [DecidableEq E] in
/-- The loop over the bins, from one that is earlier than the event. -/
theorem findBin_spec {event : E} : ∀ {bs : List (E × List E)} {fuel : Nat} {first : E × List E},
    RepSeg q (q.nextBin first.1) bs none → bs.length < fuel → q.key first.1 < q.key event →
    ∃ pre last post, first :: bs = pre ++ last :: post ∧
      q.findBin event fuel first.1 (q.nextBin first.1) = some (last.1, post.head?.map Prod.fst) ∧
      (∀ b ∈ pre ++ [last], q.key b.1 < q.key event) ∧
      ∀ b ∈ post.head?, q.key event ≤ q.key b.1 := by
  intro bs
  induction bs with
  | nil =>
    intro fuel first h hfuel hlt
    have hnext : q.nextBin first.1 = none := h.start
    refine ⟨[], first, [], rfl, ?_, fun b hb => ?_, fun b hb => nomatch hb⟩
    · cases fuel with
      | zero => exact absurd hfuel (Nat.not_lt_zero _)
      | succ fuel =>
        rw [hnext]
        rfl
    · rw [mem_singleton.mp hb]
      exact hlt
  | cons x bs ih =>
    intro fuel first h hfuel hlt
    have hnext : q.nextBin first.1 = some x.1 := h.start
    cases fuel with
    | zero => exact absurd hfuel (Nat.not_lt_zero _)
    | succ fuel =>
      rw [hnext, findBin]
      by_cases hx : q.lt x.1 event
      · rw [if_pos hx]
        have hrest : RepSeg q (q.nextBin x.1) bs none :=
          ⟨h.tops.2, fun y hy => h.bins y (mem_cons_of_mem x hy)⟩
        obtain ⟨pre, last, post, hsplit, hfind, hpre, hpost⟩ :=
          ih hrest (Nat.lt_of_succ_lt_succ hfuel) (lt_iff.mp hx)
        refine ⟨first :: pre, last, post, by rw [hsplit]; rfl, hfind, fun b hb => ?_, hpost⟩
        rcases mem_cons.mp hb with rfl | hb
        · exact hlt
        · exact hpre b hb
      · rw [if_neg hx]
        refine ⟨[], first, x :: bs, rfl, rfl, fun b hb => ?_, fun b hb => ?_⟩
        · rw [mem_singleton.mp hb]
          exact hlt
        · obtain rfl := Option.some.inj hb
          exact not_lt.mp fun hlt => hx (lt_iff.mpr hlt)

/-- A bin and those after it, without an event of the bin. -/
def popItem (event : E) : E × List E → List (E × List E) → List (E × List E)
  | (top, rest), bs =>
    if event = top then
      match rest with
      | [] => bs
      | next :: rest => (next, rest) :: bs
    else (top, rest.filter (· ≠ event)) :: bs

theorem events_popItem {event top : E} {rest : List E}
    (hnd : (events ((top, rest) :: bs)).Nodup) (hmem : event ∈ top :: rest) :
    events (popItem event (top, rest) bs) =
      (events ((top, rest) :: bs)).filter fun e => e ≠ event := by
  have hsplit : events ((top, rest) :: bs) = (top :: rest) ++ events bs := rfl
  rw [hsplit] at hnd ⊢
  obtain ⟨hbin, -, hapart⟩ := nodup_append.mp hnd
  have hbs : (events bs).filter (fun e => e ≠ event) = events bs :=
    filter_eq_self.mpr fun e he => decide_eq_true fun heq => hapart event hmem e he heq.symm
  rw [filter_append, hbs]
  by_cases heq : event = top
  · rw [filter_cons_of_neg (by simp [heq])]
    have hrest : rest.filter (fun e => e ≠ event) = rest :=
      filter_eq_self.mpr fun e he => decide_eq_true fun hee =>
        (nodup_cons.mp hbin).1 (heq ▸ hee ▸ he)
    rw [hrest]
    cases rest with
    | nil =>
      have hpop : popItem event (top, []) bs = bs := if_pos heq
      rw [hpop]
      rfl
    | cons next rest =>
      have hpop : popItem event (top, next :: rest) bs = (next, rest) :: bs := if_pos heq
      rw [hpop]
      rfl
  · have hpop : popItem event (top, rest) bs = (top, rest.filter (· ≠ event)) :: bs := if_neg heq
    rw [hpop, filter_cons_of_pos (by simpa using fun h => heq h.symm)]
    rfl

/-- The loop over a bin. -/
theorem findItem_spec {event : E} : ∀ {rest : List E} {fuel : Nat} {top : E},
    Seg q.nextInBin (q.nextInBin top) rest none → rest.length < fuel → event ∈ rest →
    ∃ pre last post, top :: rest = pre ++ last :: event :: post ∧
      q.findItem event fuel top (q.nextInBin top) = some last := by
  intro rest
  induction rest with
  | nil => exact fun _ _ hmem => absurd hmem not_mem_nil
  | cons next rest ih =>
    intro fuel top h hfuel hmem
    cases fuel with
    | zero => exact absurd hfuel (Nat.not_lt_zero _)
    | succ fuel =>
      rw [h.1, findItem]
      by_cases heq : event = next
      · rw [if_pos heq]
        exact ⟨[], top, rest, by rw [heq]; rfl, rfl⟩
      · rw [if_neg heq]
        obtain ⟨pre, last, post, hsplit, hfind⟩ := ih h.2 (Nat.lt_of_succ_lt_succ hfuel)
          ((mem_cons.mp hmem).resolve_left heq)
        exact ⟨top :: pre, last, post, by rw [hsplit]; rfl, hfind⟩

theorem removeItem_spec {event top : E} {rest : List E} {fuel : Nat}
    (h : RepSeg q (some top) ((top, rest) :: bs) none) (hnd : (events ((top, rest) :: bs)).Nodup)
    (hmem : event ∈ top :: rest) (hfuel : rest.length < fuel) :
    ∃ q' a, q.removeItem fuel event top = some (q', a) ∧
      RepSeg q' a (popItem event (top, rest) bs) none ∧ Frame q q' (top :: rest) := by
  have hrest := h.bins (top, rest) mem_cons_self
  have hafter : RepSeg q (q.nextBin top) bs none :=
    ⟨h.tops.2, fun x hx => h.bins x (mem_cons_of_mem _ hx)⟩
  have hsplit : events ((top, rest) :: bs) = (top :: rest) ++ events bs := rfl
  rw [hsplit] at hnd
  obtain ⟨hbin, -, hapart⟩ := nodup_append.mp hnd
  have hoff : ∀ e ∈ events bs, e ∉ top :: rest := fun e he hin => hapart e hin e he rfl
  unfold removeItem
  by_cases heq : event = top
  · rw [if_pos heq]
    match rest with
    | [] =>
      have hnone : q.nextInBin top = none := hrest
      refine ⟨q, q.nextBin top, by rw [hnone], ?_, rfl, rfl, rfl, fun _ _ => rfl, fun _ _ => rfl⟩
      have hpop : popItem event (top, []) bs = bs := if_pos heq
      rw [hpop]
      exact hafter
    | next :: rest =>
      have hframe : Frame q (q.setNextBin next (q.nextBin top)) (top :: next :: rest) := by
        refine ⟨rfl, rfl, rfl, fun e he => ?_, fun _ _ => rfl⟩
        refine update_of_ne ?_ _ _
        rintro rfl
        exact he (mem_cons_of_mem top mem_cons_self)
      refine ⟨q.setNextBin next (q.nextBin top), some next, by rw [hrest.1], ?_, hframe⟩
      have hpop : popItem event (top, next :: rest) bs = (next, rest) :: bs := if_pos heq
      rw [hpop]
      have hkeep := hafter.frame hframe hoff
      refine ⟨⟨rfl, ?_⟩, fun x hx => ?_⟩
      · show Seg _ (update q.nextBin next (q.nextBin top) next) _ none
        rw [update_self]
        exact hkeep.tops
      · rcases mem_cons.mp hx with rfl | hx
        · exact hrest.2
        · exact hkeep.bins x hx
  · have hpop : popItem event (top, rest) bs = (top, rest.filter (· ≠ event)) :: bs := if_neg heq
    rw [if_neg heq, hpop]
    have hin := (mem_cons.mp hmem).resolve_left heq
    obtain ⟨pre, last, post, hlist, hfind⟩ := findItem_spec hrest hfuel hin
    rw [hfind]
    have hlast : last ∈ top :: rest := by
      rw [hlist]
      exact mem_append_right pre mem_cons_self
    have hframe : Frame q (q.setNextInBin last (q.nextInBin event)) (top :: rest) := by
      refine ⟨rfl, rfl, rfl, fun _ _ => rfl, fun e he => update_of_ne ?_ _ _⟩
      rintro rfl
      exact he hlast
    refine ⟨_, _, rfl, ?_, hframe⟩
    have hkeep := hafter.frame hframe hoff
    refine ⟨⟨rfl, hkeep.tops⟩, fun x hx => ?_⟩
    rcases mem_cons.mp hx with rfl | hx
    · -- the chain of the bin, cut at the event
      have hchain : Seg q.nextInBin (some top) (pre ++ last :: event :: post) none := by
        rw [← hlist]
        exact ⟨rfl, hrest⟩
      rw [hlist] at hbin
      obtain ⟨-, htail, hdisj⟩ := nodup_append.mp hbin
      obtain ⟨hlastnot, htail⟩ := nodup_cons.mp htail
      have hsame : (top :: rest.filter fun e => e ≠ event) = pre ++ [last] ++ post := by
        have hpre : pre.filter (fun e => e ≠ event) = pre :=
          filter_eq_self.mpr fun e he => decide_eq_true fun hee =>
            hdisj e he event (mem_cons_of_mem last mem_cons_self) hee
        have hpost : post.filter (fun e => e ≠ event) = post :=
          filter_eq_self.mpr fun e he => decide_eq_true fun hee =>
            (nodup_cons.mp htail).1 (hee ▸ he)
        have hne : last ≠ event := fun hee => hlastnot (hee ▸ mem_cons_self)
        have hleft : (top :: rest).filter (fun e => e ≠ event) =
            top :: rest.filter fun e => e ≠ event :=
          filter_cons_of_pos (decide_eq_true fun hee => heq hee.symm)
        have hright : (pre ++ last :: event :: post).filter (fun e => e ≠ event) =
            pre ++ last :: post := by
          rw [filter_append, hpre, filter_cons_of_pos (by simpa using hne),
            filter_cons_of_neg (by simp), hpost]
        rw [← hleft, append_assoc]
        exact (congrArg (List.filter fun e => e ≠ event) hlist).trans hright
      obtain ⟨c, hpre, rfl, hc, hpost⟩ := LinkedList.seg_append.mp hchain
      have hfirst : Seg q.nextInBin (some top) (pre ++ [last]) (some event) := hpre.trans ⟨rfl, hc⟩
      have hnot : last ∉ pre := fun hl => hdisj last hl last mem_cons_self rfl
      have hnew := (LinkedList.Seg.relink (c := q.nextInBin event) hfirst hnot).trans
        (hpost.update (v := q.nextInBin event) fun hl => hlastnot (mem_cons_of_mem event hl))
      rw [← hsame] at hnew
      exact hnew.2
    · exact hkeep.bins x hx

/-! ## The calls, on the bins of a queue -/

/-- What the bins are sorted by. -/
def Sorted (q : EventQueue E) (bins : List (E × List E)) : Prop :=
  bins.Pairwise fun b c => q.key b.1 < q.key c.1

/-- All events of a bin are equal. -/
def Same (q : EventQueue E) (bins : List (E × List E)) : Prop :=
  ∀ b ∈ bins, ∀ e ∈ b.2, q.key e = q.key b.1

theorem insert_spec {event : E} {fuel : Nat} (h : RepSeg q q.head bs none)
    (hnd : (events bs).Nodup) (hnew : event ∉ events bs) (hfuel : bs.length < fuel) :
    ∃ q' pre post, bs = pre ++ post ∧ q.insert fuel event = some q' ∧
      RepSeg q' q'.head (pre ++ q.pushBin event post) none ∧
      (∀ b ∈ pre, q.key b.1 < q.key event) ∧ (∀ b ∈ post.head?, q.key event ≤ q.key b.1) ∧
      q'.when = q.when ∧ q'.priority = q.priority := by
  unfold insert
  have hhead := h.start
  match bs with
  | [] =>
    have hframe := insertBefore_frame (q := q) event none
    rw [show q.head = none from hhead]
    refine ⟨_, [], [], rfl, rfl, ?_, fun b hb => absurd hb not_mem_nil,
      fun b hb => (nomatch hb), hframe.when, hframe.priority⟩
    have hempty : RepSeg q none [] none := ⟨rfl, h.bins⟩
    have hspec := insertBefore_spec hempty hnew
    exact ⟨hspec.tops, hspec.bins⟩
  | first :: bs =>
    have hhead : q.head = some first.1 := hhead
    rw [hhead] at h ⊢
    dsimp only
    by_cases hle : q.le event first.1
    · rw [if_pos hle]
      have hframe := insertBefore_frame (q := q) event (some first.1)
      have hspec := insertBefore_spec h hnew
      refine ⟨_, [], first :: bs, rfl, rfl, ⟨hspec.tops, hspec.bins⟩,
        fun b hb => absurd hb not_mem_nil, fun b hb => ?_, hframe.when, hframe.priority⟩
      obtain rfl := Option.some.inj hb
      exact le_iff.mp hle
    · rw [if_neg hle]
      have hlt : q.key first.1 < q.key event := not_le.mp fun hk => hle (le_iff.mpr hk)
      obtain ⟨pre, last, post, hsplit, hfind, hpre, hpost⟩ := findBin_spec
        ⟨h.tops.2, fun x hx => h.bins x (mem_cons_of_mem first hx)⟩
        (Nat.lt_of_succ_lt hfuel) hlt
      rw [hfind]
      rw [hsplit, show pre ++ last :: post = (pre ++ [last]) ++ post by simp] at h hnd hnew
      obtain ⟨c, hbefore, hafter⟩ := repSeg_append.mp h
      obtain rfl := hafter.start
      rw [events_append] at hnd hnew
      obtain ⟨hndpre, -, hapart⟩ := nodup_append.mp hnd
      have hframe := insertBefore_frame (q := q) event (post.head?.map Prod.fst)
      have hspec := insertBefore_spec hafter fun hm => hnew (mem_append_right _ hm)
      have hbefore := hbefore.frame hframe fun e he heq =>
        hnew (mem_append_left _ (mem_singleton.mp heq ▸ he))
      have hlast : last.1 ∈ events (pre ++ [last]) :=
        mem_events.mpr ⟨last, mem_append_right pre mem_cons_self, mem_cons_self⟩
      have hnot : last.1 ∉ events pre := by
        rw [events_append] at hndpre
        intro hm
        exact (nodup_append.mp hndpre).2.2 _ hm _
          (mem_events.mpr ⟨last, mem_cons_self, mem_cons_self⟩) rfl
      have hne : last.1 ≠ event := fun heq => hnew (mem_append_left _ (heq ▸ hlast))
      refine ⟨_, pre ++ [last], post, by rw [hsplit]; simp, rfl, ?_, hpre, hpost, hframe.when,
        hframe.priority⟩
      have hself : ∀ {x}, x ∈ q.pushBin event post → x.1 = event ∨ x.1 ∈ events post := by
        intro x hx
        have hm : x.1 ∈ events (q.pushBin event post) := mem_events.mpr ⟨x, hx, mem_cons_self⟩
        rw [events_pushBin] at hm
        exact mem_cons.mp hm
      have hjoin := hbefore.join hspec hnot fun y hy heq => by
        rcases hself hy with hy | hy
        · exact hne (heq.symm.trans hy)
        · exact hapart _ hlast _ hy heq.symm
      rw [show some first.1 = q.head from hhead.symm, ← hframe.head] at hjoin
      exact hjoin

omit [DecidableEq E] in
/-- The bin of a queued event. -/
theorem split_at {event : E} (hmem : event ∈ events bs) :
    ∃ pre top rest post, bs = pre ++ (top, rest) :: post ∧ event ∈ top :: rest := by
  obtain ⟨x, hx, hin⟩ := mem_events.mp hmem
  obtain ⟨pre, post, rfl⟩ := append_of_mem hx
  exact ⟨pre, x.1, x.2, post, rfl, hin⟩

omit [DecidableEq E] in
theorem length_events (bs : List (E × List E)) : bs.length ≤ (events bs).length := by
  induction bs with
  | nil => exact Nat.le_refl 0
  | cons x bs ih =>
    have hlen : (events (x :: bs)).length = (x.1 :: x.2).length + (events bs).length :=
      length_append
    rw [hlen, length_cons, length_cons]
    omega

omit [DecidableEq E] in
/-- There is one place where a property stops. -/
theorem split_unique {p : E × List E → Prop} : ∀ {bs cs bs' cs' : List (E × List E)},
    bs ++ cs = bs' ++ cs' → (∀ x ∈ bs, p x) → (∀ x ∈ cs.head?, ¬ p x) → (∀ x ∈ bs', p x) →
    (∀ x ∈ cs'.head?, ¬ p x) → bs = bs' ∧ cs = cs' := by
  intro bs
  induction bs with
  | nil =>
    intro cs bs' cs' heq _ hcs hbs' _
    cases bs' with
    | nil => exact ⟨rfl, heq⟩
    | cons y bs' =>
      rw [nil_append] at heq
      exact absurd (hbs' y mem_cons_self) (hcs y (by rw [heq]; rfl))
  | cons x bs ih =>
    intro cs bs' cs' heq hbs hcs hbs' hcs'
    cases bs' with
    | nil =>
      rw [nil_append] at heq
      exact absurd (hbs x mem_cons_self) (hcs' x (by rw [← heq]; rfl))
    | cons y bs' =>
      rw [cons_append, cons_append, List.cons.injEq] at heq
      obtain ⟨hxy, htail⟩ := heq
      subst hxy
      obtain ⟨rfl, rfl⟩ := ih htail (fun z hz => hbs z (mem_cons_of_mem _ hz)) hcs
        (fun z hz => hbs' z (mem_cons_of_mem _ hz)) hcs'
      exact ⟨rfl, rfl⟩

theorem remove_spec {event : E} {fuel : Nat} (h : RepSeg q q.head bs none)
    (hnd : (events bs).Nodup) (hsorted : Sorted q bs) (hsame : Same q bs)
    (hmem : event ∈ events bs) (hfuel : (events bs).length < fuel) :
    ∃ q' pre top rest post, bs = pre ++ (top, rest) :: post ∧ event ∈ top :: rest ∧
      q.remove fuel event = some q' ∧
      RepSeg q' q'.head (pre ++ popItem event (top, rest) post) none ∧
      q'.when = q.when ∧ q'.priority = q.priority := by
  obtain ⟨pre, top, rest, post, rfl, hin⟩ := split_at hmem
  obtain ⟨c, hbefore, hafter⟩ := repSeg_append.mp h
  have hkey : q.key event = q.key top := by
    rcases mem_cons.mp hin with rfl | hin
    · rfl
    · exact hsame (top, rest) (mem_append_right pre mem_cons_self) event hin
  obtain rfl : c = some top := hafter.start
  rw [events_append] at hnd hfuel
  obtain ⟨hndpre, hndpost, hapart⟩ := nodup_append.mp hnd
  have hlong : rest.length < fuel := by
    have hle : rest.length ≤ (events ((top, rest) :: post)).length := by
      have hlen : (events ((top, rest) :: post)).length =
          (top :: rest).length + (events post).length := length_append
      rw [hlen, length_cons]
      omega
    rw [length_append] at hfuel
    omega
  obtain ⟨q', a, hremove, hrep, hframe⟩ := removeItem_spec hafter hndpost hin hlong
  unfold remove
  match hpre : pre with
  | [] =>
    have hhead : q.head = some top := hbefore.tops
    rw [hhead, Option.bind_some, if_pos (eq_iff.mpr hkey.symm), hremove]
    exact ⟨_, [], top, rest, post, rfl, hin, rfl, ⟨hrep.tops, hrep.bins⟩, hframe.when,
      hframe.priority⟩
  | first :: more =>
    have hhead : q.head = some first.1 := hbefore.tops.1
    have hbelow : ∀ b ∈ first :: more, q.key b.1 < q.key event := by
      intro b hb
      rw [hkey]
      exact (pairwise_append.mp hsorted).2.2 b hb _ mem_cons_self
    have hlt := hbelow first mem_cons_self
    rw [hhead, Option.bind_some, if_neg fun heq => (ne_of_lt hlt) (eq_iff.mp heq)]
    have hbins : (more ++ (top, rest) :: post).length < fuel := by
      have hle := length_events (first :: more)
      have hle' := length_events ((top, rest) :: post)
      rw [length_append] at hfuel ⊢
      rw [length_cons] at hle
      omega
    have hmore : RepSeg q (q.nextBin first.1) (more ++ (top, rest) :: post) none :=
      ⟨h.tops.2, fun x hx => h.bins x (mem_cons_of_mem first hx)⟩
    obtain ⟨before, last, after, hsplit, hfind, hlow, hhigh⟩ := findBin_spec hmore hbins hlt
    -- the loop ends at the bin of the event
    obtain ⟨hpre', hafter'⟩ := split_unique (p := fun b => q.key b.1 < q.key event)
      (show (first :: more) ++ (top, rest) :: post = (before ++ [last]) ++ after by
        rw [append_assoc]
        exact hsplit) hbelow
      (fun x hx => by
        obtain rfl := Option.some.inj hx
        rw [hkey]
        exact lt_irrefl _) hlow (fun x hx => not_lt.mpr (hhigh x hx))
    subst hafter'
    rw [hfind, Option.bind_some]
    show ∃ q' pre top' rest' post', _ ∧ _ ∧ ((if q.eq top event then _ else none) = _) ∧ _
    rw [if_pos (eq_iff.mpr hkey.symm), hremove]
    rw [hpre'] at hbefore hndpre hapart
    have hlast : last.1 ∈ events (before ++ [last]) :=
      mem_events.mpr ⟨last, mem_append_right before mem_cons_self, mem_cons_self⟩
    have hnot : last.1 ∉ events before := by
      rw [events_append] at hndpre
      intro hm
      exact (nodup_append.mp hndpre).2.2 _ hm _
        (mem_events.mpr ⟨last, mem_cons_self, mem_cons_self⟩) rfl
    have hoff : ∀ y ∈ popItem event (top, rest) post, y.1 ≠ last.1 := by
      intro y hy heq
      have hm : y.1 ∈ events (popItem event (top, rest) post) :=
        mem_events.mpr ⟨y, hy, mem_cons_self⟩
      rw [events_popItem hndpost hin] at hm
      exact hapart _ hlast _ (mem_filter.mp hm).1 heq.symm
    have hbefore := hbefore.frame hframe fun e he heq => hapart e he e
      (mem_events.mpr ⟨_, mem_cons_self, heq⟩) rfl
    have hjoin := hbefore.join hrep hnot hoff
    rw [← hpre', ← hframe.head] at hjoin
    exact ⟨_, first :: more, top, rest, post, rfl, hin, rfl, hjoin, hframe.when, hframe.priority⟩

/-- Taking the first event is removing it from the first bin. -/
theorem serviceOne_eq {event : E} {fuel : Nat} (h : q.head = some event) :
    q.serviceOne = (q.removeItem fuel event event).map fun x =>
      ({ x.1 with head := x.2 }, event) := by
  rw [serviceOne, h, removeItem, if_pos rfl, Option.map_some]
  cases q.nextInBin event with
  | none => rfl
  | some next => rfl

theorem serviceOne_spec {event : E} {rest : List E}
    (h : RepSeg q q.head ((event, rest) :: bs) none) (hnd : (events ((event, rest) :: bs)).Nodup) :
    ∃ q', q.serviceOne = some (q', event) ∧
      RepSeg q' q'.head (popItem event (event, rest) bs) none ∧
      q'.when = q.when ∧ q'.priority = q.priority := by
  have hhead : q.head = some event := h.tops.1
  rw [hhead] at h
  obtain ⟨q', a, hremove, hrep, hframe⟩ := removeItem_spec h hnd mem_cons_self
    (Nat.lt_succ_self rest.length)
  refine ⟨{ q' with head := a }, ?_, ⟨hrep.tops, hrep.bins⟩, hframe.when, hframe.priority⟩
  rw [serviceOne_eq hhead, hremove]
  rfl

end

end EventQueue

end Gem5Dvr.EventQ
