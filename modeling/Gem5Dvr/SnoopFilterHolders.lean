/-
  A snoop filter forgets no holder (`mem/snoop_filter.cc` 55-391, `mem/coherent_xbar.cc` 150-685).

    1. `LineOk`: what is said of one line and of its entry.
    2. One lemma for each thing that happens to a line: a snoop, a request, an eviction, an answer.
    3. **The result (`System.holders_of_spared`)**: in a run in which no answer to an uncacheable
       request passes down without `hasSharers` over copies that stay, a port that holds a line is a
       holder or has a request in flight.

  The crux: the holders are cleared when an answer without `hasSharers` passes.  It is the answer to
  a request for a writable copy, `b`.  What holds the line then was asked for before `b` and has been
  invalidated since (`vanish`), for what was asked for after `b` waits for `b` (`later`).
-/
import Mathlib.Data.List.Basic
import Mathlib.Data.List.Nodup
import Gem5Dvr.SnoopFilterRun

namespace Gem5Dvr.Snoop

open List

/-! ## One line -/

structure LineOk (ports : List Nat) (item : SnoopItem) (l : Line) : Prop where
  snooping : ∀ p ∈ item.interested, p ∈ ports
  distinct : l.waiting.Nodup
  requested : ∀ p ∈ l.waiting, p ∈ item.requested
  tracked : ∀ p ∈ l.holds, p ∈ item.holder ∨
    ∃ x ∈ l.pending, x.port = some p ∧ (x.postInvalidate = true ∨ x.clean = false)
  vanish : l.pending.Pairwise fun x b =>
    b.writable = true → x.port ≠ none → x.postInvalidate = true
  later : ∀ p ∈ l.holds, l.pending.Pairwise fun b y => b.writable = true → y.port ≠ some p
  waits : ∀ b ∈ l.pending, b.writable = true → ∀ p ∈ l.holds, p ∈ l.waiting

namespace Line

variable {l : Line} {p : Nat} {targets deferred : List Nat}

theorem mem_waiting : p ∈ l.waiting ↔ ∃ x ∈ l.pending, x.port = some p := mem_filterMap

@[simp] theorem waiting_invalidate : (l.invalidate targets deferred).waiting = l.waiting := by
  rw [waiting, invalidate, filterMap_map]
  rfl

theorem mem_holds_invalidate :
    p ∈ (l.invalidate targets deferred).holds ↔ p ∈ l.holds ∧ (p ∉ targets ∨ p ∈ deferred) :=
  Finset.mem_filter

/-- A request whose port is snooped and defers it is to be invalidated. -/
theorem post_of_deferred {x : Request} (hx : x ∈ (l.invalidate targets deferred).pending)
    (hport : x.port = some p) (htarget : p ∈ targets) (hdeferred : p ∈ deferred) :
    x.postInvalidate = true := by
  obtain ⟨y, -, rfl⟩ := mem_map.mp hx
  have hy : y.port = some p := hport
  simp [Request.mark, hy, htarget, hdeferred]

end Line

namespace LineOk

variable {ports : List Nat} {item : SnoopItem} {l : Line} {p : Nat}

theorem mem_interested (h : LineOk ports item l) (hp : p ∈ l.holds) : p ∈ item.interested := by
  rcases h.tracked p hp with hholder | ⟨x, hx, hport, -⟩
  · exact Finset.mem_union_left _ hholder
  · exact Finset.mem_union_right _ (h.requested p (Line.mem_waiting.mpr ⟨x, hx, hport⟩))

theorem init (ports : List Nat) : LineOk ports {} {} where
  snooping := fun p hp => by simp [SnoopItem.interested] at hp
  distinct := nodup_nil
  requested := fun p hp => absurd hp not_mem_nil
  tracked := fun p hp => absurd hp (Finset.notMem_empty p)
  vanish := List.Pairwise.nil
  later := fun _ _ => List.Pairwise.nil
  waits := fun b hb => absurd hb not_mem_nil

/-- An invalidating snoop, whoever it reaches. -/
theorem invalidate (h : LineOk ports item l) (targets deferred : List Nat) :
    LineOk ports item (l.invalidate targets deferred) where
  snooping := h.snooping
  distinct := by
    rw [Line.waiting_invalidate]
    exact h.distinct
  requested := by
    rw [Line.waiting_invalidate]
    exact h.requested
  tracked := fun p hp => by
    rcases h.tracked p (Line.mem_holds_invalidate.mp hp).1 with hholder | ⟨x, hx, hport, hsoon⟩
    · exact .inl hholder
    · refine .inr ⟨_, mem_map_of_mem hx, hport, hsoon.imp_left fun hpost => ?_⟩
      simp [Request.mark, hpost]
  vanish := pairwise_map.mpr <| h.vanish.imp fun hold hwritable hport => by
    simp [Request.mark, hold hwritable hport]
  later := fun p hp =>
    pairwise_map.mpr (h.later p (Line.mem_holds_invalidate.mp hp).1)
  waits := fun b hb hwritable p hp => by
    obtain ⟨x, hx, rfl⟩ := mem_map.mp hb
    rw [Line.waiting_invalidate]
    exact h.waits x hx hwritable p (Line.mem_holds_invalidate.mp hp).1

/-- A request is accepted; one for a writable copy has invalidated the others. -/
theorem accept (h : LineOk ports item l) {x : Request} (hport : x.port = some p) (hp : p ∈ ports)
    (hnew : p ∉ item.requested)
    (hwritable : x.writable = true → (∀ y ∈ l.pending, y.port ≠ none → y.postInvalidate = true) ∧
      ∀ q ∈ l.holds, q = p ∨ q ∈ l.waiting) :
    LineOk ports { item with requested := item.requested ∪ {p} } (l.accept x) := by
  have hfresh : p ∉ l.waiting := fun hmem => hnew (h.requested p hmem)
  have hwaiting : (l.accept x).waiting = l.waiting ++ [p] := by
    rw [Line.waiting, Line.accept, filterMap_append, filterMap_cons_some hport]
    rfl
  constructor
  · intro q hq
    rcases Finset.mem_union.mp hq with hholder | hreq
    · exact h.snooping q (Finset.mem_union_left _ hholder)
    · rcases Finset.mem_union.mp hreq with hold | hmine
      · exact h.snooping q (Finset.mem_union_right _ hold)
      · rw [Finset.mem_singleton.mp hmine]
        exact hp
  · rw [hwaiting, nodup_append]
    refine ⟨h.distinct, nodup_singleton p, fun q hq q' hq' heq => hfresh ?_⟩
    rw [← mem_singleton.mp hq', ← heq]
    exact hq
  · intro q hq
    rw [hwaiting] at hq
    rcases mem_append.mp hq with hold | hmine
    · exact Finset.mem_union_left _ (h.requested q hold)
    · rw [mem_singleton.mp hmine]
      exact Finset.mem_union_right _ (Finset.mem_singleton_self p)
  · intro q hq
    refine (h.tracked q hq).imp_right ?_
    rintro ⟨y, hy, hyq, hsoon⟩
    exact ⟨y, mem_append_left _ hy, hyq, hsoon⟩
  · refine pairwise_append.mpr ⟨h.vanish, pairwise_singleton _ x, fun y hy b hb => ?_⟩
    rw [mem_singleton.mp hb]
    exact fun hw => (hwritable hw).1 y hy
  · intro q hq
    refine pairwise_append.mpr ⟨h.later q hq, pairwise_singleton _ x, fun b hb y hy hw heq => ?_⟩
    rw [mem_singleton.mp hy, hport] at heq
    cases heq
    exact hfresh (h.waits b hb hw p hq)
  · intro b hb hw q hq
    rw [hwaiting]
    rcases mem_append.mp hb with hold | hmine
    · exact mem_append_left _ (h.waits b hold hw q hq)
    · rw [mem_singleton.mp hmine] at hw
      rcases (hwritable hw).2 q hq with rfl | hmem
      · exact mem_append_right _ (mem_singleton_self q)
      · exact mem_append_left _ hmem

/-- A port evicts the line. -/
theorem evict (h : LineOk ports item l) (p : Nat) :
    LineOk ports { item with holder := item.holder \ {p} } (l.evict p) where
  snooping := fun q hq => by
    rcases Finset.mem_union.mp hq with hholder | hreq
    · exact h.snooping q (Finset.mem_union_left _ (Finset.mem_sdiff.mp hholder).1)
    · exact h.snooping q (Finset.mem_union_right _ hreq)
  distinct := h.distinct
  requested := h.requested
  tracked := fun q hq => by
    obtain ⟨hne, hold⟩ := Finset.mem_erase.mp hq
    refine (h.tracked q hold).imp_left fun hholder => ?_
    exact Finset.mem_sdiff.mpr ⟨hholder, fun hmem => hne (Finset.mem_singleton.mp hmem)⟩
  vanish := h.vanish
  later := fun q hq => h.later q (Finset.mem_of_mem_erase hq)
  waits := fun b hb hw q hq => h.waits b hb hw q (Finset.mem_of_mem_erase hq)

/-- The holders are cleared when the copies vanish. -/
theorem clear (h : LineOk ports item l) (hvanishing : System.Vanishing l) :
    LineOk ports { item with holder := ∅ } l where
  snooping := fun q hq => by
    rcases Finset.mem_union.mp hq with hnone | hreq
    · exact absurd hnone (Finset.notMem_empty q)
    · exact h.snooping q (Finset.mem_union_right _ hreq)
  distinct := h.distinct
  requested := h.requested
  tracked := fun q hq => .inr (hvanishing q hq)
  vanish := h.vanish
  later := h.later
  waits := h.waits

/-- A request from below, whose snoop has reached the others. -/
theorem insert (h : LineOk ports item l) (pos : Nat) {x : Request} (hport : x.port = none)
    (hwritable : x.writable = true →
      (∀ y ∈ l.pending.take pos, y.port ≠ none → y.postInvalidate = true) ∧
        ∀ p ∈ l.holds, p ∈ (l.pending.take pos).filterMap Request.port) :
    LineOk ports item (l.insert pos x) := by
  have hsplit : l.pending = l.pending.take pos ++ l.pending.drop pos :=
    (take_append_drop pos l.pending).symm
  have hwaiting : (l.insert pos x).waiting = l.waiting := by
    show (l.pending.take pos ++ x :: l.pending.drop pos).filterMap Request.port =
      l.pending.filterMap Request.port
    rw [filterMap_append, filterMap_cons_none hport, ← filterMap_append, ← hsplit]
  have hmem : ∀ y ∈ l.pending, y ∈ (l.insert pos x).pending := by
    intro y hy
    rw [hsplit] at hy
    rcases mem_append.mp hy with hbefore | hafter
    · exact mem_append_left _ hbefore
    · exact mem_append_right _ (mem_cons_of_mem x hafter)
  constructor
  · exact h.snooping
  · rw [hwaiting]
    exact h.distinct
  · rw [hwaiting]
    exact h.requested
  · intro p hp
    refine (h.tracked p hp).imp_right ?_
    rintro ⟨y, hy, hyp, hsoon⟩
    exact ⟨y, hmem y hy, hyp, hsoon⟩
  · have hold := h.vanish
    rw [hsplit] at hold
    obtain ⟨hbefore, hafter, hcross⟩ := pairwise_append.mp hold
    refine pairwise_append.mpr ⟨hbefore, pairwise_cons.mpr
      ⟨fun b _ _ hne => absurd hport hne, hafter⟩, fun y hy b hb hw hne => ?_⟩
    rcases mem_cons.mp hb with rfl | hb
    · exact (hwritable hw).1 y hy hne
    · exact hcross y hy b hb hw hne
  · intro p hp
    have hold := h.later p hp
    rw [hsplit] at hold
    obtain ⟨hbefore, hafter, hcross⟩ := pairwise_append.mp hold
    refine pairwise_append.mpr ⟨hbefore, pairwise_cons.mpr
      ⟨fun y hy hw heq => ?_, hafter⟩, fun b hb y hy hw => ?_⟩
    · have hdistinct := h.distinct
      rw [Line.waiting, hsplit, filterMap_append, nodup_append] at hdistinct
      exact hdistinct.2.2 p ((hwritable hw).2 p hp) p (mem_filterMap.mpr ⟨y, hy, heq⟩) rfl
    · rcases mem_cons.mp hy with rfl | hy
      · rw [hport]
        exact fun heq => Option.some_ne_none p heq.symm
      · exact hcross b hb y hy hw
  · intro b hb hw p hp
    rw [hwaiting]
    rcases mem_append.mp hb with hbefore | hafter
    · exact h.waits b (mem_of_mem_take hbefore) hw p hp
    · rcases mem_cons.mp hafter with rfl | hafter
      · obtain ⟨y, hy, hyp⟩ := mem_filterMap.mp ((hwritable hw).2 p hp)
        exact Line.mem_waiting.mpr ⟨y, mem_of_mem_take hy, hyp⟩
      · exact h.waits b (mem_of_mem_drop hafter) hw p hp

/-! ### Answers -/

section

variable {x : Request} {us vs : List Request}

theorem mem_split_of_ne {y : Request} (hsplit : l.pending = us ++ x :: vs) (hy : y ∈ l.pending)
    (hne : y ≠ x) : y ∈ us ++ vs := by
  rw [hsplit] at hy
  rcases mem_append.mp hy with hbefore | hafter
  · exact mem_append_left _ hbefore
  · rcases mem_cons.mp hafter with rfl | hafter
    · exact absurd rfl hne
    · exact mem_append_right _ hafter

/-- A port has one request for the line. -/
theorem port_ne (h : LineOk ports item l) (hsplit : l.pending = us ++ x :: vs)
    (hport : x.port = some p) {y : Request} (hy : y ∈ us ++ vs) : y.port ≠ some p := by
  have hdistinct := h.distinct
  rw [Line.waiting, hsplit, filterMap_append, filterMap_cons_some hport,
    nodup_middle, nodup_cons, ← filterMap_append] at hdistinct
  exact fun heq => hdistinct.1 (mem_filterMap.mpr ⟨y, hy, heq⟩)

/-- What holds the line while a request for a writable copy waits was asked for before, and will be
    invalidated. -/
theorem others_vanish (h : LineOk ports item l) (hsplit : l.pending = us ++ x :: vs)
    (hwritable : x.writable = true) (hp : p ∈ l.holds) (hne : x.port ≠ some p) :
    ∃ y ∈ us ++ vs, y.port = some p ∧ y.postInvalidate = true := by
  have hx : x ∈ l.pending := by
    rw [hsplit]
    exact mem_append_right _ mem_cons_self
  obtain ⟨y, hy, hyp⟩ := Line.mem_waiting.mp (h.waits x hx hwritable p hp)
  rw [hsplit] at hy
  rcases mem_append.mp hy with hbefore | hafter
  · have hvanish := h.vanish
    rw [hsplit] at hvanish
    have hpost := (pairwise_append.mp hvanish).2.2 y hbefore x mem_cons_self hwritable
    refine ⟨y, mem_append_left _ hbefore, hyp, hpost ?_⟩
    rw [hyp]
    exact Option.some_ne_none p
  · rcases mem_cons.mp hafter with rfl | hafter
    · exact absurd hyp hne
    · have hlater := h.later p hp
      rw [hsplit] at hlater
      have hafterOk := (pairwise_append.mp hlater).2.1
      exact absurd hyp ((pairwise_cons.mp hafterOk).1 y hafter hwritable)

/-- No request for a writable copy came after one that is not to be invalidated. -/
theorem not_writable_after (h : LineOk ports item l) (hsplit : l.pending = us ++ x :: vs)
    (hport : x.port = some p) (hpost : x.postInvalidate ≠ true) :
    ∀ b ∈ vs, b.writable = false := by
  intro b hb
  have hvanish := h.vanish
  rw [hsplit] at hvanish
  have hafter := (pairwise_cons.mp (pairwise_append.mp hvanish).2.1).1 b hb
  rw [Bool.eq_false_iff]
  exact fun hw => hpost (hafter hw (by rw [hport]; exact Option.some_ne_none p))

/-- A request from below is answered. -/
theorem remove (h : LineOk ports item l) (hsplit : l.pending = us ++ x :: vs)
    (hport : x.port = none) : LineOk ports item { l with pending := us ++ vs } := by
  have hsub : (us ++ vs).Sublist l.pending := by
    rw [hsplit]
    exact (sublist_cons_self x vs).append_left us
  have hwaiting : ({ l with pending := us ++ vs } : Line).waiting = l.waiting := by
    show (us ++ vs).filterMap Request.port = l.pending.filterMap Request.port
    rw [hsplit, filterMap_append, filterMap_append, filterMap_cons_none hport]
  constructor
  · exact h.snooping
  · rw [hwaiting]
    exact h.distinct
  · rw [hwaiting]
    exact h.requested
  · intro p hp
    refine (h.tracked p hp).imp_right ?_
    rintro ⟨y, hy, hyp, hsoon⟩
    refine ⟨y, mem_split_of_ne hsplit hy fun heq => ?_, hyp, hsoon⟩
    rw [heq, hport] at hyp
    cases hyp
  · exact h.vanish.sublist hsub
  · exact fun p hp => (h.later p hp).sublist hsub
  · intro b hb hw p hp
    rw [hwaiting]
    exact h.waits b (hsub.subset hb) hw p hp

/-- A port's request is answered; `hkept` and `hothers` say who is a holder then. -/
theorem answer (h : LineOk ports item l) (hsplit : l.pending = us ++ x :: vs)
    (hport : x.port = some p) {holds holder : Finset Nat} (hports : ∀ q ∈ holder, q ∈ ports)
    (hheld : ∀ q ∈ holds, q ≠ p → q ∈ l.holds)
    (hkept : p ∈ holds → p ∈ holder ∧ ∀ b ∈ us ++ vs, b.writable = false)
    (hothers : ∀ q ∈ l.holds, q ≠ p → q ∈ holder ∨ ∃ y ∈ us ++ vs, y.port = some q ∧
      (y.postInvalidate = true ∨ y.clean = false)) :
    LineOk ports { holder := holder, requested := item.requested \ {p} }
      { holds := holds, pending := us ++ vs } := by
  have hsub : (us ++ vs).Sublist l.pending := by
    rw [hsplit]
    exact (sublist_cons_self x vs).append_left us
  have hwaiting : ∀ q, q ≠ p → q ∈ l.waiting → ∃ y ∈ us ++ vs, y.port = some q := by
    intro q hne hq
    obtain ⟨y, hy, hyq⟩ := Line.mem_waiting.mp hq
    refine ⟨y, mem_split_of_ne hsplit hy fun heq => hne ?_, hyq⟩
    rw [heq, hport] at hyq
    exact (Option.some.inj hyq).symm
  constructor
  · intro q hq
    rcases Finset.mem_union.mp hq with hholder | hreq
    · exact hports q hholder
    · exact h.snooping q (Finset.mem_union_right _ (Finset.mem_sdiff.mp hreq).1)
  · exact h.distinct.sublist (hsub.filterMap Request.port)
  · intro q hq
    obtain ⟨y, hy, hyq⟩ := Line.mem_waiting.mp hq
    refine Finset.mem_sdiff.mpr ⟨h.requested q (Line.mem_waiting.mpr ⟨y, hsub.subset hy, hyq⟩), ?_⟩
    intro hmem
    rw [Finset.mem_singleton.mp hmem] at hyq
    exact h.port_ne hsplit hport hy hyq
  · intro q hq
    by_cases heq : q = p
    · rw [heq] at hq ⊢
      exact .inl (hkept hq).1
    · exact hothers q (hheld q hq heq) heq
  · exact h.vanish.sublist hsub
  · intro q hq
    by_cases heq : q = p
    · rw [heq] at hq
      refine pairwise_of_forall_mem_list fun b hb y _ hw => ?_
      rw [(hkept hq).2 b hb] at hw
      cases hw
    · exact (h.later q (hheld q hq heq)).sublist hsub
  · intro b hb hw q hq
    by_cases heq : q = p
    · rw [heq] at hq
      rw [(hkept hq).2 b hb] at hw
      cases hw
    · exact Line.mem_waiting.mpr (hwaiting q heq (h.waits b (hsub.subset hb) hw q (hheld q hq heq)))

/-- The answer to a port does not change what is known of the others. -/
theorem tracked_of_ne (h : LineOk ports item l) (hsplit : l.pending = us ++ x :: vs)
    (hport : x.port = some p) {q : Nat} (hq : q ∈ l.holds) (hne : q ≠ p) :
    q ∈ item.holder ∨ ∃ y ∈ us ++ vs, y.port = some q ∧
      (y.postInvalidate = true ∨ y.clean = false) := by
  refine (h.tracked q hq).imp_right ?_
  rintro ⟨y, hy, hyq, hsoon⟩
  refine ⟨y, mem_split_of_ne hsplit hy fun heq => hne ?_, hyq, hsoon⟩
  rw [heq, hport] at hyq
  exact (Option.some.inj hyq).symm

/-- The port that is answered gets a line that it keeps: no request for a writable copy waits. -/
theorem quiet (h : LineOk ports item l) (hsplit : l.pending = us ++ x :: vs)
    (hport : x.port = some p) (hready : x.clean = false → ∀ b ∈ us, b.writable = false)
    (hpost : x.postInvalidate ≠ true) (hheld : x.clean = true → p ∈ l.holds) :
    ∀ b ∈ us ++ vs, b.writable = false := by
  intro b hb
  rcases mem_append.mp hb with hbefore | hafter
  · by_cases hclean : x.clean = true
    · have hlater := h.later p (hheld hclean)
      rw [hsplit] at hlater
      have hcross := (pairwise_append.mp hlater).2.2 b hbefore x mem_cons_self
      rw [Bool.eq_false_iff]
      exact fun hw => hcross hw hport
    · exact hready (Bool.eq_false_of_not_eq_true hclean) b hbefore
  · exact h.not_writable_after hsplit hport hpost b hafter

end

end LineOk

namespace Line

variable {l : Line} {x : Request} {i p : Nat} {invalidate : Bool}

theorem split_at (hget : l.pending[i]? = some x) :
    l.pending = l.pending.take i ++ x :: l.pending.drop (i + 1) := by
  obtain ⟨hlt, hx⟩ := List.getElem?_eq_some_iff.mp hget
  rw [← hx, ← drop_eq_getElem_cons hlt, take_append_drop]

theorem respond_eq (hget : l.pending[i]? = some x) :
    l.respond i invalidate = { holds := l.holdsAfter x invalidate,
                               pending := l.pending.take i ++ l.pending.drop (i + 1) } := by
  rw [respond, hget, eraseIdx_eq_take_drop_succ]

theorem port_of_find (hget : l.pending[l.find p]? = some x) : x.port = some p := by
  obtain ⟨hlt, hx⟩ := List.getElem?_eq_some_iff.mp hget
  have hfound := findIdx_getElem (w := hlt)
  rw [← hx]
  exact of_decide_eq_true hfound

theorem mem_waiting_of_find (hget : l.pending[l.find p]? = some x) : p ∈ l.waiting :=
  mem_waiting.mpr ⟨x, mem_of_getElem? hget, port_of_find hget⟩

/-- Another port holds the line after an answer only if it held it. -/
theorem mem_holdsAfter_of_ne (hport : x.port = some p) {q : Nat} (hq : q ∈ l.holdsAfter x invalidate)
    (hne : q ≠ p) : q ∈ l.holds := by
  rw [holdsAfter, hport] at hq
  dsimp only at hq
  split at hq
  · exact Finset.mem_of_mem_erase hq
  · split at hq
    · exact hq
    · exact (Finset.mem_insert.mp hq).resolve_left hne

/-- The port that is answered holds it if nothing takes it away. -/
theorem mine_holdsAfter (hport : x.port = some p) (hp : p ∈ l.holdsAfter x invalidate) :
    x.postInvalidate ≠ true ∧ (x.clean = true → invalidate ≠ true ∧ p ∈ l.holds) := by
  rw [holdsAfter, hport] at hp
  dsimp only at hp
  split at hp
  · exact absurd rfl (Finset.mem_erase.mp hp).1
  · rename_i hkeep
    refine ⟨fun hpost => hkeep (.inl hpost), fun hclean => ⟨fun hinv => hkeep (.inr ⟨hclean, hinv⟩), ?_⟩⟩
    rw [if_pos hclean] at hp
    exact hp

end Line

/-! ## The system -/

namespace System

variable {s s' : System} {pkt : Packet}

structure Inv (s : System) : Prop where
  noNull : s.filter.NoNull
  lines : ∀ line, LineOk s.filter.cpuSidePorts (s.filter.item line) (s.lines line)

theorem init_inv (cpuSidePorts : List Nat) (linesize : Nat) : Inv (init cpuSidePorts linesize) where
  noNull := fun _ _ hentry => nomatch hentry
  lines := fun _ => LineOk.init cpuSidePorts

/-- One line and its entry are written. -/
theorem Inv.put (h : Inv s) {f : SnoopFilter} {line : Nat} {item : SnoopItem} {l : Line}
    (htouched : SnoopFilter.Touched s.filter f line item)
    (hline : LineOk s.filter.cpuSidePorts item l) : Inv { s.put line l with filter := f } where
  noNull := htouched.noNull
  lines := fun line' => by
    show LineOk f.cpuSidePorts (f.item line') (Function.update s.lines line l line')
    rw [htouched.ports]
    by_cases heq : line' = line
    · rw [heq, Function.update_self, htouched.here]
      exact hline
    · rw [Function.update_of_ne heq, htouched.others line' heq]
      exact h.lines line'

theorem follows_iff {port : Nat} : s.follows pkt port = true ↔
    pkt.isUncacheable = false ∧ port ∈ s.filter.cpuSidePorts := by
  simp [follows]

theorem portToMask_of_mem {f : SnoopFilter} {port : Nat} (h : port ∈ f.cpuSidePorts) :
    f.portToMask port = {port} := if_pos h

/-- A response comes from below. -/
theorem recvTimingResp_keeps (h : Inv s) {port : Nat} (hok : s.Allowed (.recvTimingResp pkt port))
    (hrun : s.step (.recvTimingResp pkt port) = some s') : Inv s' := by
  obtain ⟨f, hf, rfl⟩ := Option.map_eq_some_iff.mp hrun
  by_cases hfollows : s.follows pkt port = true
  · rw [if_pos hfollows]
    obtain ⟨hcacheable, hport⟩ := follows_iff.mp hfollows
    obtain ⟨x, hget, hclean, hready⟩ := hok hfollows
    have hl := h.lines (s.filter.lineOf pkt)
    have hmine := Line.port_of_find hget
    have hsplit := Line.split_at hget
    have htouched := SnoopFilter.updateResponse_spec h.noNull hcacheable hport
      (hl.requested port (Line.mem_waiting_of_find hget)) hf
    rw [portToMask_of_mem hport] at htouched
    refine h.put htouched ?_
    rw [Line.respond_eq hget]
    have hkeep : ∀ q ∈ (s.filter.item (s.filter.lineOf pkt)).holder, q ≠ port →
        q ∈ (if pkt.isCacheMaintenance = true then
            (if pkt.isInvalidate = true then (s.filter.item (s.filter.lineOf pkt)).holder \ {port}
              else (s.filter.item (s.filter.lineOf pkt)).holder)
          else (s.filter.item (s.filter.lineOf pkt)).holder ∪ {port}) := by
      intro q hq hne
      split
      · split
        · exact Finset.mem_sdiff.mpr ⟨hq, fun hmem => hne (Finset.mem_singleton.mp hmem)⟩
        · exact hq
      · exact Finset.mem_union_left _ hq
    refine hl.answer hsplit hmine (fun q hq => ?_) (fun q => Line.mem_holdsAfter_of_ne hmine)
      (fun hp => ?_) (fun q hq hne => ?_)
    · have hcases : q ∈ (s.filter.item (s.filter.lineOf pkt)).holder ∨ q = port := by
        split at hq
        · split at hq
          · exact .inl (Finset.mem_sdiff.mp hq).1
          · exact .inl hq
        · exact (Finset.mem_union.mp hq).imp_right Finset.mem_singleton.mp
      rcases hcases with hold | rfl
      · exact hl.snooping q (Finset.mem_union_left _ hold)
      · exact hport
    · obtain ⟨hpost, hheld⟩ := Line.mine_holdsAfter hmine hp
      refine ⟨?_, hl.quiet hsplit hmine hready hpost fun hc => (hheld hc).2⟩
      by_cases hc : x.clean = true
      · -- the port has kept its copy, and its entry
        obtain ⟨hinv, hmem⟩ := hheld hc
        rw [if_pos (hclean ▸ hc), if_neg hinv]
        refine (hl.tracked port hmem).resolve_right ?_
        rintro ⟨y, hy, hyp, hsoon⟩
        have heq : y = x := by
          by_contra hne
          exact hl.port_ne hsplit hmine (LineOk.mem_split_of_ne hsplit hy hne) hyp
        rw [heq, hc] at hsoon
        exact hsoon.elim hpost Bool.noConfusion
      · rw [if_neg (hclean ▸ hc)]
        exact Finset.mem_union_right _ (Finset.mem_singleton_self port)
    · exact (hl.tracked_of_ne hsplit hmine hq hne).imp_left fun hholder => hkeep q hholder hne
  · rw [if_neg hfollows]
    have hsame : f = s.filter := by
      unfold SnoopFilter.updateResponse at hf
      rw [if_pos ?_] at hf
      · exact (Option.some.inj hf).symm
      · by_contra hno
        rw [not_or, Bool.not_eq_true, not_not] at hno
        exact hfollows (follows_iff.mpr hno)
    rw [hsame]
    exact h

/-- A snoop response becomes the response to a port. -/
theorem recvTimingSnoopResp_keeps (h : Inv s) {rsp_port req_port : Nat}
    (hok : s.Allowed (.recvTimingSnoopResp pkt rsp_port req_port))
    (hrun : s.step (.recvTimingSnoopResp pkt rsp_port req_port) = some s') : Inv s' := by
  obtain ⟨f, hf, rfl⟩ := Option.map_eq_some_iff.mp hrun
  by_cases hfollows : s.follows pkt req_port = true
  · rw [if_pos hfollows]
    obtain ⟨hcacheable, hport⟩ := follows_iff.mp hfollows
    obtain ⟨x, hget, hclean, hready, hwritable⟩ := hok.2 hfollows
    have hl := h.lines (s.filter.lineOf pkt)
    have hmine := Line.port_of_find hget
    have hsplit := Line.split_at hget
    have htouched := SnoopFilter.updateSnoopResponse_spec h.noNull hcacheable hport hf
    rw [portToMask_of_mem hport] at htouched
    refine h.put htouched ?_
    rw [Line.respond_eq hget]
    refine hl.answer hsplit hmine (fun q hq => ?_) (fun q => Line.mem_holdsAfter_of_ne hmine)
      (fun hp => ?_) (fun q hq hne => ?_)
    · rcases Finset.mem_union.mp hq with hold | hnew
      · split at hold
        · exact absurd hold (Finset.notMem_empty q)
        · exact hl.snooping q (Finset.mem_union_left _ hold)
      · rw [Finset.mem_singleton.mp hnew]
        exact hport
    · obtain ⟨hpost, hheld⟩ := Line.mine_holdsAfter hmine hp
      exact ⟨Finset.mem_union_right _ (Finset.mem_singleton_self req_port),
        hl.quiet hsplit hmine (fun _ => hready) hpost fun hc => (hheld hc).2⟩
    · by_cases hshared : pkt.hasSharers = false
      · -- the holders are cleared: the other copies vanish
        obtain ⟨y, hy, hyq, hpost⟩ := hl.others_vanish hsplit (hwritable hshared) hq fun heq =>
          hne (Option.some.inj (hmine.symm.trans heq)).symm
        exact .inr ⟨y, hy, hyq, .inl hpost⟩
      · rw [if_neg hshared]
        exact (hl.tracked_of_ne hsplit hmine hq hne).imp_left (Finset.mem_union_left _)
  · rw [if_neg hfollows]
    have hsame : f = s.filter := by
      unfold SnoopFilter.updateSnoopResponse at hf
      rw [if_pos ?_] at hf
      · exact (Option.some.inj hf).symm
      · by_contra hno
        rw [not_or, Bool.not_eq_true, not_not] at hno
        exact hfollows (follows_iff.mpr hno)
    rw [hsame]
    exact h

/-- A snoop response passes down. -/
theorem forwardSnoopResp_keeps (h : Inv s) {rsp_port i : Nat}
    (hok : s.Allowed (.forwardSnoopResp pkt rsp_port i))
    (hspared : s.Spared (.forwardSnoopResp pkt rsp_port i))
    (hrun : s.step (.forwardSnoopResp pkt rsp_port i) = some s') : Inv s' := by
  cases hrun
  obtain ⟨x, hget, hbelow, huncacheable, hcause⟩ := hok
  have hl := h.lines (s.filter.lineOf pkt)
  have hsplit := Line.split_at hget
  have htouched : SnoopFilter.Touched s.filter (s.filter.updateSnoopForward pkt) _ _ :=
    SnoopFilter.updateSnoopForward_spec h.noNull
  refine h.put htouched ?_
  have hrespond : (s.lines (s.filter.lineOf pkt)).respond i false =
      { s.lines (s.filter.lineOf pkt) with
        pending := (s.lines (s.filter.lineOf pkt)).pending.take i ++
          (s.lines (s.filter.lineOf pkt)).pending.drop (i + 1) } := by
    rw [Line.respond_eq hget, Line.holdsAfter, hbelow]
  rw [hrespond]
  have hremoved := hl.remove hsplit hbelow
  by_cases hshared : pkt.hasSharers = false
  · rw [if_pos hshared]
    refine hremoved.clear fun p hp => ?_
    have hne : x.port ≠ some p := by
      rw [hbelow]
      exact fun heq => Option.some_ne_none p heq.symm
    rcases hcause hshared with hwritable | hunc
    · obtain ⟨y, hy, hyp, hpost⟩ := hl.others_vanish hsplit hwritable hp hne
      exact ⟨y, hy, hyp, .inl hpost⟩
    · obtain ⟨y, hy, hyp, hsoon⟩ := hspared hunc hshared p hp
      refine ⟨y, LineOk.mem_split_of_ne hsplit hy fun heq => hne ?_, hyp, hsoon⟩
      rw [← heq]
      exact hyp
  · rw [if_neg hshared]
    exact hremoved

/-- A snoop comes from below. -/
theorem recvTimingSnoopReq_keeps (h : Inv s) {answered : Bool} {pos : Nat}
    (hrun : s.step (.recvTimingSnoopReq pkt answered pos) = some s') : Inv s' := by
  cases hrun
  have hl := h.lines (s.filter.lineOf pkt)
  obtain ⟨htouched, htargets⟩ : SnoopFilter.Touched s.filter (s.filter.lookupSnoop pkt).1 _ _ ∧
        (s.filter.lookupSnoop pkt).2 = _ := SnoopFilter.lookupSnoop_spec h.noNull
  refine h.put htouched ?_
  rw [htargets]
  unfold afterSnoop
  by_cases hinv : pkt.isInvalidate = true
  · simp only [if_pos hinv]
    -- every port that holds the line has been snooped
    have htarget : ∀ p ∈ (s.filter.item (s.filter.lineOf pkt)).interested,
        p ∈ s.filter.maskToPortList (s.filter.item (s.filter.lineOf pkt)).interested :=
      fun p hp => SnoopFilter.mem_maskToPortList.mpr ⟨hl.snooping p hp, hp⟩
    have hcleared : LineOk s.filter.cpuSidePorts
        (if pkt.isInvalidate = true ∧ (s.filter.item (s.filter.lineOf pkt)).requested = ∅ then
          { s.filter.item (s.filter.lineOf pkt) with holder := ∅ }
        else s.filter.item (s.filter.lineOf pkt))
        ((s.lines (s.filter.lineOf pkt)).invalidate
          (s.filter.maskToPortList (s.filter.item (s.filter.lineOf pkt)).interested)
          (((s.lines (s.filter.lineOf pkt)).pending.take pos).filterMap Request.port)) := by
      split
      · rename_i hnone
        refine (hl.invalidate _ _).clear fun p hp => ?_
        obtain ⟨hheld, hkept⟩ := Line.mem_holds_invalidate.mp hp
        rcases hkept with hout | hdeferred
        · exact absurd (htarget p (hl.mem_interested hheld)) hout
        · -- but no port waits
          obtain ⟨y, hy, hyp⟩ := mem_filterMap.mp hdeferred
          have hreq := hl.requested p (Line.mem_waiting.mpr ⟨y, mem_of_mem_take hy, hyp⟩)
          rw [hnone.2] at hreq
          exact absurd hreq (Finset.notMem_empty p)
      · exact hl.invalidate _ _
    by_cases hanswered : answered = true
    · rw [if_pos hanswered]
      refine hcleared.insert pos rfl fun _ => ⟨fun y hy hport => ?_, fun p hp => ?_⟩
      · obtain ⟨p, hyp⟩ := Option.ne_none_iff_exists'.mp hport
        obtain ⟨z, hz, rfl⟩ : ∃ z ∈ (s.lines (s.filter.lineOf pkt)).pending.take pos,
            z.mark _ = y := by
          rw [Line.invalidate, ← map_take] at hy
          exact mem_map.mp hy
        have hzp : z.port = some p := hyp
        refine Line.post_of_deferred (mem_of_mem_take hy) hyp (htarget p ?_)
          (mem_filterMap.mpr ⟨z, hz, hzp⟩)
        exact Finset.mem_union_right _
          (hl.requested p (Line.mem_waiting.mpr ⟨z, mem_of_mem_take hz, hzp⟩))
      · obtain ⟨hheld, hkept⟩ := Line.mem_holds_invalidate.mp hp
        have hdeferred := hkept.resolve_left fun hout =>
          hout (htarget p (hl.mem_interested hheld))
        rw [Line.invalidate, ← map_take, filterMap_map]
        exact hdeferred
    · rw [if_neg hanswered]
      exact hcleared
  · simp only [if_neg hinv, if_neg fun hx : pkt.isInvalidate = true ∧ _ => hinv hx.1]
    split
    · exact hl.insert pos rfl fun hw => absurd hw hinv
    · exact hl

/-- What the snoops of a request leave. -/
theorem afterRequest_snoops (h : Inv s) (pkt : Packet) (targets : List Nat) :
    LineOk s.filter.cpuSidePorts (s.filter.item (s.filter.lineOf pkt))
      (if pkt.isEviction = false ∧ pkt.isInvalidate = true then
        (s.lines (s.filter.lineOf pkt)).invalidate targets (s.lines (s.filter.lineOf pkt)).waiting
      else s.lines (s.filter.lineOf pkt)) := by
  have hl := h.lines (s.filter.lineOf pkt)
  split
  · exact hl.invalidate _ _
  · exact hl

/-- A request that invalidates has reached every other port: what waits there is to be invalidated,
    and what is held there is waited for. -/
theorem snooped {ports : List Nat} {item : SnoopItem} {l : Line} (hl : LineOk ports item l)
    {targets : List Nat} {port : Nat} (hnew : port ∉ item.requested)
    (htargets : ∀ p, p ∈ targets ↔ p ∈ ports ∧ p ∈ item.interested \ {port}) :
    (∀ y ∈ (l.invalidate targets l.waiting).pending, y.port ≠ none → y.postInvalidate = true) ∧
      ∀ q ∈ (l.invalidate targets l.waiting).holds, q = port ∨
        q ∈ (l.invalidate targets l.waiting).waiting := by
  have htarget : ∀ p ∈ item.interested, p ≠ port → p ∈ targets := fun p hp hne =>
    (htargets p).mpr ⟨hl.snooping p hp,
      Finset.mem_sdiff.mpr ⟨hp, fun hmem => hne (Finset.mem_singleton.mp hmem)⟩⟩
  constructor
  · intro y hy hport
    obtain ⟨p, hyp⟩ := Option.ne_none_iff_exists'.mp hport
    have hwaiting : p ∈ l.waiting := by
      have hmem : p ∈ (l.invalidate targets l.waiting).waiting := Line.mem_waiting.mpr ⟨y, hy, hyp⟩
      rwa [Line.waiting_invalidate] at hmem
    have hreq := hl.requested p hwaiting
    refine Line.post_of_deferred hy hyp (htarget p (Finset.mem_union_right _ hreq) ?_) hwaiting
    rintro rfl
    exact hnew hreq
  · intro q hq
    obtain ⟨hheld, hkept⟩ := Line.mem_holds_invalidate.mp hq
    rw [Line.waiting_invalidate]
    by_cases heq : q = port
    · exact .inl heq
    · exact .inr (hkept.resolve_left fun hout => hout (htarget q (hl.mem_interested hheld) heq))

/-- A request comes from a port. -/
theorem recvTimingReq_keeps (h : Inv s) {port : Nat} {will_retry : Bool}
    (hok : s.Allowed (.recvTimingReq pkt port will_retry))
    (hrun : s.step (.recvTimingReq pkt port will_retry) = some s') : Inv s' := by
  obtain ⟨⟨f, targets⟩, hf, rfl⟩ := Option.map_eq_some_iff.mp hrun
  obtain ⟨-, hevict, -⟩ := hok
  have hl := h.lines (s.filter.lineOf pkt)
  obtain ⟨item, hitem, htouched, htargets⟩ := SnoopFilter.request_spec h.noNull hf
  have hsnoops := afterRequest_snoops h pkt targets
  refine h.put htouched ?_
  unfold afterRequest
  by_cases hretry : will_retry = true
  · rw [if_pos hretry, if_pos (Or.inl hretry)]
    exact hsnoops
  rw [if_neg hretry]
  by_cases hallocate : s.filter.allocate pkt port = false
  · rw [SnoopFilter.requestItem_of_not_allocate hallocate] at hitem
    cases hitem
    rw [if_pos (Or.inr hallocate)]
    exact hsnoops
  rw [if_neg (not_or.mpr ⟨hretry, hallocate⟩)]
  have hport : port ∈ s.filter.cpuSidePorts := by
    simp only [SnoopFilter.allocate, Bool.not_eq_false, Bool.and_eq_true, decide_eq_true_eq]
      at hallocate
    exact hallocate.1.2
  have hmask := portToMask_of_mem hport
  unfold SnoopFilter.requestItem at hitem
  rw [if_neg hallocate] at hitem
  rw [hmask] at hitem htargets
  by_cases hneeds : pkt.needsResponse = true
  · rw [if_pos hneeds] at hitem ⊢
    by_cases hresponding : pkt.cacheResponding = false
    · rw [if_pos hresponding] at hitem ⊢
      split at hitem
      · cases hitem
      · rename_i hdouble
        cases hitem
        have hnew : port ∉ (s.filter.item (s.filter.lineOf pkt)).requested := fun hmem =>
          hdouble fun hempty => by
            have hin := Finset.mem_inter.mpr ⟨hmem, Finset.mem_singleton_self port⟩
            rw [hempty] at hin
            exact absurd hin (Finset.notMem_empty port)
        refine hsnoops.accept rfl hport hnew fun hwritable => ?_
        -- a request for a writable copy has been sent to the others
        have hinv : pkt.isInvalidate = true := Bool.and_elim_left hwritable
        have hnotevict : pkt.isEviction = false := by
          rw [Bool.eq_false_iff]
          intro heviction
          rw [hevict heviction] at hneeds
          cases hneeds
        rw [if_pos ⟨hnotevict, hinv⟩]
        refine snooped hl hnew fun p => ?_
        rw [htargets]
        exact SnoopFilter.mem_maskToPortList
    · rw [if_neg hresponding] at hitem ⊢
      split at hitem
      · cases hitem
      · cases hitem
        exact hsnoops
  · rw [if_neg hneeds] at hitem ⊢
    split at hitem
    · rename_i heviction
      rw [if_neg fun hx : pkt.isEviction = false ∧ _ => by rw [heviction] at hx; cases hx.1]
      split at hitem
      · cases hitem
      · by_cases hcached : pkt.isBlockCached = false
        · rw [if_pos hcached] at hitem ⊢
          cases hitem
          exact hl.evict port
        · rw [if_neg hcached] at hitem ⊢
          cases hitem
          exact hl
    · cases hitem

theorem step_keeps (h : Inv s) {e : Event} (hok : s.Allowed e ∧ s.Spared e)
    (hrun : s.step e = some s') : Inv s' := by
  cases e with
  | recvTimingReq => exact recvTimingReq_keeps h hok.1 hrun
  | recvTimingResp => exact recvTimingResp_keeps h hok.1 hrun
  | recvTimingSnoopReq => exact recvTimingSnoopReq_keeps h hrun
  | recvTimingSnoopResp => exact recvTimingSnoopResp_keeps h hok.1 hrun
  | forwardSnoopResp => exact forwardSnoopResp_keeps h hok.1 hok.2 hrun

/-! ## The result -/

/-- The filter forgets no holder, a snoop or a request reaches all of them, and a request that will
    be retried leaves no trace. -/
structure Holders (s : System) : Prop where
  tracked : ∀ line, ∀ p ∈ (s.lines line).holds,
    ∃ item, s.filter.cachedLocations line = some item ∧ p ∈ item.holder ∪ item.requested
  requests : ∀ pkt port f targets, s.filter.lookupRequest pkt port = some (f, targets) →
    ∀ p ∈ (s.lines (s.filter.lineOf pkt)).holds, p ≠ port → p ∈ targets
  snoops : ∀ pkt, ∀ p ∈ (s.lines (s.filter.lineOf pkt)).holds, p ∈ (s.filter.lookupSnoop pkt).2
  retries : ∀ pkt port f targets, s.filter.lookupRequest pkt port = some (f, targets) →
    ∃ f', f.finishRequest true pkt.addr pkt.isSecure = some f' ∧
      f'.cachedLocations = s.filter.cachedLocations

theorem Inv.holders (h : Inv s) : Holders s where
  tracked := fun line p hp => by
    have hmem := (h.lines line).mem_interested hp
    cases hentry : s.filter.cachedLocations line with
    | none =>
      rw [SnoopFilter.item_of_none hentry] at hmem
      simp [SnoopItem.interested] at hmem
    | some item =>
      rw [SnoopFilter.item_of_some hentry] at hmem
      exact ⟨item, rfl, hmem⟩
  requests := fun pkt port f targets hlookup p hp hne => by
    have hmem := (h.lines _).mem_interested hp
    obtain ⟨f', hf'⟩ := SnoopFilter.finishRequest_isSome hlookup true
    obtain ⟨_, -, -, htargets⟩ := SnoopFilter.request_spec h.noNull hf'
    rw [htargets]
    refine SnoopFilter.mem_maskToPortList.mpr ⟨(h.lines _).snooping p hmem,
      Finset.mem_sdiff.mpr ⟨hmem, fun hin => hne (SnoopFilter.mem_portToMask.mp hin).1⟩⟩
  snoops := fun pkt p hp => by
    have hmem := (h.lines _).mem_interested hp
    rw [(SnoopFilter.lookupSnoop_spec h.noNull).2]
    exact SnoopFilter.mem_maskToPortList.mpr ⟨(h.lines _).snooping p hmem, hmem⟩
  retries := fun pkt port f targets hlookup => by
    obtain ⟨f', hf'⟩ := SnoopFilter.finishRequest_isSome hlookup true
    have hsame := SnoopFilter.retry_restores h.noNull hf'
    rw [SnoopFilter.request, hlookup, Option.bind_some] at hf'
    obtain ⟨g, hg, heq⟩ := Option.map_eq_some_iff.mp hf'
    cases heq
    exact ⟨f', hg, hsame⟩

/-- Along a run whose steps are all spared, the filter forgets no holder. -/
theorem holders_of_spared {cpuSidePorts : List Nat} {linesize : Nat} {es : List Event}
    (hok : Trace.Obeys (fun s e => s.Allowed e ∧ s.Spared e) step (init cpuSidePorts linesize) es)
    (hrun : Trace.runs step (init cpuSidePorts linesize) es = some s) : Holders s :=
  (hok.invariant Inv (fun _ _ _ h he hs => step_keeps h he hs)
    (init_inv cpuSidePorts linesize) hrun).holders

/-- Port 0 reads a line, port 1 asks for a writable copy, which port 0 supplies, and evicts it; a
    read that will be retried, and an uncacheable one from below. -/
def handover : List Event :=
  [.recvTimingReq { addr := 64 } 0 false, .recvTimingResp { addr := 64 } 0,
    .recvTimingReq { addr := 64, isInvalidate := true } 1 false,
    .recvTimingSnoopResp { addr := 64 } 0 1,
    .recvTimingReq { addr := 64 } 0 true,
    .recvTimingSnoopReq { addr := 64, isUncacheable := true } true 0,
    .forwardSnoopResp { addr := 64, isUncacheable := true, hasSharers := true } 1 0,
    .recvTimingReq { addr := 64, needsResponse := false, isEviction := true } 1 false]

/-- The line goes from one cache to the other and is given up there. -/
theorem holders_of_spared_handover : ∃ s, Trace.runs step (init [0, 1] 64) handover = some s ∧
    Holders s := by
  have hok : Trace.Obeys (fun s e => s.Allowed e ∧ s.Spared e) step (init [0, 1] 64) handover := by
    decide
  refine (Option.isSome_iff_exists.mp ?_).imp fun s hs => ⟨hs, holders_of_spared hok hs⟩
  decide

/-- Port 0 holds a line; an uncacheable read from below is answered from its write buffer. -/
def forgetful : List Event :=
  [.recvTimingReq { addr := 64 } 0 false, .recvTimingResp { addr := 64 } 0,
    .recvTimingSnoopReq { addr := 64, isUncacheable := true } true 0,
    .forwardSnoopResp { addr := 64, isUncacheable := true } 0 0]

/-- The port still holds the line, and the entry is gone. -/
theorem uncacheable_answer_forgets : Trace.Obeys Allowed step (init [0] 64) forgetful ∧
    ∃ s, Trace.runs step (init [0] 64) forgetful = some s ∧ 0 ∈ (s.lines 64).holds ∧
      s.filter.cachedLocations 64 = none := by
  refine ⟨by decide, ?_⟩
  refine (Option.isSome_iff_exists.mp ?_).imp fun s hs => ⟨hs, ?_⟩
  · decide
  · have hend : ((Trace.runs step (init [0] 64) forgetful).map fun s =>
        ((s.lines 64).holds, s.filter.cachedLocations 64)) = some ({0}, none) := by decide
    rw [hs, Option.map_some] at hend
    obtain ⟨hholds, hentry⟩ := Prod.mk.inj (Option.some.inj hend)
    exact ⟨by rw [hholds]; exact Finset.mem_singleton_self 0, hentry⟩

end System

end Gem5Dvr.Snoop
