/-
  Runs of a cache on a miss status holding register (`mem/cache/mshr.cc` 302-705).

    1. `Kept`: the items returned, followed by those of the targets and of the deferred targets, are
       the packets added, and without the snoops they are so in the same order.
    2. `Place`: what the register has at each turn of the cache.
    3. The crux: a packet that is deferred while the request is in service comes among the targets
       by `promoteReadable`, if it needs no writable block, or by `promoteWritable`, which looks at
       the two flags that a snoop has set by then.
-/
import Gem5Dvr.Lib.Trace
import Gem5Dvr.MshrTargets

namespace Gem5Dvr.Mshr

open List

/-! ## The packets added are kept -/

/-- Each one that was added is kept once, in order if it is no snoop. -/
structure Kept (all : List Item) (added : List (Nat × Source)) : Prop where
  perm : (all.map Item.key).Perm added
  order : (all.filter fun i => !i.isSnoop).map Item.key = added.filter fun x => x.2 != .FromSnoop
  nodup : (added.map Prod.fst).Nodup

namespace Kept

variable {all all' pre post : List Item} {added : List (Nat × Source)} {i : Item}

theorem rearrange (h : Kept all added) (hperm : all'.Perm all)
    (horder : all'.filter (fun i => !i.isSnoop) = all.filter fun i => !i.isSnoop) :
    Kept all' added :=
  ⟨(hperm.map Item.key).trans h.perm, by rw [horder, h.order], h.nodup⟩

/-- A new packet comes at the end, but for a snoop, which may come anywhere. -/
theorem add (h : Kept (pre ++ post) added) (hfresh : i.id ∉ added.map Prod.fst)
    (hlast : i.isSnoop = true ∨ post = []) : Kept (pre ++ i :: post) (added ++ [i.key]) := by
  constructor
  · have hmid : (pre ++ i :: post).Perm (pre ++ post ++ [i]) := by
      refine perm_middle.trans ?_
      exact (perm_append_singleton i (pre ++ post)).symm
    refine (hmid.map Item.key).trans ?_
    rw [map_append]
    exact h.perm.append_right _
  · rw [filter_append, filter_append, ← h.order]
    rcases hlast with hsnoop | rfl
    · have hs : i.source = .FromSnoop := by simpa [Item.isSnoop] using hsnoop
      simp [Item.key, hs, hsnoop]
    · by_cases hs : i.source = .FromSnoop
      · simp [Item.key, Item.isSnoop, hs]
      · simp [Item.key, Item.isSnoop, hs]
  · rw [map_append, nodup_append]
    refine ⟨h.nodup, pairwise_singleton _ _, ?_⟩
    rintro a ha b hb rfl
    rw [map_singleton, mem_singleton] at hb
    rw [hb] at ha
    exact hfresh ha

theorem ids_nodup (h : Kept all added) : (all.map Item.id).Nodup := by
  have hperm : ((all.map Item.key).map Prod.fst).Perm (added.map Prod.fst) := h.perm.map Prod.fst
  rw [map_map] at hperm
  exact hperm.nodup_iff.mpr h.nodup

theorem mem_added (h : Kept all added) (hi : i ∈ all) : i.id ∈ added.map Prod.fst :=
  mem_map.mpr ⟨i.key, h.perm.mem_iff.mp (mem_map_of_mem hi), rfl⟩

theorem promote {m m' : MSHR} {moved returned : List Item}
    (h : Kept (returned ++ m.tgts ++ m.defd) added) (hmoved : MSHR.Promoted m m' moved) :
    Kept (returned ++ m'.tgts ++ m'.defd) added := by
  rw [hmoved.from_deferred] at h
  rw [hmoved.to_targets]
  simpa only [append_assoc] using h

end Kept

/-! ## The shape of the lists -/

namespace MSHR.Shape

variable {T D is : List Item} {i : Item}

theorem of_cpu (hunl : ∀ i ∈ T ++ D, i.locked = false) (hT : ∀ i ∈ T, i.source = .FromCPU)
    (hD : ∀ i ∈ D, i.source = .FromCPU) : Shape T D := by
  refine ⟨hunl, fun i hi => ?_, fun i hi => ?_, hD⟩
  · rw [hT i (mem_of_mem_head? hi)]
    exact nofun
  · rw [hT i (mem_of_mem_tail hi)]
    exact nofun

theorem append_targets (h : Shape T D) (hne : T ≠ []) (hunl : ∀ i ∈ is, i.locked = false)
    (hpf : ∀ i ∈ is, i.source ≠ .FromPrefetcher) : Shape (T ++ is) D := by
  obtain ⟨first, rest, rfl⟩ := exists_cons_of_ne_nil hne
  refine ⟨?_, h.front, ?_, h.deferred⟩
  · intro i hi
    rcases mem_append.mp hi with hi | hi
    · rcases mem_append.mp hi with hi | hi
      · exact h.unlocked i (mem_append_left _ hi)
      · exact hunl i hi
    · exact h.unlocked i (mem_append_right _ hi)
  · intro i hi
    rcases mem_append.mp (show i ∈ rest ++ is from hi) with hi | hi
    · exact h.tail i hi
    · exact hpf i hi

theorem append_deferred (h : Shape T D) (hunl : i.locked = false) (hcpu : i.source = .FromCPU) :
    Shape T (D ++ [i]) := by
  refine ⟨?_, h.front, h.tail, ?_⟩
  · intro j hj
    rw [← append_assoc] at hj
    rcases mem_append.mp hj with hj | hj
    · exact h.unlocked j hj
    · rw [mem_singleton.mp hj]
      exact hunl
  · intro j hj
    rcases mem_append.mp hj with hj | hj
    · exact h.deferred j hj
    · rw [mem_singleton.mp hj]
      exact hcpu

theorem promote (h : Shape T (is ++ D)) (hne : T ≠ []) : Shape (T ++ is) D := by
  have hdrop : Shape T D :=
    ⟨fun i hi => h.unlocked i (by simp only [mem_append] at hi ⊢; tauto), h.front, h.tail,
      fun i hi => h.deferred i (mem_append_right _ hi)⟩
  refine hdrop.append_targets hne (fun i hi => ?_) (fun i hi => ?_)
  · exact h.unlocked i (mem_append_right _ (mem_append_left _ hi))
  · rw [h.deferred i (mem_append_left _ hi)]
    exact nofun

end MSHR.Shape

/-! ## The turns -/

namespace Cache

variable {s s' : Cache}

/-- All items, those returned first. -/
def all (s : Cache) : List Item := items s.returned.flatten ++ s.mshr.tgts ++ s.mshr.defd

/-- A request is in service. -/
structure Serving (s : Cache) : Prop where
  sent : ∀ i ∈ s.mshr.tgts.head?, i.req = s.sent
  taken : s.taken = true → s.mshr.postInvalidate = true ∨ s.mshr.postDowngrade = true ∨
    s.sent.isCacheInvalidate = true
  apart : ∀ i ∈ s.mshr.tgts, i.id ∉ s.deferredSeen
  seen : ∀ id ∈ s.deferredSeen, id ∈ s.added.map Prod.fst

/-- Its response is handled, and the targets are not extracted yet. -/
structure Responding (s : Cache) (r : Response) : Prop where
  taken : s.taken = true → s.mshr.postInvalidate = true ∨ s.mshr.postDowngrade = true ∨
    r.req.isCacheInvalidate = true
  apart : s.taken = true → ∀ i ∈ s.mshr.tgts, i.needsWritable = true → i.id ∉ s.deferredSeen

/-- Where the targets are at each turn. -/
def Place (s : Cache) : Prop :=
  match s.turn with
  | .Free | .Deallocate => s.mshr.tgts = [] ∧ s.mshr.defd = []
  | .Allocated => s.mshr.tgts ≠ [] ∧ (s.mshr.inService = true → s.Serving)
  | .PromoteReadable r | .PromoteWritable r | .Extract r => s.mshr.tgts ≠ [] ∧ s.Responding r
  | .PromoteDeferredTargets => ∀ i ∈ s.mshr.tgts, i.source = .FromCPU
  | .MarkPending => s.mshr.tgts ≠ []

/-- What holds between the calls. -/
structure Inv (s : Cache) : Prop where
  kept : Kept s.all s.added
  shape : MSHR.Shape s.mshr.tgts s.mshr.defd
  place : s.Place

theorem Place.allocated (h : s.Place) (ht : s.turn = .Allocated) :
    s.mshr.tgts ≠ [] ∧ (s.mshr.inService = true → s.Serving) := by
  simpa [Place, ht] using h

theorem not_fresh {id : Nat} (h : s.fresh id = true) : id ∉ s.added.map Prod.fst := by
  simpa [fresh] using h

/-- The request in service sees nothing of a call that adds new targets at the end, that leaves the
    flags set and that records what it defers. -/
theorem Serving.add (h : s.Serving) {is : List Item} (hne : s.mshr.tgts ≠ [])
    (htgts : s'.mshr.tgts = s.mshr.tgts ++ is) (hsent : s'.sent = s.sent)
    (htaken : s'.taken = true → s'.mshr.postInvalidate = true ∨ s'.mshr.postDowngrade = true ∨
      s.sent.isCacheInvalidate = true)
    (hnew : ∀ i ∈ is, i.id ∉ s'.deferredSeen)
    (hseen : ∀ id ∈ s'.deferredSeen, id ∈ s.deferredSeen ∨ id ∉ s.added.map Prod.fst)
    (hold : ∀ i ∈ s.mshr.tgts, i.id ∈ s.added.map Prod.fst)
    (hadded : ∀ id ∈ s'.deferredSeen, id ∈ s'.added.map Prod.fst) : s'.Serving := by
  obtain ⟨first, rest, hcons⟩ := exists_cons_of_ne_nil hne
  constructor
  · intro i hi
    rw [htgts, hcons] at hi
    rw [hsent]
    exact h.sent i (by rw [hcons]; exact hi)
  · rw [hsent]
    exact htaken
  · intro i hi
    rw [htgts] at hi
    rcases mem_append.mp hi with hi | hi
    · intro hin
      rcases hseen i.id hin with hin | hin
      · exact h.apart i hi hin
      · exact hin (hold i hi)
    · exact hnew i hi
  · exact hadded

variable {pkt : Packet} {order tick : Nat} {m : MSHR} {r : Response} {moved : List Item}

theorem inv_allocate {blk_addr blk_size : Nat} {ready : Nat} {alloc : Bool}
    (h : s.Inv) (hstep : s.allocate blk_addr blk_size pkt ready order alloc = some s') :
    s'.Inv := by
  unfold Cache.allocate at hstep
  split at hstep
  · rename_i hguard
    obtain ⟨hturn, hfresh, hunl⟩ := hguard
    cases hstep
    obtain ⟨hT, hD⟩ : s.mshr.tgts = [] ∧ s.mshr.defd = [] := by simpa [Place, hturn] using h.place
    obtain ⟨hT', hD', hserv⟩ := s.mshr.allocate_spec blk_addr blk_size pkt ready order alloc
    generalize s.mshr.allocate blk_addr blk_size pkt ready order alloc = m at *
    rw [hT, nil_append] at hT'
    rw [hD] at hD'
    have hkept := h.kept
    rw [all, hT, hD, append_assoc, append_nil] at hkept
    refine ⟨?_, ?_, ?_⟩
    · show Kept (items s.returned.flatten ++ m.tgts ++ m.defd) _
      rw [hT', hD', append_nil]
      exact hkept.add (not_fresh hfresh) (Or.inr rfl)
    · show MSHR.Shape m.tgts m.defd
      rw [hT', hD']
      refine ⟨?_, ?_, fun j hj => absurd hj not_mem_nil, fun j hj => absurd hj not_mem_nil⟩
      · intro j hj
        rw [mem_singleton.mp hj]
        simpa [unlocked, MSHR.firstItem] using hunl
      · intro j hj
        cases hj
        show (if pkt.cmd = .HardPFReq then Source.FromPrefetcher else .FromCPU) ≠ .FromSnoop
        split <;> exact nofun
    · show m.tgts ≠ [] ∧ (m.inService = true → _)
      rw [hT', hserv]
      exact ⟨cons_ne_nil _ _, nofun⟩
  · cases hstep

theorem inv_allocateTarget {ready : Nat} {alloc : Bool} (h : s.Inv)
    (hstep : s.allocateTarget pkt ready order alloc = some s') : s'.Inv := by
  unfold Cache.allocateTarget at hstep
  split at hstep
  · rename_i hguard
    obtain ⟨hturn, hfresh, hunl⟩ := hguard
    obtain ⟨m, hm, rfl⟩ := Option.map_eq_some_iff.mp hstep
    obtain ⟨hne, hserving⟩ := h.place.allocated hturn
    have hfresh := not_fresh hfresh
    have hlocked : (MSHR.cpuItem pkt).locked = false := by
      simpa [unlocked, MSHR.cpuItem] using hunl
    have hold : ∀ i ∈ s.mshr.tgts, i.id ∈ s.added.map Prod.fst := fun i hi =>
      h.kept.mem_added (mem_append_left _ (mem_append_right _ hi))
    obtain ⟨hsame, ⟨htgts, hdefd⟩ | ⟨hnil, htgts, hdefd⟩⟩ := MSHR.allocateTarget_spec hm
    · -- deferred
      have hT : m.tgts = s.mshr.tgts := congrArg (fun l : TargetList => items l.list) htgts
      have hgrown : m.deferredTargets.list.length ≠ s.mshr.deferredTargets.list.length := by
        rw [← length_items, ← length_items]
        show m.defd.length ≠ s.mshr.defd.length
        rw [hdefd, length_append, length_singleton]
        omega
      refine ⟨?_, ?_, ?_⟩
      · show Kept (items s.returned.flatten ++ m.tgts ++ m.defd) _
        rw [hT, hdefd, ← append_assoc]
        have hkept := h.kept
        rw [all, ← append_nil (_ ++ s.mshr.defd)] at hkept
        exact hkept.add hfresh (Or.inr rfl)
      · show MSHR.Shape m.tgts m.defd
        rw [hT, hdefd]
        exact h.shape.append_deferred hlocked rfl
      · show Place _
        rw [Place, hturn]
        refine ⟨by rw [hT]; exact hne, fun hserv => ?_⟩
        have hserv := hserving (by rw [← hsame.inService]; exact hserv)
        refine hserv.add hne (show m.tgts = s.mshr.tgts ++ [] by simp [hT]) rfl ?_
          (fun j hj => absurd hj not_mem_nil) ?_ hold ?_
        · rw [hsame.postInvalidate, hsame.postDowngrade]
          exact hserv.taken
        · intro id hid
          rw [if_neg hgrown] at hid
          rcases mem_cons.mp hid with rfl | hid
          · exact Or.inr hfresh
          · exact Or.inl hid
        · intro id hid
          rw [if_neg hgrown] at hid
          rw [map_append]
          rcases mem_cons.mp hid with rfl | hid
          · exact mem_append_right _ mem_cons_self
          · exact mem_append_left _ (hserv.seen id hid)
    · -- among the targets, and nothing is deferred
      have hD : m.defd = s.mshr.defd := congrArg (fun l : TargetList => items l.list) hdefd
      have hsize : m.deferredTargets.list.length = s.mshr.deferredTargets.list.length := by
        rw [hdefd]
      refine ⟨?_, ?_, ?_⟩
      · show Kept (items s.returned.flatten ++ m.tgts ++ m.defd) _
        have hkept := h.kept
        rw [all, hnil] at hkept
        rw [htgts, hD, hnil, append_nil, ← append_assoc]
        exact hkept.add hfresh (Or.inr rfl)
      · show MSHR.Shape m.tgts m.defd
        rw [htgts, hD]
        refine h.shape.append_targets hne (fun i hi => ?_) (fun i hi => ?_)
        · rw [mem_singleton.mp hi]
          exact hlocked
        · rw [mem_singleton.mp hi]
          exact Source.noConfusion
      · show Place _
        rw [Place, hturn]
        refine ⟨by rw [htgts]; exact append_ne_nil_of_left_ne_nil hne _, fun hserv => ?_⟩
        have hserv := hserving (by rw [← hsame.inService]; exact hserv)
        refine hserv.add hne htgts rfl ?_ ?_ ?_ hold ?_
        · rw [hsame.postInvalidate, hsame.postDowngrade]
          exact hserv.taken
        · intro i hi hin
          rw [if_pos hsize] at hin
          rw [mem_singleton.mp hi] at hin
          exact hfresh (hserv.seen _ hin)
        · intro id hid
          rw [if_pos hsize] at hid
          exact Or.inl hid
        · intro id hid
          rw [if_pos hsize] at hid
          rw [map_append]
          exact mem_append_left _ (hserv.seen id hid)
  · cases hstep

/-- The items a snoop adds, one or none, and the flags it leaves. -/
theorem handleSnoop_adds {copy : Nat} {b : Bool}
    (hm : s.mshr.handleSnoop pkt copy order tick = some (m, b)) :
    ∃ is, m.tgts = s.mshr.tgts ++ is ∧ m.defd = s.mshr.defd ∧
      (is = [] ∨ is = [MSHR.snoopItem pkt copy]) ∧ m.inService = s.mshr.inService ∧
      (s.Serving → (s.taken || s.snoopFollows pkt && takes pkt) = true →
        m.postInvalidate = true ∨ m.postDowngrade = true ∨ s.sent.isCacheInvalidate = true) := by
  cases hpre : !s.mshr.inService || pkt.expressSnoop && s.mshr.downstreamPending with
  | true =>
    obtain ⟨hT, hD, hsame⟩ := MSHR.handleSnoop_precedes hpre hm
    refine ⟨[], by rw [hT, append_nil], hD, Or.inl rfl, hsame.inService, ?_⟩
    intro hserv htaken
    have hfollows : s.snoopFollows pkt = false := by
      have heq : s.snoopFollows pkt =
          !(!s.mshr.inService || pkt.expressSnoop && s.mshr.downstreamPending) := by
        simp [snoopFollows]
      rw [heq, hpre]
      rfl
    rw [hfollows, Bool.false_and, Bool.or_false] at htaken
    rw [hsame.postInvalidate, hsame.postDowngrade]
    exact hserv.taken htaken
  | false =>
    obtain ⟨hT, hD, hsnooped⟩ := MSHR.handleSnoop_follows hpre hm
    have hflags : s.Serving → (s.taken || s.snoopFollows pkt && takes pkt) = true →
        m.postInvalidate = true ∨ m.postDowngrade = true ∨ s.sent.isCacheInvalidate = true := by
      intro hserv htaken
      rcases Bool.or_eq_true_iff.mp htaken with htaken | htakes
      · rcases hserv.taken htaken with hp | hp | hp
        · exact Or.inl (hsnooped.postInvalidate hp)
        · exact Or.inr (Or.inl (hsnooped.postDowngrade hp))
        · exact Or.inr (Or.inr hp)
      · rcases hsnooped.taken (Bool.and_eq_true_iff.mp htakes).2 with hp | hp | ⟨i, hi, hp⟩
        · exact Or.inl hp
        · exact Or.inr (Or.inl hp)
        · rw [hserv.sent i hi] at hp
          exact Or.inr (Or.inr hp)
    rcases hT with hT | hT
    · exact ⟨[], by rw [hT, append_nil], hD, Or.inl rfl, hsnooped.inService, hflags⟩
    · exact ⟨_, hT, hD, Or.inr rfl, hsnooped.inService, hflags⟩

theorem inv_handleSnoop {copy : Nat} (h : s.Inv)
    (hstep : s.handleSnoop pkt copy order tick = some s') : s'.Inv := by
  unfold Cache.handleSnoop at hstep
  split at hstep
  · rename_i hguard
    obtain ⟨hturn, hfresh, hunl⟩ := hguard
    obtain ⟨⟨m, b⟩, hm, rfl⟩ := Option.map_eq_some_iff.mp hstep
    obtain ⟨hne, hserving⟩ := h.place.allocated hturn
    have hfresh := not_fresh hfresh
    have hold : ∀ i ∈ s.mshr.tgts, i.id ∈ s.added.map Prod.fst := fun i hi =>
      h.kept.mem_added (mem_append_left _ (mem_append_right _ hi))
    obtain ⟨is, htgts, hdefd, his, hinService, hflags⟩ := handleSnoop_adds hm
    have hgrown : (m.targets.list.length = s.mshr.targets.list.length) ↔ is = [] := by
      rw [← length_items, ← length_items]
      show m.tgts.length = s.mshr.tgts.length ↔ _
      rw [htgts, length_append, ← length_eq_zero_iff]
      omega
    have hmem : ∀ i ∈ is, i = MSHR.snoopItem pkt copy := by
      intro i hi
      rcases his with rfl | rfl
      · exact absurd hi not_mem_nil
      · exact mem_singleton.mp hi
    have hsub : ∀ id ∈ s.added.map Prod.fst, id ∈ (if m.targets.list.length =
        s.mshr.targets.list.length then s.added else
          s.added ++ [(copy, Source.FromSnoop)]).map Prod.fst := by
      intro id hid
      split
      · exact hid
      · rw [map_append]
        exact mem_append_left _ hid
    refine ⟨?_, ?_, ?_⟩
    · show Kept (items s.returned.flatten ++ m.tgts ++ m.defd)
        (if m.targets.list.length = s.mshr.targets.list.length then s.added
          else s.added ++ [(copy, Source.FromSnoop)])
      rw [htgts, hdefd]
      rcases his with rfl | rfl
      · rw [if_pos (hgrown.mpr rfl), append_nil]
        exact h.kept
      · have hne : ¬ m.targets.list.length = s.mshr.targets.list.length := fun heq =>
          cons_ne_nil _ _ (hgrown.mp heq)
        rw [if_neg hne, ← append_assoc, append_assoc]
        exact h.kept.add hfresh (Or.inl rfl)
    · show MSHR.Shape m.tgts m.defd
      rw [htgts, hdefd]
      refine h.shape.append_targets hne (fun i hi => ?_) (fun i hi => ?_)
      · rw [hmem i hi]
        simpa [unlocked, MSHR.snoopItem] using hunl
      · rw [hmem i hi]
        exact Source.noConfusion
    · show Place _
      rw [Place, hturn]
      refine ⟨by rw [htgts]; exact append_ne_nil_of_left_ne_nil hne _, fun hserv => ?_⟩
      have hserv := hserving (by rw [← hinService]; exact hserv)
      refine hserv.add hne htgts rfl (hflags hserv) ?_ (fun id hid => Or.inl hid) hold ?_
      · intro i hi hin
        rw [hmem i hi] at hin
        exact hfresh (hserv.seen _ hin)
      · intro id hid
        exact hsub id (hserv.seen id hid)
  · cases hstep

/-- A call that leaves the items and the request in service as they are. -/
theorem Inv.set_mshr (h : s.Inv) (hturn : s.turn = .Allocated)
    (hT : m.tgts = s.mshr.tgts) (hD : m.defd = s.mshr.defd) (hsame : MSHR.SameService s.mshr m) :
    Inv { s with mshr := m } := by
  obtain ⟨hne, hserving⟩ := h.place.allocated hturn
  refine ⟨?_, ?_, ?_⟩
  · show Kept (items s.returned.flatten ++ m.tgts ++ m.defd) s.added
    rw [hT, hD]
    exact h.kept
  · show MSHR.Shape m.tgts m.defd
    rw [hT, hD]
    exact h.shape
  · show Place _
    rw [Place, hturn]
    refine ⟨by rw [hT]; exact hne, fun hserv => ?_⟩
    have hserv := hserving (by rw [← hsame.inService]; exact hserv)
    refine hserv.add hne (show m.tgts = s.mshr.tgts ++ [] by simp [hT]) rfl ?_
      (fun j hj => absurd hj not_mem_nil) (fun id hid => Or.inl hid) ?_ hserv.seen
    · rw [hsame.postInvalidate, hsame.postDowngrade]
      exact hserv.taken
    · intro i hi
      exact h.kept.mem_added (mem_append_left _ (mem_append_right _ hi))

theorem inv_markInService {b : Bool} (h : s.Inv) (hstep : s.markInService b = some s') :
    s'.Inv := by
  unfold Cache.markInService at hstep
  split at hstep
  · cases hstep
  rename_i hturn
  have hturn : s.turn = .Allocated := not_not.mp hturn
  obtain ⟨front, hfront, hstep⟩ := Option.bind_eq_some_iff.mp hstep
  obtain ⟨m, hm, hstep⟩ := Option.bind_eq_some_iff.mp hstep
  cases hstep
  obtain ⟨hne, -⟩ := h.place.allocated hturn
  obtain ⟨hT, hdef, hinService⟩ := MSHR.markInService_spec hm
  have hD : m.defd = s.mshr.defd := congrArg (fun l : TargetList => items l.list) hdef
  have hids : m.deferredTargets.list.map (fun t => t.pkt.id) = s.mshr.defd.map Item.id := by
    rw [hdef, MSHR.defd, items, map_map]
    rfl
  refine ⟨?_, ?_, ?_⟩
  · show Kept (items s.returned.flatten ++ m.tgts ++ m.defd) s.added
    rw [hT, hD]
    exact h.kept
  · show MSHR.Shape m.tgts m.defd
    rw [hT, hD]
    exact h.shape
  · show Place _
    rw [Place, hturn]
    refine ⟨by rw [hT]; exact hne, fun _ => ⟨?_, fun htaken => Bool.noConfusion htaken, ?_, ?_⟩⟩
    · intro i hi
      have hhead : s.mshr.tgts.head? = some front.item := by
        rw [MSHR.tgts, head?_items, hfront]
        rfl
      rw [hT, hhead] at hi
      rw [← Option.some.inj hi]
      rfl
    · intro i hi hin
      rw [hT] at hi
      rw [hids] at hin
      have hnodup := h.kept.ids_nodup
      rw [all, map_append, nodup_append] at hnodup
      refine hnodup.2.2 i.id ?_ i.id hin rfl
      exact mem_map_of_mem (mem_append_right _ hi)
    · intro id hid
      rw [hids] at hid
      obtain ⟨i, hi, rfl⟩ := mem_map.mp hid
      exact h.kept.mem_added (mem_append_right _ hi)

theorem inv_recvTimingResp {cmd : MemCmd} {valid writable : Bool} (h : s.Inv)
    (hstep : s.recvTimingResp cmd valid writable = some s') : s'.Inv := by
  unfold Cache.recvTimingResp at hstep
  split at hstep
  · rename_i hguard
    cases hstep
    obtain ⟨hne, hserving⟩ := h.place.allocated hguard.1
    have hserv := hserving hguard.2
    exact ⟨h.kept, h.shape, hne, hserv.taken, fun _ i hi _ => hserv.apart i hi⟩
  · cases hstep

/-- `promoteReadable` and `promoteWritable`: what is promoted either needs no writable block or no
    snoop has taken the block away. -/
theorem Responding.promote {turn : Turn}
    (hserv : s.Responding r) (hmoved : MSHR.Promoted s.mshr m moved)
    (hsame : MSHR.SameService s.mshr m)
    (hw : s.taken = true → ∀ i ∈ moved, i.needsWritable = false) :
    Responding { s with mshr := m, turn := turn } r := by
  constructor
  · rw [hsame.postInvalidate, hsame.postDowngrade]
    exact hserv.taken
  · intro htaken i hi hneeds
    rw [hmoved.to_targets] at hi
    rcases mem_append.mp hi with hi | hi
    · exact hserv.apart htaken i hi hneeds
    · rw [hw htaken i hi] at hneeds
      exact Bool.noConfusion hneeds

theorem inv_promote {turn : Turn} (h : s.Inv)
    (hne : s.mshr.tgts ≠ []) (hserv : s.Responding r) (hmoved : MSHR.Promoted s.mshr m moved)
    (hsame : MSHR.SameService s.mshr m)
    (hw : s.taken = true → ∀ i ∈ moved, i.needsWritable = false)
    (hturn : turn = .PromoteWritable r ∨ turn = .Extract r) :
    Inv { s with mshr := m, turn := turn } := by
  refine ⟨h.kept.promote hmoved, ?_, ?_⟩
  · have hshape := h.shape
    rw [hmoved.from_deferred] at hshape
    show MSHR.Shape m.tgts m.defd
    rw [hmoved.to_targets]
    exact hshape.promote hne
  · have hne' : m.tgts ≠ [] := by
      rw [hmoved.to_targets]
      exact append_ne_nil_of_left_ne_nil hne _
    have hserv' : Responding { s with mshr := m, turn := turn } r := hserv.promote hmoved hsame hw
    rcases hturn with rfl | rfl
    · exact ⟨hne', hserv'⟩
    · exact ⟨hne', hserv'⟩

theorem Responding.of_promoteWritable
    (hserv : s.Responding r) (hreq : r.req.isCacheInvalidate = false)
    (hflags : moved = [] ∨ s.mshr.postInvalidate = false ∧ s.mshr.postDowngrade = false) :
    s.taken = true → ∀ i ∈ moved, i.needsWritable = false := by
  intro htaken i hi
  rcases hflags with rfl | ⟨hI, hD⟩
  · exact absurd hi not_mem_nil
  · -- the snoop has left one of the flags
    rcases hserv.taken htaken with hp | hp | hp
    · exact absurd hp (by simp [hI])
    · exact absurd hp (by simp [hD])
    · exact absurd hp (by simp [hreq])

theorem inv_resp (h : s.Inv) (hstep : s.resp tick = some s') : s'.Inv := by
  have hplace := h.place
  unfold Cache.resp at hstep
  cases hturn : s.turn with
  | Free => simp [hturn] at hstep
  | Allocated => simp [hturn] at hstep
  | PromoteReadable r =>
    simp only [hturn] at hstep
    obtain ⟨hne, hserv⟩ : s.mshr.tgts ≠ [] ∧ s.Responding r := by simpa [Place, hturn] using hplace
    split at hstep
    · obtain ⟨m, hm, rfl⟩ := Option.map_eq_some_iff.mp hstep
      obtain ⟨moved, hmoved, hsame, hw⟩ := MSHR.promoteReadable_spec hm
      exact inv_promote h hne hserv hmoved hsame (fun _ => hw) (Or.inl rfl)
    · cases hstep
      exact inv_promote h hne hserv (MSHR.Promoted.refl _) (MSHR.SameService.refl _)
        (fun _ i hi => absurd hi not_mem_nil) (Or.inl rfl)
  | PromoteWritable r =>
    simp only [hturn] at hstep
    obtain ⟨hne, hserv⟩ : s.mshr.tgts ≠ [] ∧ s.Responding r := by simpa [Place, hturn] using hplace
    split at hstep
    · rename_i hguard
      obtain ⟨m, hm, rfl⟩ := Option.map_eq_some_iff.mp hstep
      obtain ⟨moved, hmoved, hsame, hflags⟩ := MSHR.promoteWritable_spec hm
      have hreq : r.req.isCacheInvalidate = false := by
        simp only [Bool.and_eq_true, Bool.not_eq_true'] at hguard
        exact hguard.2.2
      exact inv_promote h hne hserv hmoved hsame (hserv.of_promoteWritable hreq hflags) (Or.inr rfl)
    · cases hstep
      exact inv_promote h hne hserv (MSHR.Promoted.refl _) (MSHR.SameService.refl _)
        (fun _ i hi => absurd hi not_mem_nil) (Or.inr rfl)
  | Extract r =>
    simp only [hturn] at hstep
    obtain ⟨hne, hserv⟩ : s.mshr.tgts ≠ [] ∧ s.Responding r := by simpa [Place, hturn] using hplace
    obtain ⟨ready, m, hm, hperm, horder, hcpu, hdefd⟩ :=
      MSHR.extractServiceableTargets_spec h.shape hne r.cmd
    rw [hm] at hstep
    cases hstep
    have hunl : ∀ i ∈ m.tgts ++ m.defd, i.locked = false := by
      intro i hi
      refine h.shape.unlocked i (mem_append.mpr ?_)
      rcases mem_append.mp hi with hi | hi
      · exact Or.inl (hperm.mem_iff.mp (mem_append_right _ hi))
      · exact Or.inr (hdefd ▸ hi)
    refine ⟨?_, ?_, hcpu⟩
    · show Kept (items (s.returned ++ [ready.list]).flatten ++ m.tgts ++ m.defd) s.added
      have hall : items (s.returned ++ [ready.list]).flatten ++ m.tgts ++ m.defd =
          items s.returned.flatten ++ (items ready.list ++ m.tgts) ++ s.mshr.defd := by
        simp [hdefd]
      rw [hall]
      refine h.kept.rearrange ((hperm.append_left _).append_right _) ?_
      rw [all, filter_append, filter_append, horder, ← filter_append,
        ← filter_append]
    · exact MSHR.Shape.of_cpu hunl hcpu (hdefd ▸ h.shape.deferred)
  | PromoteDeferredTargets =>
    simp only [hturn] at hstep
    have hcpu : ∀ i ∈ s.mshr.tgts, i.source = .FromCPU := by simpa [Place, hturn] using hplace
    rw [if_neg (by simp [MSHR.not_locked h.shape])] at hstep
    obtain ⟨⟨m, promoted⟩, hm, rfl⟩ := Option.map_eq_some_iff.mp hstep
    obtain ⟨⟨moved, hmoved⟩, hlast⟩ := MSHR.promoteDeferredTargets_spec hm
    have hshape := h.shape
    rw [hmoved.from_deferred] at hshape
    refine ⟨h.kept.promote hmoved, ?_, ?_⟩
    · show MSHR.Shape m.tgts m.defd
      rw [hmoved.to_targets]
      refine MSHR.Shape.of_cpu (fun i hi => hshape.unlocked i ?_) (fun i hi => ?_) (fun i hi => ?_)
      · rwa [← append_assoc]
      · rcases mem_append.mp hi with hi | hi
        · exact hcpu i hi
        · exact hshape.deferred i (mem_append_left _ hi)
      · exact hshape.deferred i (mem_append_right _ hi)
    · cases promoted with
      | true => exact hlast
      | false => exact hlast
  | MarkPending =>
    simp only [hturn] at hstep
    have hne : s.mshr.tgts ≠ [] := by simpa [Place, hturn] using hplace
    split at hstep
    · cases hstep
      exact ⟨h.kept, h.shape, hne, fun hserv => Bool.noConfusion hserv⟩
    · cases hstep
  | Deallocate =>
    simp only [hturn] at hstep
    obtain ⟨m, hm, rfl⟩ := Option.map_eq_some_iff.mp hstep
    have hnil : s.mshr.tgts = [] ∧ s.mshr.defd = [] := by simpa [Place, hturn] using hplace
    unfold MSHR.deallocate at hm
    split at hm
    · cases hm
      exact ⟨h.kept, h.shape, hnil⟩
    · cases hm

theorem inv_step (e : Event) (h : s.Inv) (hstep : s.step e = some s') : s'.Inv := by
  cases e with
  | allocate blk_addr blk_size pkt ready order alloc => exact inv_allocate h hstep
  | allocateTarget pkt ready order alloc => exact inv_allocateTarget h hstep
  | handleSnoop pkt copy order tick => exact inv_handleSnoop h hstep
  | setDownstreamPending =>
    rw [Cache.step] at hstep
    split at hstep
    · rename_i hguard
      cases hstep
      exact h.set_mshr hguard.1 rfl rfl ⟨rfl, rfl, rfl⟩
    · cases hstep
  | clearDownstreamPending =>
    rw [Cache.step] at hstep
    split at hstep
    · rename_i hturn
      obtain ⟨m, hm, rfl⟩ := Option.map_eq_some_iff.mp hstep
      obtain ⟨hT, hD, hsame⟩ := MSHR.clearDownstreamPending_spec hm
      exact h.set_mshr hturn hT hD hsame
    · cases hstep
  | setForward isForward =>
    rw [Cache.step] at hstep
    split at hstep
    · rename_i hguard
      cases hstep
      exact h.set_mshr hguard.1 rfl rfl ⟨rfl, rfl, rfl⟩
    · cases hstep
  | markInService b => exact inv_markInService h hstep
  | recvTimingResp cmd valid writable => exact inv_recvTimingResp h hstep
  | resp tick => exact inv_resp h hstep

theorem inv_initial : Inv {} := ⟨⟨Perm.nil, rfl, List.Pairwise.nil⟩,
    ⟨fun _ hi => absurd hi not_mem_nil, fun _ hi => absurd hi (Option.not_mem_none _),
      fun _ hi => absurd hi not_mem_nil, fun _ hi => absurd hi not_mem_nil⟩, rfl, rfl⟩

/-! ## Every run -/

theorem inv_runs {es : List Event} (h : Trace.runs step {} es = some s) : s.Inv :=
  Trace.runs_invariant Inv (fun _ e _ hinv hstep => inv_step e hinv hstep) inv_initial h

theorem filter_items (ts : List Target) : (items ts).filter (fun i => !i.isSnoop) =
      items (ts.filter fun t => t.source != .FromSnoop) := by
  rw [items, items, filter_map]
  rfl

/-- In every run: the packets added are, each once, in the lists returned, in the targets or in the
    deferred targets; without the snoops, those returned come first and all are in the order in
    which they were added; and when a response is to be handled, the extraction has a result, and if
    a snoop after the request took writability away, no target that needs a writable block and was
    deferred since the request was sent is among those serviced. -/
theorem targets_kept_in_order (es : List Event) (s : Cache) (h : Trace.runs step {} es = some s) :
    (((s.returned.flatten ++ s.mshr.targets.list ++ s.mshr.deferredTargets.list).map fun t =>
        t.pkt.id).Perm (s.added.map Prod.fst) ∧ (s.added.map Prod.fst).Nodup) ∧
      ((s.returned.flatten ++ s.mshr.targets.list ++ s.mshr.deferredTargets.list).filter fun t =>
          t.source != .FromSnoop).map (fun t => t.pkt.id) =
        (s.added.filter fun x => x.2 != .FromSnoop).map Prod.fst ∧
      ∀ r, s.turn = .Extract r → ∃ ready m,
        s.mshr.extractServiceableTargets r.cmd = some (ready, m) ∧
          (s.taken = true → ∀ t ∈ ready.list, t.pkt.cmd.needsWritable = true →
            t.pkt.id ∉ s.deferredSeen) := by
  have hinv := inv_runs h
  have hall : s.all = items (s.returned.flatten ++ s.mshr.targets.list ++
      s.mshr.deferredTargets.list) := by
    simp [all, MSHR.tgts, MSHR.defd]
  have hids : ∀ ts : List Target, ((items ts).map Item.key).map Prod.fst =
      ts.map fun t => t.pkt.id := by
    intro ts
    rw [items, map_map, map_map]
    rfl
  refine ⟨⟨?_, hinv.kept.nodup⟩, ?_, ?_⟩
  · have hperm := hinv.kept.perm.map Prod.fst
    rwa [hall, hids] at hperm
  · rw [← hinv.kept.order, hall, filter_items, hids]
  · intro r hturn
    obtain ⟨hne, hserv⟩ : s.mshr.tgts ≠ [] ∧ s.Responding r := by
      simpa [Place, hturn] using hinv.place
    obtain ⟨ready, m, hm, hperm, -⟩ := MSHR.extractServiceableTargets_spec hinv.shape hne r.cmd
    refine ⟨ready, m, hm, fun htaken t ht hneeds => ?_⟩
    have hmem : t.item ∈ s.mshr.tgts := hperm.mem_iff.mp (mem_append_left _ (mem_map_of_mem ht))
    exact hserv.apart htaken t.item hmem hneeds

/-- A read is in service, a write is deferred, a snoop takes the block, a writable block comes. -/
def snoopedRun : List Event :=
  [.allocate 0 4 ⟨1, .ReadReq, {}, 0, 4, false, false⟩ 0 0 true, .markInService false,
    .allocateTarget ⟨2, .WriteReq, {}, 0, 4, false, false⟩ 1 1 true,
    .handleSnoop ⟨9, .ReadExReq, {}, 0, 4, true, false⟩ 3 2 5,
    .recvTimingResp .ReadResp true true, .resp 6, .resp 6]

theorem snoopedRun_isSome : (Trace.runs step {} snoopedRun).isSome = true := by decide

/-- The deferred write is not served with the block that the snoop takes. -/
theorem targets_kept_in_order_snooped :
    let s := (Trace.runs step {} snoopedRun).get snoopedRun_isSome
    s.taken = true ∧ s.deferredSeen = [2] ∧
      ∃ ready m, s.mshr.extractServiceableTargets .ReadResp = some (ready, m) ∧
        ∀ t ∈ ready.list, t.pkt.cmd.needsWritable = true → t.pkt.id ∉ s.deferredSeen := by
  intro s
  have htaken : s.taken = true := by decide
  have hdeferred : s.deferredSeen = [2] := by decide
  have hturn : s.turn = .Extract ⟨.ReadResp, {}, true, true⟩ := by decide
  obtain ⟨ready, m, hm, hw⟩ := (targets_kept_in_order snoopedRun s
    (Option.some_get snoopedRun_isSome).symm).2.2 _ hturn
  exact ⟨htaken, hdeferred, ready, m, hm, hw htaken⟩

end Cache

end Gem5Dvr.Mshr
