/-
  Where the packets of a miss status holding register are (`mem/cache/mshr.cc` 302-705).

    1. `Item`: what the calls leave of a target.  An upgrade that is replaced and a mark that is
       cleared change the target and not its item.
    2. One lemma a call, on the items of the two lists.
    3. `Shape`: which sources the targets have.  With it no assertion of the extraction fails.
-/
import Gem5Dvr.Mshr

namespace Gem5Dvr.Mshr

open List

/-! ## Items -/

/-- What is followed of a target. -/
structure Item where
  id : Nat
  source : Source
  req : Request
  needsWritable : Bool
  locked : Bool
  deriving DecidableEq

def Target.item (t : Target) : Item :=
  ⟨t.pkt.id, t.source, t.pkt.req, t.pkt.cmd.needsWritable, t.pkt.cmd == .LockedRMWReadReq⟩

def items (ts : List Target) : List Item := ts.map Target.item

def Item.key (i : Item) : Nat × Source := (i.id, i.source)

def Item.isSnoop (i : Item) : Bool := i.source == .FromSnoop

@[simp] theorem items_nil : items [] = [] := rfl

@[simp] theorem items_cons (t : Target) (ts : List Target) : items (t :: ts) = t.item :: items ts :=
  rfl

@[simp] theorem items_append (ts us : List Target) : items (ts ++ us) = items ts ++ items us :=
  map_append

@[simp] theorem items_eq_nil {ts : List Target} : items ts = [] ↔ ts = [] := map_eq_nil_iff

@[simp] theorem length_items (ts : List Target) : (items ts).length = ts.length :=
  length_map Target.item

theorem mem_items {ts : List Target} {i : Item} : i ∈ items ts ↔ ∃ t ∈ ts, t.item = i := mem_map

theorem head?_items (ts : List Target) : (items ts).head? = ts.head?.map Target.item := by
  cases ts <;> rfl

@[simp] theorem items_clearMarks (ts : List Target) :
    items (TargetList.clearMarks ts) = items ts := by
  rw [items, TargetList.clearMarks, map_map]
  rfl

theorem replaceUpgrade_item (t : Target) :
    Target.item { t with pkt := replaceUpgrade t.pkt } = t.item := by
  simp only [Target.item, replaceUpgrade]
  split <;> simp_all [MemCmd.needsWritable]

namespace TargetList

variable (l : TargetList)

/-! The flags do not look at the list, and the list does not look at the flags. -/

@[simp] theorem updateWriteFlags_list (pkt : Packet) : (l.updateWriteFlags pkt).list = l.list := by
  unfold updateWriteFlags
  split
  · rfl
  · split
    · rfl
    · split <;> rfl

@[simp] theorem updateFlags_list (pkt : Packet) (source : Source) (alloc : Bool) :
    (l.updateFlags pkt source alloc).list = l.list := by
  unfold updateFlags
  split
  · dsimp only
    split
    · rw [updateWriteFlags_list]
    · rfl
  · rfl

@[simp] theorem populateFlags_list : l.populateFlags.list = l.list := by
  have hkeep : ∀ (ts : List Target) (l : TargetList),
      (ts.foldl (fun l t => l.updateFlags t.pkt t.source t.allocOnFill) l).list = l.list := by
    intro ts
    induction ts with
    | nil => exact fun l => rfl
    | cons t ts ih =>
      intro l
      rw [foldl_cons, ih, updateFlags_list]
  exact hkeep l.list l.resetFlags

theorem add_list (pkt : Packet) (ready order : Nat) (source : Source) (mark alloc : Bool) :
    (l.add pkt ready order source mark alloc).list =
      l.list ++ [⟨pkt, ready, order, source, mark && pkt.sender, alloc⟩] := by
  simp [add]

theorem items_add (pkt : Packet) (ready order : Nat) (source : Source) (mark alloc : Bool) :
    items (l.add pkt ready order source mark alloc).list = items l.list ++
        [⟨pkt.id, source, pkt.req, pkt.cmd.needsWritable, pkt.cmd == .LockedRMWReadReq⟩] := by
  rw [add_list, items_append]
  rfl

@[simp] theorem items_replaceUpgrades : items l.replaceUpgrades.list = items l.list := by
  unfold replaceUpgrades
  split
  · simp only [items, map_map]
    exact map_congr_left fun t _ => replaceUpgrade_item t
  · rfl

@[simp] theorem items_clearDownstreamPending : items l.clearDownstreamPending.list = items l.list :=
  items_clearMarks l.list

end TargetList

/-! ## What each call does to the items -/

namespace MSHR

variable {m m' : MSHR}

/-- The items of the targets. -/
def tgts (m : MSHR) : List Item := items m.targets.list
/-- The items of the deferred targets. -/
def defd (m : MSHR) : List Item := items m.deferredTargets.list

/-- The call leaves what tells of the request in service. -/
structure SameService (m m' : MSHR) : Prop where
  inService : m'.inService = m.inService
  postInvalidate : m'.postInvalidate = m.postInvalidate
  postDowngrade : m'.postDowngrade = m.postDowngrade

theorem SameService.refl (m : MSHR) : SameService m m := ⟨rfl, rfl, rfl⟩

/-- What `allocateTarget` adds for a packet. -/
def cpuItem (pkt : Packet) : Item :=
  ⟨pkt.id, .FromCPU, pkt.req, pkt.cmd.needsWritable, pkt.cmd == .LockedRMWReadReq⟩

theorem cpuItem_replaceUpgrade (pkt : Packet) : cpuItem (replaceUpgrade pkt) = cpuItem pkt :=
  replaceUpgrade_item ⟨pkt, 0, 0, .FromCPU, false, false⟩

theorem clearDownstreamPending_spec (h : m.clearDownstreamPending = some m') :
    m'.tgts = m.tgts ∧ m'.defd = m.defd ∧ SameService m m' := by
  unfold MSHR.clearDownstreamPending at h
  split at h
  · cases h
    exact ⟨m.targets.items_clearDownstreamPending, rfl, rfl, rfl, rfl⟩
  · cases h

variable {b : Bool} {pkt : Packet} {order tick : Nat}

theorem markInService_spec (h : m.markInService b = some m') :
    m'.tgts = m.tgts ∧ m'.deferredTargets = m.deferredTargets ∧ m'.inService = true := by
  unfold MSHR.markInService at h
  split at h
  · cases h
  · cases h
    refine ⟨?_, rfl, rfl⟩
    show items (if m.downstreamPending then m.targets
      else m.targets.clearDownstreamPending).list = _
    split
    · rfl
    · exact m.targets.items_clearDownstreamPending

/-- What `allocate` adds for a packet. -/
def firstItem (pkt : Packet) : Item :=
  ⟨pkt.id, if pkt.cmd = .HardPFReq then .FromPrefetcher else .FromCPU, pkt.req,
    pkt.cmd.needsWritable, pkt.cmd == .LockedRMWReadReq⟩

theorem allocate_spec (m : MSHR) (blk_addr blk_size : Nat) (pkt : Packet) (ready order : Nat)
    (alloc : Bool) :
    (m.allocate blk_addr blk_size pkt ready order alloc).tgts = m.tgts ++ [firstItem pkt] ∧
      (m.allocate blk_addr blk_size pkt ready order alloc).defd = m.defd ∧
      (m.allocate blk_addr blk_size pkt ready order alloc).inService = false :=
  ⟨(m.targets.init blk_size).items_add pkt ready order _ true alloc, rfl, rfl⟩

/-- Deferred, or among the targets and then nothing is deferred. -/
theorem allocateTarget_spec {ready : Nat} {alloc : Bool}
    (h : m.allocateTarget pkt ready order alloc = some m') :
    SameService m m' ∧ ((m'.targets = m.targets ∧ m'.defd = m.defd ++ [cpuItem pkt]) ∨
        (m.defd = [] ∧ m'.tgts = m.tgts ++ [cpuItem pkt] ∧
          m'.deferredTargets = m.deferredTargets)) := by
  unfold MSHR.allocateTarget at h
  split at h
  · cases h
  obtain ⟨front, hfront, rfl⟩ := Option.map_eq_some_iff.mp h
  cases hdef : m.defers pkt front.pkt with
  | true =>
    refine ⟨⟨rfl, rfl, rfl⟩, Or.inl ⟨rfl, ?_⟩⟩
    show items (TargetList.add _ _ _ _ _ _ _).list = _
    rw [TargetList.items_add]
    show m.defd ++ [cpuItem _] = _
    split
    · rw [cpuItem_replaceUpgrade]
    · rfl
  | false =>
    have hempty : m.deferredTargets.list = [] := by
      simp only [defers, Bool.or_eq_false_iff, Bool.not_eq_false', List.isEmpty_iff] at hdef
      exact hdef.1.2
    refine ⟨⟨rfl, rfl, rfl⟩, Or.inr ⟨items_eq_nil.mpr hempty, ?_, rfl⟩⟩
    exact m.targets.items_add pkt ready order .FromCPU (!m.inService) alloc

/-- A snoop that precedes the request of the register. -/
theorem handleSnoop_precedes {copy : Nat}
    (hpre : (!m.inService || pkt.expressSnoop && m.downstreamPending) = true)
    (h : m.handleSnoop pkt copy order tick = some (m', b)) :
    m'.tgts = m.tgts ∧ m'.defd = m.defd ∧ SameService m m' := by
  unfold MSHR.handleSnoop at h
  split at h
  · cases h
  split at h
  · cases h
    exact ⟨m.targets.items_replaceUpgrades, m.deferredTargets.items_replaceUpgrades, rfl, rfl, rfl⟩
  · cases h
    exact ⟨rfl, rfl, SameService.refl m⟩

/-- What `handleSnoop` adds for a packet. -/
def snoopItem (pkt : Packet) (copy : Nat) : Item :=
  ⟨copy, .FromSnoop, pkt.req, pkt.cmd.needsWritable, pkt.cmd == .LockedRMWReadReq⟩

/-- The flags of the request in service after a snoop that it precedes. -/
structure Snooped (m m' : MSHR) (pkt : Packet) : Prop where
  inService : m'.inService = m.inService
  postInvalidate : m.postInvalidate = true → m'.postInvalidate = true
  postDowngrade : m.postDowngrade = true → m'.postDowngrade = true
  taken : takes pkt = true → m'.postInvalidate = true ∨ m'.postDowngrade = true ∨
    ∃ i ∈ m.tgts.head?, i.req.isCacheInvalidate = true

theorem saveSnoop_tgts (m : MSHR) (pkt : Packet) (copy order tick : Nat) (b : Bool) :
    (m.saveSnoop pkt copy order tick b).tgts = m.tgts ∨
      (m.saveSnoop pkt copy order tick b).tgts = m.tgts ++ [snoopItem pkt copy] := by
  have hadd : items (m.targets.add (m.copySnoop pkt copy b) tick order .FromSnoop
      (m.downstreamPending && m.targets.needsWritable) false).list =
        m.tgts ++ [snoopItem pkt copy] := by
    rw [TargetList.items_add]
    cases b <;> rfl
  unfold saveSnoop
  dsimp only
  split
  · split
    · exact Or.inr hadd
    · exact Or.inl rfl
  · split
    · exact Or.inr hadd
    · exact Or.inl rfl

theorem saveSnoop_defd (m : MSHR) (pkt : Packet) (copy order tick : Nat) (b : Bool) :
    (m.saveSnoop pkt copy order tick b).defd = m.defd := by
  unfold saveSnoop
  dsimp only
  split
  · split <;> rfl
  · split <;> rfl

theorem saveSnoop_snooped (m : MSHR) (pkt : Packet) (copy order tick : Nat) (b : Bool) :
    Snooped m (m.saveSnoop pkt copy order tick b) pkt := by
  have htaken : takes pkt = true → pkt.cmd.isInvalidate = true ∨
      (!pkt.cmd.needsWritable && !pkt.req.isUncacheable) = true := Bool.or_eq_true_iff.mp
  unfold saveSnoop
  dsimp only
  split
  · split
    · exact ⟨rfl, fun h => by simp [h], fun _ => rfl, fun _ => Or.inr (Or.inl rfl)⟩
    · exact ⟨rfl, fun h => h, fun _ => rfl, fun _ => Or.inr (Or.inl rfl)⟩
  · rename_i hdown
    have hinv : takes pkt = true → pkt.cmd.isInvalidate = true := fun htakes =>
      (htaken htakes).resolve_right hdown
    split
    · exact ⟨rfl, fun h => by simp [h], fun h => h, fun htakes => Or.inl (by simp [hinv htakes])⟩
    · rename_i hsave
      exact ⟨rfl, fun h => h, fun h => h, fun htakes => absurd (by simp [hinv htakes]) hsave⟩

/-- A snoop that the request of the register precedes. -/
theorem handleSnoop_follows {copy : Nat}
    (hpre : (!m.inService || pkt.expressSnoop && m.downstreamPending) = false)
    (h : m.handleSnoop pkt copy order tick = some (m', b)) :
    (m'.tgts = m.tgts ∨ m'.tgts = m.tgts ++ [snoopItem pkt copy]) ∧ m'.defd = m.defd ∧
      Snooped m m' pkt := by
  unfold MSHR.handleSnoop at h
  split at h
  · cases h
  rw [if_neg (by simp [hpre])] at h
  obtain ⟨front, hfront, h⟩ := Option.map_eq_some_iff.mp h
  -- the deferred targets keep their items, and the rest of the register is the same
  generalize hm : (if (pkt.cmd.needsWritable || pkt.req.isCacheInvalidate) = true then
    { m with deferredTargets := m.deferredTargets.replaceUpgrades } else m) = n at h hfront
  have hn : n.tgts = m.tgts ∧ n.defd = m.defd ∧ SameService m n := by
    subst hm
    split
    · exact ⟨rfl, m.deferredTargets.items_replaceUpgrades, rfl, rfl, rfl⟩
    · exact ⟨rfl, rfl, SameService.refl m⟩
  obtain ⟨htgts, hdefd, hsame⟩ := hn
  split at h
  · rename_i hpost
    cases h
    refine ⟨Or.inl htgts, hdefd, hsame.inService, fun hp => hsame.postInvalidate ▸ hp,
      fun hp => hsame.postDowngrade ▸ hp, fun _ => ?_⟩
    rcases Bool.or_eq_true_iff.mp hpost with hp | hi
    · exact Or.inl hp
    · refine Or.inr (Or.inr ⟨front.item, ?_, hi⟩)
      rw [← htgts]
      show front.item ∈ (items m'.targets.list).head?
      rw [head?_items, hfront]
      rfl
  · cases h
    have hsnooped := n.saveSnoop_snooped pkt copy order tick
      (n.pendingModified && pkt.cmd.needsResponse && !pkt.cmd.isClean)
    refine ⟨htgts ▸ saveSnoop_tgts n pkt copy order tick _,
      (saveSnoop_defd n pkt copy order tick _).trans hdefd, ?_⟩
    refine ⟨hsnooped.inService.trans hsame.inService, fun hp => ?_, fun hp => ?_, ?_⟩
    · exact hsnooped.postInvalidate (hsame.postInvalidate.trans hp)
    · exact hsnooped.postDowngrade (hsame.postDowngrade.trans hp)
    · rw [← htgts]
      exact hsnooped.taken

/-- The snoops are taken out, and the order of the others is kept. -/
theorem extractSnoops_spec : ∀ {ts : List Target}, (∀ i ∈ items ts, i.source ≠ .FromPrefetcher) →
      ∃ left ready, extractSnoops ts = some (left, ready) ∧
        items left = (items ts).filter (fun i => !i.isSnoop) ∧
        items ready = (items ts).filter Item.isSnoop := by
  intro ts
  induction ts with
  | nil => exact fun _ => ⟨[], [], rfl, rfl, rfl⟩
  | cons t ts ih =>
    intro h
    obtain ⟨left, ready, heq, hleft, hready⟩ := ih fun i hi => h i (mem_cons_of_mem _ hi)
    have ht : t.source ≠ .FromPrefetcher := h t.item mem_cons_self
    have hsource : t.item.source = t.source := rfl
    cases hs : t.source with
    | FromCPU =>
      refine ⟨t :: left, ready, by simp [extractSnoops, heq, hs], ?_, ?_⟩
      · simp [Item.isSnoop, hsource, hs, hleft]
      · simp [Item.isSnoop, hsource, hs, hready]
    | FromSnoop =>
      refine ⟨left, t :: ready, by simp [extractSnoops, heq, hs], ?_, ?_⟩
      · simp [Item.isSnoop, hsource, hs, hleft]
      · simp [Item.isSnoop, hsource, hs, hready]
    | FromPrefetcher => exact absurd hs ht

theorem extractUnlocked_spec : ∀ {ts : List Target}, (∀ i ∈ items ts, i.locked = false) →
    extractUnlocked ts = ([], ts) := by
  intro ts
  induction ts with
  | nil => exact fun _ => rfl
  | cons t ts ih =>
    intro h
    have ht : t.item.locked = false := h t.item mem_cons_self
    have hcmd : t.pkt.cmd ≠ .LockedRMWReadReq := by simpa [Target.item] using ht
    rw [extractUnlocked, if_neg hcmd, ih fun i hi => h i (mem_cons_of_mem _ hi)]

/-- The shape of the lists: nothing locked, the first target no snoop, no prefetch after it, and
    only requests of the CPU deferred. -/
structure Shape (targets deferred : List Item) : Prop where
  unlocked : ∀ i ∈ targets ++ deferred, i.locked = false
  front : ∀ i ∈ targets.head?, i.source ≠ .FromSnoop
  tail : ∀ i ∈ targets.tail, i.source ≠ .FromPrefetcher
  deferred : ∀ i ∈ deferred, i.source = .FromCPU

theorem not_locked (h : Shape m.tgts m.defd) : m.hasLockedRMWReadTarget = false := by
  unfold hasLockedRMWReadTarget
  cases htgts : m.targets.list with
  | nil => rfl
  | cons first rest =>
    have hfirst : first.item ∈ m.tgts ++ m.defd := by simp [tgts, htgts]
    have hlocked := h.unlocked first.item hfirst
    have hcmd : first.pkt.cmd ≠ .LockedRMWReadReq := by simpa [Target.item] using hlocked
    simp [hcmd]

/-- What the extraction leaves and returns is what was there, and without the snoops in the same
    order. -/
theorem extractServiceableTargets_spec (h : Shape m.tgts m.defd) (hne : m.tgts ≠ [])
    (cmd : MemCmd) :
    ∃ ready m', m.extractServiceableTargets cmd = some (ready, m') ∧
      (items ready.list ++ m'.tgts).Perm m.tgts ∧
      (items ready.list ++ m'.tgts).filter (fun i => !i.isSnoop) =
        m.tgts.filter (fun i => !i.isSnoop) ∧
      (∀ i ∈ m'.tgts, i.source = .FromCPU) ∧ m'.defd = m.defd := by
  obtain ⟨first, rest, hlist⟩ : ∃ first rest, m.targets.list = first :: rest :=
    exists_cons_of_ne_nil fun hnil => hne (items_eq_nil.mpr hnil)
  have htgts : m.tgts = first.item :: items rest := by rw [tgts, hlist, items_cons]
  have hfirst : first.item.isSnoop = false := by
    have hfront := h.front first.item (by rw [htgts]; rfl)
    simpa [Item.isSnoop] using hfront
  -- it is enough to know the two lists
  suffices hlists : ∃ left ready, (if cmd = .ReadRespWithInvalidate then extractFirst m.targets.list
      else some (extractUnlocked m.targets.list)) = some (left, ready) ∧
      (items ready ++ items left).Perm m.tgts ∧
      (items ready ++ items left).filter (fun i => !i.isSnoop) =
        m.tgts.filter (fun i => !i.isSnoop) ∧ ∀ i ∈ items left, i.source = .FromCPU by
    obtain ⟨left, ready, heq, hrest⟩ := hlists
    unfold MSHR.extractServiceableTargets
    rw [heq]
    refine ⟨_, _, rfl, ?_⟩
    simpa [tgts, defd] using hrest
  by_cases hcmd : cmd = .ReadRespWithInvalidate
  · have htail : ∀ i ∈ items rest, i.source ≠ .FromPrefetcher := by
      intro i hi
      exact h.tail i (by rw [htgts]; exact hi)
    obtain ⟨left, ready, heq, hleft, hready⟩ := extractSnoops_spec htail
    have hextract : extractFirst m.targets.list = some (left, first :: ready) := by
      have hsource : first.source ≠ .FromSnoop := by simpa [Item.isSnoop, Target.item] using hfirst
      have hlocked := h.unlocked first.item (by simp [htgts])
      have hcmd : first.pkt.cmd ≠ .LockedRMWReadReq := by simpa [Target.item] using hlocked
      rw [hlist, extractFirst, if_neg hsource, if_neg hcmd, heq]
      rfl
    refine ⟨left, first :: ready, by rw [if_pos hcmd, hextract], ?_, ?_, ?_⟩
    · rw [htgts, items_cons, hleft, hready, cons_append]
      exact (filter_append_perm Item.isSnoop (items rest)).cons first.item
    · rw [htgts, items_cons, hleft, hready]
      simp [hfirst, filter_filter]
    · intro i hi
      rw [hleft] at hi
      obtain ⟨hmem, hsnoop⟩ := mem_filter.mp hi
      have hpf := htail i hmem
      cases hs : i.source with
      | FromCPU => rfl
      | FromSnoop => simp [Item.isSnoop, hs] at hsnoop
      | FromPrefetcher => exact absurd hs hpf
  · have hextract : extractUnlocked m.targets.list = ([], m.targets.list) :=
      extractUnlocked_spec fun i hi => h.unlocked i (mem_append_left _ hi)
    refine ⟨[], m.targets.list, by rw [if_neg hcmd, hextract], ?_, ?_, fun i hi => nomatch hi⟩
    · rw [items_nil, append_nil]
      exact Perm.refl _
    · rw [items_nil, append_nil]
      rfl

/-- A part of the deferred targets, from the first one on, goes to the end of the targets. -/
structure Promoted (m m' : MSHR) (moved : List Item) : Prop where
  from_deferred : m.defd = moved ++ m'.defd
  to_targets : m'.tgts = m.tgts ++ moved

theorem Promoted.refl (m : MSHR) : Promoted m m [] := ⟨rfl, (append_nil _).symm⟩

theorem findIfNot_spec {pred : Target → Bool} : ∀ {ts pre post : List Target},
    findIfNot pred ts = some (pre, post) → ts = pre ++ post ∧ ∀ t ∈ pre, pred t = true := by
  intro ts
  induction ts with
  | nil =>
    intro pre post h
    cases h
    exact ⟨rfl, fun t ht => nomatch ht⟩
  | cons t ts ih =>
    intro pre post h
    rw [findIfNot] at h
    split at h
    · cases h
    split at h
    · rename_i hpred
      obtain ⟨⟨pre', post'⟩, hrest, heq⟩ := Option.map_eq_some_iff.mp h
      cases heq
      obtain ⟨hts, hall⟩ := ih hrest
      refine ⟨congrArg (t :: ·) hts, ?_⟩
      intro u hu
      rcases mem_cons.mp hu with rfl | hu
      · exact hpred
      · exact hall u hu
    · cases h
      exact ⟨rfl, fun t ht => nomatch ht⟩

theorem promoteIf_spec {pred : Target → Bool} (h : m.promoteIf pred = some m') :
    ∃ moved, Promoted m m' moved ∧ SameService m m' ∧
      ∀ i ∈ moved, ∃ t, pred t = true ∧ t.item = i := by
  unfold MSHR.promoteIf at h
  split at h
  · cases h
  obtain ⟨⟨pre, post⟩, hfind, rfl⟩ := Option.map_eq_some_iff.mp h
  obtain ⟨hlist, hall⟩ := findIfNot_spec hfind
  refine ⟨items pre, ⟨?_, ?_⟩, ⟨rfl, rfl, rfl⟩, ?_⟩
  · simp [defd, hlist]
  · simp [tgts]
  · intro i hi
    obtain ⟨t, ht, rfl⟩ := mem_items.mp hi
    exact ⟨t, hall t ht, rfl⟩

/-- What `promoteReadable` promotes needs no writable block. -/
theorem promoteReadable_spec (h : m.promoteReadable = some m') :
    ∃ moved, Promoted m m' moved ∧ SameService m m' ∧ ∀ i ∈ moved, i.needsWritable = false := by
  unfold MSHR.promoteReadable at h
  split at h
  · cases h
    exact ⟨[], Promoted.refl m, SameService.refl m, fun i hi => nomatch hi⟩
  obtain ⟨post, hpost, h⟩ := Option.bind_eq_some_iff.mp h
  split at h
  · cases h
    exact ⟨[], Promoted.refl m, SameService.refl m, fun i hi => nomatch hi⟩
  obtain ⟨moved, hmoved, hsame, hpred⟩ := promoteIf_spec h
  refine ⟨moved, hmoved, hsame, fun i hi => ?_⟩
  obtain ⟨t, ht, rfl⟩ := hpred i hi
  simp only [Bool.and_eq_true, Bool.not_eq_true'] at ht
  exact ht.2

/-- `promoteWritable` promotes only where no snoop has set a flag. -/
theorem promoteWritable_spec (h : m.promoteWritable = some m') :
    ∃ moved, Promoted m m' moved ∧ SameService m m' ∧
      (moved = [] ∨ m.postInvalidate = false ∧ m.postDowngrade = false) := by
  have hnone : m = m' → ∃ moved, Promoted m m' moved ∧ SameService m m' ∧
      (moved = [] ∨ m.postInvalidate = false ∧ m.postDowngrade = false) := by
    rintro rfl
    exact ⟨[], Promoted.refl m, SameService.refl m, Or.inl rfl⟩
  unfold MSHR.promoteWritable at h
  split at h
  · exact hnone (Option.some.inj h)
  split at h
  · exact hnone (Option.some.inj h)
  obtain ⟨postI, hpostI, h⟩ := Option.bind_eq_some_iff.mp h
  obtain ⟨postD, hpostD, h⟩ := Option.bind_eq_some_iff.mp h
  split at h
  · exact hnone (Option.some.inj h)
  rename_i hguard
  split at h
  · cases h
  have hI : postI = m.postInvalidate := by
    unfold MSHR.hasPostInvalidate at hpostI
    split at hpostI
    · exact (Option.some.inj hpostI).symm
    · cases hpostI
  have hD : postD = m.postDowngrade := by
    unfold MSHR.hasPostDowngrade at hpostD
    split at hpostD
    · exact (Option.some.inj hpostD).symm
    · cases hpostD
  simp only [Bool.or_eq_true, not_or, Bool.not_eq_true] at hguard
  obtain ⟨moved, hmoved, hsame, -⟩ := promoteIf_spec h
  refine ⟨moved, ⟨hmoved.1, hmoved.2⟩, ⟨hsame.1, hsame.2, hsame.3⟩, Or.inr ⟨?_, ?_⟩⟩
  · rw [← hI]
    exact hguard.1.1
  · rw [← hD]
    exact hguard.1.2

theorem promoteDeferredTargets_spec {promoted : Bool}
    (h : m.promoteDeferredTargets tick = some (m', promoted)) :
    (∃ moved, Promoted m m' moved) ∧
      if promoted then m'.tgts ≠ [] else m'.tgts = [] ∧ m'.defd = [] := by
  unfold MSHR.promoteDeferredTargets at h
  split at h
  · rename_i hempty
    cases h
    simp only [Bool.and_eq_true, List.isEmpty_iff] at hempty
    exact ⟨⟨[], Promoted.refl m⟩, items_eq_nil.mpr hempty.1, items_eq_nil.mpr hempty.2⟩
  · dsimp only at h
    generalize hmoved : (if (m.deferredTargets.list.takeWhile fun t =>
        !t.pkt.req.isCacheMaintenance).isEmpty = true then
      if m.targets.list.isEmpty = true then m.deferredTargets.list.take 1 else []
      else m.deferredTargets.list.takeWhile fun t => !t.pkt.req.isCacheMaintenance) = moved at h
    have hpre : moved <+: m.deferredTargets.list := by
      rw [← hmoved]
      split
      · split
        · exact take_prefix 1 _
        · exact nil_prefix
      · exact takeWhile_prefix _
    obtain ⟨left, hleft⟩ := hpre
    obtain ⟨front, hfront, heq⟩ := Option.map_eq_some_iff.mp h
    cases heq
    refine ⟨⟨items moved, ⟨?_, ?_⟩⟩, ?_⟩
    · simp [defd, ← hleft]
    · simp [tgts]
    · intro hnil
      rw [items_eq_nil.mp hnil] at hfront
      cases hfront

end MSHR

end Gem5Dvr.Mshr
