/-
  The summaries of a target list (`mem/cache/mshr.cc` 80-185, `mshr.hh` 202-286).

    1. `built`: the list that a sequence of `add` calls makes, and its summaries as they were kept.
    2. `Repopulated`: the lists that `extractServiceableTargets` and the promotions populate again.
    3. The crux: `updateFlags` asks the list whether it is empty, and is run by `add` before the
       packet is on the list and by `populateFlags` when it is complete.  So the first target is
       looked at in two ways, and only a write that merges with nothing shows it (`Special`); all
       later targets are looked at in one way.
-/
import Gem5Dvr.MshrTargets

namespace Gem5Dvr.Mshr.TargetList

open List

/-! ## The lists -/

/-- `add`, its arguments taken together; `markedPending` is `markPending`. -/
def addTarget (l : TargetList) (t : Target) : TargetList :=
  l.add t.pkt t.readyTime t.order t.source t.markedPending t.allocOnFill

/-- The initialised list after the calls. -/
def built (blk_size : Nat) (ts : List Target) : TargetList :=
  ts.foldl addTarget (({} : TargetList).init blk_size)

/-- The lists of the register have its block size. -/
structure Sized (m : MSHR) : Prop where
  targets_blkSize : m.targets.blkSize = m.blkSize
  targets_bitmap : m.targets.writesBitmap.length = m.blkSize
  deferred_blkSize : m.deferredTargets.blkSize = m.blkSize
  deferred_bitmap : m.deferredTargets.writesBitmap.length = m.blkSize

/-- A list that a call populates again. -/
inductive Repopulated (m : MSHR) : TargetList → Prop
  | returned {cmd : MemCmd} {ready : TargetList} {m' : MSHR} :
    m.extractServiceableTargets cmd = some (ready, m') → Repopulated m ready
  | left {cmd : MemCmd} {ready : TargetList} {m' : MSHR} :
    m.extractServiceableTargets cmd = some (ready, m') → Repopulated m m'.targets
  | promoted {curTick : Nat} {m' : MSHR} :
    m.promoteDeferredTargets curTick = some (m', true) → Repopulated m m'.targets
  | deferred {curTick : Nat} {m' : MSHR} :
    m.promoteDeferredTargets curTick = some (m', true) → Repopulated m m'.deferredTargets
  | promotedIf {pred : Target → Bool} {m' : MSHR} :
    m.promoteIf pred = some m' → Repopulated m m'.deferredTargets

/-- The summaries of the list are what `populateFlags` makes of its targets; and a list with the same
    targets that is populated again is a whole-line write just when this one is. -/
structure Exact (blk_size : Nat) (ts : List Target) : Prop where
  populateFlags_eq : (built blk_size ts).populateFlags = built blk_size ts
  isWholeLineWrite_eq : ∀ (m : MSHR) (l : TargetList), Sized m → m.blkSize = blk_size →
    Repopulated m l → l.list = (built blk_size ts).list →
      l.isWholeLineWrite = (built blk_size ts).isWholeLineWrite

/-- A write of some bytes that merges with nothing, from the CPU side. -/
def Special (t : Target) : Prop :=
  t.source = .FromCPU ∧ t.pkt.cmd.isWrite = true ∧ t.pkt.req.noMerge = true ∧ 0 < t.pkt.size

instance (t : Target) : Decidable (Special t) := by unfold Special; infer_instance

/-! ## What does not look at the list -/

/-- The update looks at the list only to ask whether it is empty. -/
theorem updateFlags_list_irrel (l : TargetList) (list : List Target) (pkt : Packet) (source : Source)
    (alloc : Bool) (h : list.isEmpty = l.list.isEmpty) :
    ({ l with list := list } : TargetList).updateFlags pkt source alloc =
      { l.updateFlags pkt source alloc with list := list } := by
  unfold updateFlags
  split
  · dsimp only
    split
    · unfold updateWriteFlags isWholeLineWrite
      rw [h]
      split_ifs <;> rfl
    · rfl
  · rfl

/-- The update by a target. -/
def see (l : TargetList) (t : Target) : TargetList := l.updateFlags t.pkt t.source t.allocOnFill

@[simp] theorem see_list (l : TargetList) (t : Target) : (see l t).list = l.list :=
  updateFlags_list l t.pkt t.source t.allocOnFill

/-- The target that `add` puts on the list. -/
def stored (t : Target) : Target := { t with markedPending := t.markedPending && t.pkt.sender }

theorem addTarget_eq (l : TargetList) (t : Target) :
    addTarget l t = { see l t with list := l.list ++ [stored t] } := by
  show ({ see l t with list := (see l t).list ++ [stored t] } : TargetList) = _
  rw [see_list]

/-- On a list that is not empty the updates do not look at it. -/
theorem foldl_see_irrel (ts : List Target) (l : TargetList) (list : List Target) (h : list ≠ [])
    (hl : l.list ≠ []) :
    ts.foldl see { l with list := list } = { ts.foldl see l with list := list } := by
  induction ts generalizing l with
  | nil => rfl
  | cons t ts ih =>
    have hempty : list.isEmpty = l.list.isEmpty := by
      rw [isEmpty_eq_false_iff.mpr h, isEmpty_eq_false_iff.mpr hl]
    rw [foldl_cons, foldl_cons]
    have hsee : see { l with list := list } t = { see l t with list := list } :=
      updateFlags_list_irrel l list t.pkt t.source t.allocOnFill hempty
    rw [hsee]
    exact ih (see l t) (by rwa [see_list])

/-- The targets that come to a list with targets are seen as they are seen again. -/
theorem foldl_addTarget (ts : List Target) (l : TargetList) (hl : l.list ≠ []) :
    ts.foldl addTarget l = { ts.foldl see l with list := l.list ++ ts.map stored } := by
  induction ts generalizing l with
  | nil =>
    rw [map_nil, append_nil]
    rfl
  | cons t ts ih =>
    rw [foldl_cons, addTarget_eq, ih _ (by simp)]
    rw [foldl_see_irrel ts (see l t) _ (by simp) (by rwa [see_list]), append_assoc, foldl_cons]
    rfl

/-! ## The first target -/

/-- The list before any call. -/
def blank (blk_size : Nat) : TargetList := ({} : TargetList).init blk_size

/-- The first target as `add` sees it. -/
def seenFirst (blk_size : Nat) (t : Target) : TargetList :=
  { see (blank blk_size) t with list := [stored t] }

/-- The first target as it is seen again. -/
def seenAgain (blk_size : Nat) (t : Target) : TargetList :=
  see { blank blk_size with list := [stored t] } t

theorem built_cons (blk_size : Nat) (t : Target) (ts : List Target) : built blk_size (t :: ts) =
      { ts.foldl see (seenFirst blk_size t) with list := stored t :: ts.map stored } := by
  show ts.foldl addTarget (addTarget (blank blk_size) t) = _
  rw [addTarget_eq, foldl_addTarget ts _ (by simp)]
  rfl

theorem built_list (blk_size : Nat) (ts : List Target) :
    (built blk_size ts).list = ts.map stored := by
  cases ts with
  | nil => rfl
  | cons t ts => rw [built_cons]; rfl

/-- What the size fixes. -/
theorem updateFlags_bitmap_length (l : TargetList) (pkt : Packet) (source : Source) (alloc : Bool) :
    (l.updateFlags pkt source alloc).writesBitmap.length = l.writesBitmap.length ∧
      (l.updateFlags pkt source alloc).blkSize = l.blkSize := by
  unfold updateFlags
  split
  · dsimp only
    split
    · unfold updateWriteFlags
      dsimp only
      split_ifs <;> simp
    · exact ⟨rfl, rfl⟩
  · exact ⟨rfl, rfl⟩

theorem foldl_see_size (ts : List Target) (l : TargetList) :
    (ts.foldl see l).writesBitmap.length = l.writesBitmap.length ∧
      (ts.foldl see l).blkSize = l.blkSize := by
  induction ts generalizing l with
  | nil => exact ⟨rfl, rfl⟩
  | cons t ts ih =>
    obtain ⟨hlen, hsize⟩ := updateFlags_bitmap_length l t.pkt t.source t.allocOnFill
    obtain ⟨hlen', hsize'⟩ := ih (see l t)
    exact ⟨hlen'.trans hlen, hsize'.trans hsize⟩

variable {blk_size : Nat} {l : TargetList}

/-- Populating a list again forgets all but its targets and its size. -/
theorem populateFlags_of_size (l : TargetList) (hsize : l.blkSize = blk_size)
    (hlen : l.writesBitmap.length = blk_size) :
    l.populateFlags = l.list.foldl see { blank blk_size with list := l.list } := by
  have hreset : l.resetFlags = { blank blk_size with list := l.list } := by
    unfold resetFlags blank init resetFlags
    rw [map_const', hlen, hsize]
    simp
  unfold populateFlags
  rw [hreset]
  rfl

theorem built_size (blk_size : Nat) (ts : List Target) :
    (built blk_size ts).writesBitmap.length = blk_size ∧ (built blk_size ts).blkSize = blk_size := by
  have hblank : (blank blk_size).writesBitmap.length = blk_size := by
    simp [blank, init, resetFlags]
  cases ts with
  | nil => exact ⟨hblank, rfl⟩
  | cons t ts =>
    rw [built_cons]
    obtain ⟨hlen, hsize⟩ := foldl_see_size ts (seenFirst blk_size t)
    obtain ⟨hlen', hsize'⟩ :=
      updateFlags_bitmap_length (blank blk_size) t.pkt t.source t.allocOnFill
    exact ⟨(hlen.trans hlen').trans hblank, hsize.trans hsize'⟩

theorem populateFlags_built (blk_size : Nat) (t : Target) (ts : List Target) :
    (built blk_size (t :: ts)).populateFlags =
      { ts.foldl see (seenAgain blk_size t) with list := stored t :: ts.map stored } := by
  obtain ⟨hlen, hsize⟩ := built_size blk_size (t :: ts)
  have hsee : see { blank blk_size with list := stored t :: ts.map stored } (stored t) =
      { seenAgain blk_size t with list := stored t :: ts.map stored } := by
    have hone := updateFlags_list_irrel { blank blk_size with list := [stored t] }
      (stored t :: ts.map stored) t.pkt t.source t.allocOnFill rfl
    exact hone
  rw [populateFlags_of_size _ hsize hlen, built_list, map_cons, foldl_cons, hsee]
  have hne : (seenAgain blk_size t).list ≠ [] := by
    unfold seenAgain
    simp
  have hfold := foldl_see_irrel ts (seenAgain blk_size t) (stored t :: ts.map stored) (by simp) hne
  rw [foldl_map]
  exact hfold

theorem blank_bitmap (blk_size : Nat) :
    (blank blk_size).writesBitmap = replicate blk_size false := by
  simp [blank, init, resetFlags]

theorem blank_isWholeLineWrite (h : 0 < blk_size) : (replicate blk_size false).all id = false := by
  simp [Nat.pos_iff_ne_zero.mp h]

/-- Nothing of an empty write is marked. -/
theorem mark_nothing (l : List Bool) (offset : Nat) :
    l.mapIdx (fun i b => b || decide (offset ≤ i ∧ i < offset + 0)) = l := by
  refine ext_getElem? fun i => ?_
  rw [getElem?_mapIdx]
  have hnot : decide (offset ≤ i ∧ i < offset + 0) = false := decide_eq_false (by omega)
  cases l[i]? with
  | none => rfl
  | some b => simp only [Option.map_some, hnot, Bool.or_false]

/-- Any other first target looks the same on the list and off it. -/
theorem seenFirst_eq_seenAgain {t : Target} (h : ¬ (Special t ∧ 0 < blk_size)) :
    seenFirst blk_size t = seenAgain blk_size t := by
  unfold seenFirst seenAgain see updateFlags
  split
  · rename_i hsnoop
    split
    · rename_i hprefetch
      have hcpu : t.source = .FromCPU := by
        cases hsource : t.source with
        | FromCPU => rfl
        | FromSnoop => exact absurd hsource hsnoop
        | FromPrefetcher => exact absurd hsource hprefetch
      unfold updateWriteFlags isWholeLineWrite
      dsimp only
      rw [blank_bitmap]
      rcases Nat.eq_zero_or_pos blk_size with rfl | hpos
      · rfl
      rw [blank_isWholeLineWrite hpos]
      cases hwrite : t.pkt.cmd.isWrite with
      | false => rfl
      | true =>
        cases hmerge : t.pkt.req.noMerge with
        | false => rfl
        | true =>
          have hsize : t.pkt.size = 0 := by
            by_contra hne
            exact h ⟨⟨hcpu, hwrite, hmerge, Nat.pos_of_ne_zero hne⟩, hpos⟩
          rw [hsize, mark_nothing]
          rfl
    · rfl
  · rfl

/-- What a special first target leaves: its bytes are marked by `add` only. -/
theorem Special.seen {t : Target} (h : Special t) (hpos : 0 < blk_size) :
    (seenFirst blk_size t).canMergeWrites = false ∧ (seenAgain blk_size t).canMergeWrites = false ∧
      (seenFirst blk_size t).writesBitmap[t.pkt.addr % blk_size]? = some true ∧
      (seenAgain blk_size t).writesBitmap[t.pkt.addr % blk_size]? = some false := by
  obtain ⟨hcpu, hwrite, hmerge, hsize⟩ := h
  have hlt : t.pkt.addr % blk_size < blk_size := Nat.mod_lt _ hpos
  have hblk : (blank blk_size).blkSize = blk_size := rfl
  have hcan : (blank blk_size).canMergeWrites = true := rfl
  have hlist : (blank blk_size).list = [] := rfl
  unfold seenFirst seenAgain see updateFlags
  rw [hcpu]
  unfold updateWriteFlags isWholeLineWrite
  simp only [blank_bitmap, blank_isWholeLineWrite hpos, hwrite, hmerge, hblk, hcan, hlist]
  refine ⟨rfl, rfl, ?_, ?_⟩
  · simp [hlt, hsize]
  · simp [hlt]

theorem updateWriteFlags_of_closed (pkt : Packet) (h : l.canMergeWrites = false) :
    (l.updateWriteFlags pkt).canMergeWrites = false ∧
      (l.updateWriteFlags pkt).writesBitmap = l.writesBitmap := by
  unfold updateWriteFlags
  rw [h]
  split <;> exact ⟨h, rfl⟩

/-- Once nothing merges, the bitmap stays. -/
theorem foldl_see_closed (ts : List Target) (h : l.canMergeWrites = false) :
    (ts.foldl see l).writesBitmap = l.writesBitmap := by
  have hsee : ∀ (l : TargetList) (t : Target), l.canMergeWrites = false →
      (see l t).canMergeWrites = false ∧ (see l t).writesBitmap = l.writesBitmap := by
    intro l t hl
    unfold see updateFlags
    split
    · dsimp only
      split
      · exact updateWriteFlags_of_closed t.pkt hl
      · exact ⟨hl, rfl⟩
    · exact ⟨hl, rfl⟩
  induction ts generalizing l with
  | nil => rfl
  | cons t ts ih =>
    obtain ⟨hclosed, hbitmap⟩ := hsee l t h
    exact (ih hclosed).trans hbitmap

/-- The summaries are exact just when the first target shows no difference. -/
theorem populateFlags_built_iff (blk_size : Nat) (ts : List Target) :
    (built blk_size ts).populateFlags = built blk_size ts ↔
      ¬ ∃ t ∈ ts.head?, Special t ∧ 0 < blk_size := by
  cases ts with
  | nil =>
    refine iff_of_true ?_ (by simp)
    obtain ⟨hlen, hsize⟩ := built_size blk_size []
    exact populateFlags_of_size _ hsize hlen
  | cons t ts =>
    have hhead : (∃ a ∈ (t :: ts).head?, Special a ∧ 0 < blk_size) ↔ Special t ∧ 0 < blk_size := by
      simp
    rw [hhead, populateFlags_built, built_cons]
    constructor
    · rintro heq ⟨hspecial, hpos⟩
      obtain ⟨hfirst, hagain, htrue, hfalse⟩ := hspecial.seen hpos
      have hbitmap := congrArg TargetList.writesBitmap heq
      rw [foldl_see_closed ts hfirst, foldl_see_closed ts hagain] at hbitmap
      rw [hbitmap, htrue] at hfalse
      cases hfalse
    · intro hnot
      rw [seenFirst_eq_seenAgain hnot]

/-! ## The lists that are populated again -/

/-- A list that is populated again is what `populateFlags` makes of its targets. -/
theorem Repopulated.eq_populateFlags {m : MSHR} (hsized : Sized m) (h : Repopulated m l) :
    l = l.list.foldl see { blank m.blkSize with list := l.list } := by
  have hof : ∀ (k : TargetList) (list : List Target), k.blkSize = m.blkSize →
      k.writesBitmap.length = m.blkSize → l = { k with list := list }.populateFlags →
        l = l.list.foldl see { blank m.blkSize with list := l.list } := by
    rintro k list hsize hlen rfl
    rw [populateFlags_list]
    exact populateFlags_of_size _ hsize hlen
  have hblank : (({} : TargetList).init m.blkSize).writesBitmap.length = m.blkSize := by
    simp [init, resetFlags]
  cases h with
  | returned h =>
    obtain ⟨⟨left, ready⟩, -, heq⟩ := Option.map_eq_some_iff.mp h
    cases heq
    exact hof (({} : TargetList).init m.blkSize) ready rfl hblank rfl
  | left h =>
    obtain ⟨⟨left, ready⟩, -, heq⟩ := Option.map_eq_some_iff.mp h
    cases heq
    exact hof m.targets left hsized.targets_blkSize hsized.targets_bitmap rfl
  | promoted h =>
    unfold MSHR.promoteDeferredTargets at h
    split at h
    · cases h
    · obtain ⟨front, -, heq⟩ := Option.map_eq_some_iff.mp h
      cases heq
      exact hof m.targets _ hsized.targets_blkSize hsized.targets_bitmap rfl
  | deferred h =>
    unfold MSHR.promoteDeferredTargets at h
    split at h
    · cases h
    · obtain ⟨front, -, heq⟩ := Option.map_eq_some_iff.mp h
      cases heq
      exact hof m.deferredTargets _ hsized.deferred_blkSize hsized.deferred_bitmap rfl
  | promotedIf h =>
    unfold MSHR.promoteIf at h
    split at h
    · cases h
    · obtain ⟨⟨pre, post⟩, -, rfl⟩ := Option.map_eq_some_iff.mp h
      exact hof m.deferredTargets post hsized.deferred_blkSize hsized.deferred_bitmap rfl

/-- **The summaries are exact** just when the first target is no write that merges with nothing. -/
theorem exact_iff (blk_size : Nat) (ts : List Target) :
    Exact blk_size ts ↔ ¬ ∃ t ∈ ts.head?, Special t ∧ 0 < blk_size := by
  rw [← populateFlags_built_iff]
  refine ⟨Exact.populateFlags_eq, fun hpop => ⟨hpop, ?_⟩⟩
  rintro m l hsized rfl hagain hlist
  obtain ⟨hlen, hsize⟩ := built_size m.blkSize ts
  have hl := hagain.eq_populateFlags hsized
  rw [hlist, ← populateFlags_of_size _ hsize hlen, hpop] at hl
  rw [hl]

/-! ## A secure write of a whole line -/

/-- A secure write of a whole line. -/
def secureLine : Target where
  pkt := { id := 1, cmd := .WriteLineReq, req := { secure := true }, addr := 0x1000, size := 64 }
  readyTime := 0
  order := 0
  source := .FromCPU
  markedPending := true
  allocOnFill := true

/-- It is sent as a write of the whole line, and answered as another. -/
theorem secureLine_not_exact : ¬ ∀ (blk_size : Nat) (ts : List Target), Exact blk_size ts := by
  intro h
  have hpop := (h 64 [secureLine]).populateFlags_eq
  have hwhole : (built 64 [secureLine]).populateFlags.isWholeLineWrite ≠
      (built 64 [secureLine]).isWholeLineWrite := by
    decide +kernel
  exact hwhole (congrArg isWholeLineWrite hpop)

end Gem5Dvr.Mshr.TargetList
