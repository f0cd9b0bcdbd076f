/-
  The allocation invariant of the helper register file, and the anatomy of its mapping operations.

  `Inv` says what a reader may rely on: an unallocated entry is blank; a name used by a mapping is
  allocated, belongs to ONE architectural register and is not waiting to be released.

  `vectorize`, `renameVectorMasked` and `renameScalarMasked` all do the same thing: take fresh
  entries, give one register a new mapping (`Remap`), release what the old mapping used and the new
  one does not.  `vectorize_cases`, `renameVectorMasked_cases` and `renameScalarMasked_cases` cut
  each of them into these parts once; the results on values, on leaks and on borrowed names are all
  read off the parts.
-/
import Gem5Dvr.HelperLoops

namespace Gem5Dvr.HelperRegs

open List Function

open State

/-! ## The invariant -/

/-- The names a mapping refers to: those `conservationValid` looks at. -/
def Mapping.Uses (m : Mapping) (p : Phys) : Prop :=
  (∃ l, m.lanePhysical l = some p) ∨ (m.vectorized = true ∧ ∃ c, m.vector c = some p) ∨
    (m.vectorized = false ∧ m.scalar = some p)

/-- The allocation invariant: an unallocated entry is blank, a used name is allocated, belongs to
    one architectural register and is not waiting to be released. -/
structure Inv (s : State) : Prop where
  blank : s.Blank
  marked : ∀ p, s.file.allocated p = true → (s.file.physical p).allocated = true
  used : ∀ a p, (s.file.vrat a).Uses p → s.file.allocated p = true
  owner : ∀ a b p, (s.file.vrat a).Uses p → (s.file.vrat b).Uses p → a = b
  live : ∀ a p, (s.file.vrat a).Uses p → (s.file.physical p).pendingRelease = false

variable {s t : State} {p q : Phys} {arch : Arch}

theorem Inv.sameBooks (h : Inv s) (hb : SameBooks s t) (hv : t.file.vrat = s.file.vrat) :
    Inv t := by
  refine ⟨hb.blank h.blank, fun p hp => ?_, fun a p hu => ?_, fun a b p ha hc => ?_,
    fun a p hu => ?_⟩
  · rw [hb.marked]
    exact h.marked p (hb.allocated ▸ hp)
  · rw [hb.allocated]
    exact h.used a p (hv ▸ hu)
  · exact h.owner a b p (hv ▸ ha) (hv ▸ hc)
  · rw [hb.pendingRelease]
    exact h.live a p (hv ▸ hu)

/-- An entry nobody uses may be reclaimed. -/
theorem Inv.reclaim (h : Inv s) (hp : ∀ a, ¬ (s.file.vrat a).Uses p) : Inv (s.reclaim p) := by
  have hne : ∀ a q, ((s.reclaim p).file.vrat a).Uses q → q ≠ p := by
    rintro a q hu rfl
    exact hp a hu
  refine ⟨reclaim_blank h.blank, fun q hq => ?_, fun a q hu => ?_, h.owner, fun a q hu => ?_⟩
  · have hqp : q ≠ p := by
      rintro rfl
      simp at hq
    rw [reclaim_allocated, update_of_ne hqp] at hq
    rw [reclaim_physical, update_of_ne hqp]
    exact h.marked q hq
  · rw [reclaim_allocated, update_of_ne (hne a q hu)]
    exact h.used a q hu
  · rw [reclaim_physical, update_of_ne (hne a q hu)]
    exact h.live a q hu

variable {e : PhysicalRegister}

/-- Bookkeeping on one allocated entry that keeps what the invariant reads. -/
theorem Inv.setEntry (h : Inv s) (ha : s.file.allocated p = true) (hm : e.allocated = true)
    (hpend : (∃ a, (s.file.vrat a).Uses p) → e.pendingRelease = false) : Inv (s.setEntry p e) := by
  refine ⟨fun q hq => ?_, fun q hq => ?_, h.used, h.owner, fun a q hu => ?_⟩
  · have hqp : q ≠ p := by
      rintro rfl
      simp [ha] at hq
    rw [setEntry_physical, update_of_ne hqp]
    exact h.blank q hq
  · by_cases hqp : q = p
    · subst hqp; simpa using hm
    · rw [setEntry_physical, update_of_ne hqp]
      exact h.marked q hq
  · by_cases hqp : q = p
    · subst hqp; simpa using hpend ⟨a, hu⟩
    · rw [setEntry_physical, update_of_ne hqp]
      exact h.live a q hu

/-- `markDead` of a name no mapping uses. -/
theorem Inv.markDead (h : Inv s) (hp : ∀ a, ¬ (s.file.vrat a).Uses p) :
    Inv (s.markDead (some p)) := by
  simp only [State.markDead]
  split_ifs with hu
  · have ha : s.file.allocated p = true := by
      by_contra hne
      have hb := h.blank p (by simpa using hne)
      exact hu (show (s.file.physical p).book.users = 0 by rw [hb])
    exact h.setEntry ha (h.marked p ha) (fun ⟨a, hua⟩ => absurd hua (hp a))
  · exact h.reclaim hp

theorem markDead_vrat (phys : Option Phys) : (s.markDead phys).file.vrat = s.file.vrat := by
  cases phys with
  | none => rfl
  | some p =>
    simp only [State.markDead]
    split_ifs <;> rfl

theorem Inv.retainPhysical (h : Inv s) (phys : Option Phys) : Inv (s.retainPhysical phys) := by
  cases phys with
  | none => exact h
  | some p =>
    simp only [State.retainPhysical]
    split_ifs with ha
    · exact h
    · have ha : s.file.allocated p = true := by simpa using ha
      exact h.setEntry ha (h.marked p ha) (fun ⟨a, hu⟩ => h.live a p hu)

theorem Inv.releasePhysical (h : Inv s) (phys : Option Phys) : Inv (s.releasePhysical phys) := by
  cases phys with
  | none => exact h
  | some p =>
    simp only [State.releasePhysical]
    split_ifs with ha hz
    · exact h
    · -- a name waiting to be released is used by nobody
      have ha : s.file.allocated p = true := by simpa using ha
      have hset := h.setEntry (e := { s.file.physical p with
        users := (s.file.physical p).users - 1 }) ha (h.marked p ha) (fun ⟨a, hu⟩ => h.live a p hu)
      refine hset.reclaim fun a hu => ?_
      have hlive := hset.live a p hu
      rw [hz.2] at hlive
      cases hlive
    · have ha : s.file.allocated p = true := by simpa using ha
      exact h.setEntry ha (h.marked p ha) (fun ⟨a, hu⟩ => h.live a p hu)

/-! ## Taking entries and moving mappings -/

theorem freshVector_pending {ids : List PhysReg}
    (h : e.book = freshVector ids) : e.pendingRelease = false ∧ e.allocated = true :=
  ⟨show e.book.pendingRelease = false by rw [h]; rfl, show e.book.allocated = true by rw [h]; rfl⟩

theorem freshScalar_pending {id : Option PhysReg}
    (h : e.book = freshScalar id) : e.pendingRelease = false ∧ e.allocated = true :=
  ⟨show e.book.pendingRelease = false by rw [h]; rfl, show e.book.allocated = true by rw [h]; rfl⟩

theorem freshScalar_users {id : Option PhysReg} (h : e.book = freshScalar id) : e.users = 0 :=
  show e.book.users = 0 by rw [h]; rfl

/-- Fresh entries were taken: what a bundle and a scalar entry have in common. -/
structure Took (s t : State) (fresh : List Phys) : Prop where
  shared : t.file.shared = s.file.shared
  vrat : t.file.vrat = s.file.vrat
  free : ∀ q ∈ fresh, s.file.allocated q = false
  allocated : ∀ q, t.file.allocated q = (s.file.allocated q || decide (q ∈ fresh))
  kept : ∀ q, q ∉ fresh → t.file.physical q = s.file.physical q
  clean : ∀ q ∈ fresh, (t.file.physical q).pendingRelease = false ∧
    (t.file.physical q).allocated = true
  blank : t.Blank
  total : s.file.shared = true → ∀ r, t.total r = s.total r

variable {u : State} {fresh : List Phys}

theorem Takes.took (ht : Takes s u fresh) (hfree : ∀ q ∈ fresh, s.file.allocated q = false) :
    Took s u fresh where
  shared := ht.shared
  vrat := ht.vrat
  free := hfree
  allocated := ht.allocated
  kept := ht.kept
  clean q hq := by
    obtain ⟨ids, hf⟩ := ht.fresh q hq
    exact freshVector_pending hf
  blank := ht.blank
  total := ht.total

theorem TakesScalar.took (ht : TakesScalar s u p) : Took s u [p] where
  shared := ht.shared
  vrat := ht.vrat
  free q hq := by
    rw [mem_singleton.mp hq]
    exact ht.free
  allocated q := by
    rw [ht.allocated]
    by_cases hqp : q = p
    · subst hqp; simp
    · simp [hqp]
  kept q hq := ht.kept q (by simpa using hq)
  clean q hq := by
    obtain ⟨id, hf⟩ := ht.fresh
    rw [mem_singleton.mp hq]
    exact freshScalar_pending hf
  blank := ht.blank
  total := ht.total

theorem Took.not_mem (ht : Took s u fresh) (h : Inv s) {a : Arch} (hu : (s.file.vrat a).Uses q) :
    q ∉ fresh := by
  intro hq
  have := h.used a q hu
  simp [ht.free q hq] at this

theorem Inv.took (h : Inv s) (ht : Took s t fresh) : Inv t := by
  have hkeep : ∀ a q, (t.file.vrat a).Uses q → q ∉ fresh := fun a q hu =>
    ht.not_mem h (ht.vrat ▸ hu)
  refine ⟨ht.blank, fun q hq => ?_, fun a q hu => ?_, fun a b q ha hb => ?_, fun a q hu => ?_⟩
  · by_cases hql : q ∈ fresh
    · exact (ht.clean q hql).2
    · rw [ht.kept q hql]
      exact h.marked q (by simpa [ht.allocated, hql] using hq)
  · rw [ht.allocated, h.used a q (ht.vrat ▸ hu)]
    rfl
  · exact h.owner a b q (ht.vrat ▸ ha) (ht.vrat ▸ hb)
  · rw [ht.kept q (hkeep a q hu)]
    exact h.live a q (ht.vrat ▸ hu)

/-- What was there before reads as before. -/
theorem Took.readPhysical (ht : Took s u fresh) (hs : s.file.shared = false) {phys : Option Phys}
    (hnot : ∀ q, phys = some q → q ∉ fresh) (lane : Lane) :
    u.readPhysical phys lane = s.readPhysical phys lane := by
  refine readPhysical_congr hs (ht.shared.trans hs) (fun q hq => ?_)
    (fun q hq => ht.kept q (hnot q hq)) lane
  rw [ht.allocated, decide_eq_false (hnot q hq), Bool.or_false]

/-! ## Stale names -/

theorem mem_pushDistinct {result : List Phys} {phys : Option Phys} :
    p ∈ pushDistinct result phys ↔ p ∈ result ∨ phys = some p := by
  cases phys with
  | none => simp [pushDistinct]
  | some q =>
    by_cases hq : q ∈ result
    · simp only [pushDistinct, if_pos hq, Option.some.injEq]
      exact ⟨Or.inl, fun h => h.elim id (fun h => h ▸ hq)⟩
    · simp [pushDistinct, hq, eq_comm]

theorem mem_distinct {l : List (Option Phys)} : p ∈ distinct l ↔ some p ∈ l := by
  have main : ∀ (l : List (Option Phys)) (acc : List Phys),
      p ∈ l.foldl pushDistinct acc ↔ p ∈ acc ∨ some p ∈ l := by
    intro l
    induction l with
    | nil => simp
    | cons x l ih =>
      intro acc
      rw [foldl_cons, ih, mem_pushDistinct, mem_cons, or_assoc, eq_comm]
  simpa [distinct] using main l []

theorem uses_of_mem_physicalMappings (h : p ∈ s.physicalMappings arch) :
    (s.file.vrat arch).Uses p := by
  simp only [physicalMappings] at h
  split_ifs at h with hemp hvec
  · obtain ⟨c, -, hc⟩ := mem_map.mp (mem_distinct.mp h)
    exact Or.inr (Or.inl ⟨hvec, c, hc⟩)
  · exact Or.inr (Or.inr ⟨by simpa using hvec, by simpa using h⟩)
  · obtain ⟨l, -, hl⟩ := mem_map.mp (mem_distinct.mp h)
    exact Or.inl ⟨l, hl⟩

theorem mem_physicalMappings_of_lane {lane : Lane}
    (h : (s.file.vrat arch).lanePhysical lane = some p) :
    p ∈ s.physicalMappings arch := by
  have hmem : p ∈ distinct ((finRange 128).map (s.file.vrat arch).lanePhysical) :=
    mem_distinct.mpr (mem_map.mpr ⟨lane, mem_finRange lane, h⟩)
  simp only [physicalMappings]
  rw [if_neg (by simpa using ne_nil_of_mem hmem)]
  exact hmem

/-- The release loop only calls `markDead`, on stale names, and moves no mapping. -/
theorem releaseStale_rule {P : State → Prop} {old_phys : List Phys} (h0 : P s)
    (hstep : ∀ t p, p ∈ old_phys → p ∉ s.physicalMappings arch → t.file.vrat = s.file.vrat →
      P t → P (t.markDead (some p))) :
    P (s.releaseStale arch old_phys) ∧ (s.releaseStale arch old_phys).file.vrat = s.file.vrat := by
  have main : ∀ (l : List Phys) (t : State), (∀ p ∈ l, p ∈ old_phys) →
      P t ∧ t.file.vrat = s.file.vrat →
      P (l.foldl (releaseUnless (s.physicalMappings arch)) t) ∧
        (l.foldl (releaseUnless (s.physicalMappings arch)) t).file.vrat = s.file.vrat := by
    intro l
    induction l with
    | nil => intro t _ h; exact h
    | cons p l ih =>
      rintro t hl ⟨ht, hv⟩
      refine ih _ (fun q hq => hl q (mem_cons_of_mem p hq)) ?_
      unfold releaseUnless
      split_ifs with hc
      · exact ⟨ht, hv⟩
      · exact ⟨hstep t p (hl p mem_cons_self) hc hv ht, (markDead_vrat _).trans hv⟩
  exact main old_phys s (fun _ h => h) ⟨h0, rfl⟩

theorem Inv.releaseStale (h : Inv s) {old_phys : List Phys}
    (hold : ∀ p ∈ old_phys, p ∉ s.physicalMappings arch → ∀ a, ¬ (s.file.vrat a).Uses p) :
    Inv (s.releaseStale arch old_phys) :=
  (releaseStale_rule h fun _ p hp hc hv ht => ht.markDead (fun a => hv ▸ hold p hp hc a)).1

/-! ## Anatomy of the mapping operations

    `vectorize` and the two renames fail without a trace (`Unchanged`), or take fresh entries, give
    one architectural register a new mapping (`Remap`) and then release what the old one used. -/

/-- A failed operation: entries may have been taken and given back. -/
structure Unchanged (s t : State) : Prop where
  shared : t.file.shared = s.file.shared
  vrat : t.file.vrat = s.file.vrat
  allocated : t.file.allocated = s.file.allocated
  kept : ∀ q, s.file.allocated q = true → t.file.physical q = s.file.physical q
  blank : t.Blank
  total : s.file.shared = true → ∀ r, t.total r = s.total r

theorem Unchanged.inv (hu : Unchanged s t) (h : Inv s) : Inv t := by
  have hused : ∀ a q, (t.file.vrat a).Uses q → t.file.physical q = s.file.physical q :=
    fun a q hq => hu.kept q (h.used a q (hu.vrat ▸ hq))
  refine ⟨hu.blank, fun q hq => ?_, fun a q hq => ?_, fun a b q ha hb => ?_, fun a q hq => ?_⟩
  · rw [hu.allocated] at hq
    rw [hu.kept q hq]
    exact h.marked q hq
  · rw [hu.allocated]
    exact h.used a q (hu.vrat ▸ hq)
  · exact h.owner a b q (hu.vrat ▸ ha) (hu.vrat ▸ hb)
  · rw [hused a q hq]
    exact h.live a q (hu.vrat ▸ hq)

/-- The register `arch` gets the mapping `m`, which uses old lanes of its own or fresh entries. -/
structure Remap (s t : State) (arch : Arch) (m : Mapping) (fresh : List Phys) : Prop where
  shared : t.file.shared = s.file.shared
  vrat : t.file.vrat = update s.file.vrat arch m
  free : ∀ q ∈ fresh, s.file.allocated q = false
  allocated : ∀ q, t.file.allocated q = (s.file.allocated q || decide (q ∈ fresh))
  kept : ∀ q, q ∉ fresh → t.file.physical q = s.file.physical q
  clean : ∀ q ∈ fresh, (t.file.physical q).pendingRelease = false ∧
    (t.file.physical q).allocated = true
  blank : t.Blank
  total : s.file.shared = true → ∀ r, t.total r = s.total r
  lanes : ∀ l p, m.lanePhysical l = some p → (s.file.vrat arch).lanePhysical l = some p ∨ p ∈ fresh
  uses : ∀ p, m.Uses p → (∃ l, m.lanePhysical l = some p) ∨ p ∈ fresh

section Remap

variable {m : Mapping}

theorem Remap.inv (hr : Remap s t arch m fresh) (h : Inv s) : Inv t := by
  have hold : ∀ a q, (t.file.vrat a).Uses q → (s.file.vrat a).Uses q ∨ a = arch ∧ q ∈ fresh := by
    intro a q hu
    rw [hr.vrat] at hu
    by_cases ha : a = arch
    · subst ha
      rw [update_self] at hu
      rcases hr.uses q hu with ⟨l, hl⟩ | hf
      · exact (hr.lanes l q hl).imp (fun h => Or.inl ⟨l, h⟩) (fun h => ⟨rfl, h⟩)
      · exact Or.inr ⟨rfl, hf⟩
    · rw [update_of_ne ha] at hu
      exact Or.inl hu
  have hnot : ∀ a q, (s.file.vrat a).Uses q → q ∉ fresh := fun a q hu hf => by
    have := h.used a q hu
    simp [hr.free q hf] at this
  refine ⟨hr.blank, fun q hq => ?_, fun a q hu => ?_, fun a b q ha hb => ?_, fun a q hu => ?_⟩
  · by_cases hf : q ∈ fresh
    · exact (hr.clean q hf).2
    · rw [hr.kept q hf]
      exact h.marked q (by simpa [hr.allocated, hf] using hq)
  · rcases hold a q hu with hu | ⟨-, hf⟩
    · simp [hr.allocated, h.used a q hu]
    · simp [hr.allocated, hf]
  · rcases hold a q ha with ha | ⟨ha, hf⟩ <;> rcases hold b q hb with hb | ⟨hb, hf'⟩
    · exact h.owner a b q ha hb
    · exact absurd hf' (hnot a q ha)
    · exact absurd hf (hnot b q hb)
    · rw [ha, hb]
  · rcases hold a q hu with hu | ⟨-, hf⟩
    · rw [hr.kept q (hnot a q hu)]
      exact h.live a q hu
    · exact (hr.clean q hf).1

/-- A name the old mapping used and the lanes of the new one do not is used by nobody. -/
theorem Remap.stale (hr : Remap s t arch m fresh) (h : Inv s) (hp : (s.file.vrat arch).Uses p)
    (hlane : ∀ l, m.lanePhysical l ≠ some p) (a : Arch) : ¬ (t.file.vrat a).Uses p := by
  intro hu
  rw [hr.vrat] at hu
  by_cases ha : a = arch
  · subst ha
    rw [update_self] at hu
    rcases hr.uses p hu with ⟨l, hl⟩ | hf
    · exact hlane l hl
    · have := h.used a p hp
      simp [hr.free p hf] at this
  · rw [update_of_ne ha] at hu
    exact ha (h.owner a arch p hu hp)

/-- The end of a rename. -/
theorem Remap.releaseStale_inv (hr : Remap s t arch m fresh) (h : Inv s) :
    Inv (t.releaseStale arch (s.physicalMappings arch)) := by
  refine (hr.inv h).releaseStale fun p hp hc a => ?_
  refine hr.stale h (uses_of_mem_physicalMappings hp) (fun l hl => hc ?_) a
  have hlane : (t.file.vrat arch).lanePhysical l = some p := by
    rw [hr.vrat, update_self, hl]
  exact mem_physicalMappings_of_lane hlane

end Remap

theorem unchanged_of_bundle_none (h : s.Blank) (hn : s.allocateVectorBundle = (none, t)) :
    Unchanged s t := by
  obtain ⟨-, hv, hs, hal, hb, hk, ht⟩ := allocateVectorBundle_none h hn
  exact ⟨hs, hv, hal, hk, hb, ht⟩

/-- What is mapped is used. -/
theorem uses_of_physicalIndex {lane : Lane} (h : s.physicalIndex arch lane = some p) :
    (s.file.vrat arch).Uses p := by
  simp only [physicalIndex] at h
  split at h
  · rename_i hl
    exact Or.inl ⟨lane, hl.trans h⟩
  · split_ifs at h with hv
    · exact Or.inr (Or.inl ⟨hv, _, h⟩)
    · exact Or.inr (Or.inr ⟨by simpa using hv, h⟩)

/-- Entries taken, values moved, one mapping replaced. -/
theorem Took.remap {m : Mapping} (ht : Took s u fresh) (hb : SameBooks u t)
    (hv : t.file.vrat = update s.file.vrat arch m)
    (hk : ∀ q, q ∉ fresh → t.file.physical q = u.file.physical q)
    (hl : ∀ l p, m.lanePhysical l = some p → (s.file.vrat arch).lanePhysical l = some p ∨ p ∈ fresh)
    (hu : ∀ p, m.Uses p → (∃ l, m.lanePhysical l = some p) ∨ p ∈ fresh) :
    Remap s t arch m fresh where
  shared := hb.shared.trans ht.shared
  vrat := hv
  free := ht.free
  allocated q := by rw [hb.allocated, ht.allocated]
  kept q hq := (hk q hq).trans (ht.kept q hq)
  clean q hq := by
    rw [hb.pendingRelease, hb.marked]
    exact ht.clean q hq
  blank := hb.blank ht.blank
  total hs r := by rw [hb.total, ht.total hs]
  lanes := hl
  uses := hu

/-- A lane is read from where it was. -/
theorem Took.physicalIndex (ht : Took s u fresh) (lane : Lane) :
    u.physicalIndex arch lane = s.physicalIndex arch lane := by
  simp only [State.physicalIndex, ht.vrat]

theorem Took.source (ht : Took s u fresh) (h : Inv s) {lane : Lane}
    (hq : u.physicalIndex arch lane = some q) : q ∉ fresh :=
  ht.not_mem h (uses_of_physicalIndex (ht.physicalIndex lane ▸ hq))

/-- A masked rename: fresh entries taken, the lane loop run and the summary of the lanes set. -/
theorem Took.rename (ht : Took s u fresh) (h : Inv s) {active_mask : LaneMask}
    {phys : Lane → Phys} {element store : Lane → Lane} {vec : Bool} (hphys : ∀ l, phys l ∈ fresh)
    (hloop : RenameLoop arch active_mask phys element store vec u (finRange 128) t) {m : Mapping}
    (hm : m.lanePhysical = (moveLanes (s.file.vrat arch) active_mask phys element vec
      (finRange 128)).lanePhysical)
    (huses : ∀ p, m.Uses p → (∃ l, m.lanePhysical l = some p) ∨ p ∈ fresh) :
    Remap s (t.setMapping arch m) arch m fresh ∧
      (s.file.shared = false → ∀ l, laneActive active_mask l = true →
        (t.file.physical (phys l)).values (store l) = s.read arch l) := by
  refine ⟨ht.remap (hloop.books.trans (sameBooks_setMapping _ _)) ?_
    (fun q hq => hloop.kept q fun l hl => hq (hl ▸ hphys l)) (fun l p hp => ?_) huses,
    fun hs l hact => ?_⟩
  · simp only [setMapping, hloop.vrat, update_idem, ht.vrat]
  · rw [hm] at hp
    simp only [moveLanes, mem_finRange, true_and] at hp
    split_ifs at hp
    · exact Or.inr (Option.some.inj hp ▸ hphys l)
    · exact Or.inl hp
  · rw [hloop.copied (ht.shared.trans hs) l (mem_finRange l) hact]
    have hlane : u.physicalLane arch l = s.physicalLane arch l := by
      simp only [physicalLane, ht.vrat]
    simp only [State.read, ht.physicalIndex, hlane]
    exact ht.readPhysical hs (fun q hq => ht.source h (ht.physicalIndex l ▸ hq)) _

theorem bundle_took (h : Inv s) {bundle : Copy → Phys}
    (hall : s.allocateVectorBundle = (some bundle, u)) :
    Injective bundle ∧ (∀ c, 256 ≤ (bundle c).val) ∧ Took s u (bundleNames bundle) := by
  obtain ⟨hinj, hfree, htk⟩ := allocateVectorBundle_some h.blank hall
  refine ⟨hinj, fun c => (hfree c).1, htk.took fun q hq => ?_⟩
  obtain ⟨c, rfl⟩ := mem_bundleNames.mp hq
  exact (hfree c).2

theorem Took.allocated_bundle {bundle : Copy → Phys} (ht : Took s u (bundleNames bundle))
    (c : Copy) :
    u.file.allocated (bundle c) = true := by
  simp [ht.allocated]

/-- The mapping `vectorize` installs. -/
def vectorizedMapping (bundle : Copy → Phys) : Mapping where
  scalar := none
  vector copy := some (bundle copy)
  vectorized := true
  lanePhysical lane := some (bundle (copyOf lane))
  laneElement := elementOf
  laneVectorized _ := true

/-- `vectorize`: nothing to do, no bundle, or a new mapping and the old scalar name released.  The
    values are copied from the scalar entry; without one they are zero. -/
theorem vectorize_cases (h : Inv s) (arch : Arch) :
    ((s.file.vrat arch).vectorized = true ∧ s.vectorize arch = (true, s)) ∨
    (∃ t, s.vectorize arch = (false, t) ∧ (freeVectors s).length < 16 ∧ Unchanged s t) ∨
    (∃ bundle t, (s.file.vrat arch).vectorized = false ∧
      s.vectorize arch = (true, t.markDead (s.file.vrat arch).scalar) ∧
      Injective bundle ∧ (∀ c, 256 ≤ (bundle c).val) ∧
      Remap s t arch (vectorizedMapping bundle) (bundleNames bundle) ∧
      (s.file.shared = false → ∀ l, (t.file.physical (bundle (copyOf l))).values (elementOf l)
        = if (s.file.vrat arch).scalar.isSome then s.readPhysical (s.file.vrat arch).scalar l
          else 0)) := by
  unfold vectorize
  by_cases hv : (s.file.vrat arch).vectorized = true
  · exact Or.inl ⟨hv, by rw [if_pos hv]⟩
  refine Or.inr ?_
  rw [if_neg hv]
  rcases hall : s.allocateVectorBundle with ⟨_ | bundle, u⟩
  · exact Or.inl ⟨u, rfl, (allocateVectorBundle_none h.blank hall).1,
      unchanged_of_bundle_none h.blank hall⟩
  · refine Or.inr ?_
    obtain ⟨hinj, hfree, htk⟩ := bundle_took h hall
    have hnot : ∀ q, (s.file.vrat arch).scalar = some q → q ∉ bundleNames bundle := fun q hq =>
      htk.not_mem h (Or.inr (Or.inr ⟨by simpa using hv, hq⟩))
    have hloop := vectorizeLoop hinj (htk.allocated_bundle)
      fun q hq c hc => hnot q hq (mem_bundleNames.mpr ⟨c, hc⟩)
    refine ⟨bundle, ((finRange 128).foldl (vectorizeLane bundle (s.file.vrat arch).scalar)
      u).setMapping arch (vectorizedMapping bundle), by simpa using hv, ?_, hinj, hfree, ?_,
      fun hs l => ?_⟩
    · simp only [htk.vrat]
      rfl
    · refine htk.remap (hloop.books.trans (sameBooks_setMapping _ _)) ?_
        (fun q hq => hloop.kept q (fun c hc => hq (mem_bundleNames.mpr ⟨c, hc⟩))) ?_ ?_
      · simp only [setMapping, hloop.vrat, htk.vrat]
      · intro l p hp
        exact Or.inr (mem_bundleNames.mpr ⟨_, Option.some.inj hp⟩)
      · rintro p (⟨l, hl⟩ | ⟨-, c, hc⟩ | ⟨hf, -⟩)
        · exact Or.inl ⟨l, hl⟩
        · exact Or.inr (mem_bundleNames.mpr ⟨c, Option.some.inj hc⟩)
        · cases hf
    · have hcop := hloop.copied (htk.shared.trans hs) l (mem_finRange l)
      rw [htk.readPhysical hs hnot] at hcop
      exact hcop

/-- The mapping `renameVectorMasked` installs. -/
def renamedVector (m : Mapping) (active_mask : LaneMask) (bundle : Copy → Phys) : Mapping :=
  let m := moveLanes m active_mask (fun l => bundle (copyOf l)) elementOf true (finRange 128)
  { m with vector := fun copy => some (bundle copy), scalar := none,
           vectorized := (finRange 128).all m.laneVectorized }

/-- The mapping `renameScalarMasked` installs. -/
def renamedScalar (m : Mapping) (active_mask : LaneMask) (p : Phys) : Mapping :=
  let m := moveLanes m active_mask (fun _ => p) (fun _ => 0) false (finRange 128)
  { m with vector := fun _ => none, vectorized := false,
           scalar := scalarSummary m (finRange 128) none }

/-- `renameVectorMasked`: no bundle, or the active lanes moved with their values. -/
theorem renameVectorMasked_cases (h : Inv s) (arch : Arch) (active_mask : LaneMask) :
    (∃ t, s.renameVectorMasked arch active_mask = (false, t) ∧ (freeVectors s).length < 16 ∧
      Unchanged s t) ∨
    (∃ bundle t, s.renameVectorMasked arch active_mask =
        (true, t.releaseStale arch (s.physicalMappings arch)) ∧
      Injective bundle ∧ (∀ c, 256 ≤ (bundle c).val) ∧
      Remap s t arch (renamedVector (s.file.vrat arch) active_mask bundle) (bundleNames bundle) ∧
      (s.file.shared = false → ∀ l, laneActive active_mask l = true →
        (t.file.physical (bundle (copyOf l))).values (elementOf l) = s.read arch l)) := by
  unfold renameVectorMasked
  rcases hall : s.allocateVectorBundle with ⟨_ | bundle, u⟩
  · exact Or.inl ⟨u, rfl, (allocateVectorBundle_none h.blank hall).1,
      unchanged_of_bundle_none h.blank hall⟩
  · refine Or.inr ?_
    obtain ⟨hinj, hfree, htk⟩ := bundle_took h hall
    have hloop := renameVectorLoop active_mask hinj htk.allocated_bundle
      (fun l q (hq : u.physicalIndex arch l = _) c hc =>
        htk.source h hq (mem_bundleNames.mpr ⟨c, hc⟩))
    obtain ⟨hremap, hread⟩ := htk.rename h (m := renamedVector (s.file.vrat arch) active_mask bundle)
      (fun l => mem_bundleNames.mpr ⟨_, rfl⟩) hloop rfl (by
        rintro p (⟨l, hl⟩ | ⟨-, c, hc⟩ | ⟨-, hf⟩)
        · exact Or.inl ⟨l, hl⟩
        · exact Or.inr (mem_bundleNames.mpr ⟨c, Option.some.inj hc⟩)
        · cases hf)
    refine ⟨bundle, _, ?_, hinj, hfree, hremap, hread⟩
    simp only [hloop.vrat, update_self, htk.vrat]
    rfl

/-- The summary is a name of one of the lanes; every lane that has a name has that one. -/
theorem scalarSummary_some {m : Mapping} {ls : List Lane} {summary : Option Phys}
    (h : scalarSummary m ls summary = some p) :
    (summary = some p ∨ ∃ l ∈ ls, m.lanePhysical l = some p) ∧ (∀ q, summary = some q → q = p) ∧
      (∀ l ∈ ls, m.laneVectorized l = false ∧
        (m.lanePhysical l = some p ∨ m.lanePhysical l = none)) := by
  induction ls generalizing summary with
  | nil =>
    have hs : summary = some p := h
    subst hs
    simp
  | cons l ls ih =>
    unfold scalarSummary at h
    split_ifs at h with hv
    cases summary with
    | none =>
      obtain ⟨h1, h2, h3⟩ := ih h
      refine ⟨Or.inr ?_, by simp, ?_⟩
      · rcases h1 with h1 | ⟨l', hl', h1⟩
        · exact ⟨l, mem_cons_self, h1⟩
        · exact ⟨l', mem_cons_of_mem l hl', h1⟩
      · intro l' hl'
        rcases mem_cons.mp hl' with rfl | hl'
        · refine ⟨by simpa using hv, ?_⟩
          cases hp : m.lanePhysical l' with
          | none => exact Or.inr rfl
          | some q => exact Or.inl (by rw [h2 q hp])
        · exact h3 l' hl'
    | some q =>
      simp only at h
      split_ifs at h with hq
      obtain ⟨h1, h2, h3⟩ := ih h
      have hqp : q = p := h2 q rfl
      subst hqp
      refine ⟨Or.inl rfl, fun r hr => (Option.some.inj hr).symm, ?_⟩
      intro l' hl'
      rcases mem_cons.mp hl' with rfl | hl'
      · exact ⟨by simpa using hv, Or.inl hq.symm⟩
      · exact h3 l' hl'

/-- `renameScalarMasked`: no entry, or the active lanes moved with their values. -/
theorem renameScalarMasked_cases (h : Inv s) (arch : Arch) (active_mask : LaneMask) :
    (s.renameScalarMasked arch active_mask = (none, s) ∧
      ∀ q : Phys, q.val < 256 → s.file.allocated q = true) ∨
    (∃ p t, s.renameScalarMasked arch active_mask =
        (some p, t.releaseStale arch (s.physicalMappings arch)) ∧ p.val < 256 ∧
      Remap s t arch (renamedScalar (s.file.vrat arch) active_mask p) [p] ∧
      (s.file.shared = false → ∀ l, laneActive active_mask l = true →
        (t.file.physical p).values l = s.read arch l)) := by
  unfold renameScalarMasked
  rcases hall : s.allocateScalar with ⟨_ | p, u⟩
  · obtain ⟨rfl, hfull⟩ := allocateScalar_none hall
    exact Or.inl ⟨rfl, hfull⟩
  · refine Or.inr ?_
    have hscalar := allocateScalar_some h.blank hall
    have htk := hscalar.took
    have hloop := renameScalarLoop active_mask (by simp [hscalar.allocated])
      (fun l q (hq : u.physicalIndex arch l = _) hpq => htk.source h hq (hpq ▸ mem_singleton_self p))
    obtain ⟨hremap, hread⟩ := htk.rename h (m := renamedScalar (s.file.vrat arch) active_mask p)
      (fun _ => mem_singleton_self p) hloop rfl (by
        rintro q (⟨l, hl⟩ | ⟨hf, -⟩ | ⟨-, hsum⟩)
        · exact Or.inl ⟨l, hl⟩
        · cases hf
        · obtain ⟨hq | ⟨l, -, hl⟩, -, -⟩ := scalarSummary_some hsum
          · cases hq
          · exact Or.inl ⟨l, hl⟩)
    refine ⟨p, _, ?_, hscalar.scalar, hremap, hread⟩
    simp only [hloop.vrat, update_self, htk.vrat]
    rfl

/-! ## The mapping operations keep the invariant -/

theorem Inv.vectorize (h : Inv s) (arch : Arch) : Inv (s.vectorize arch).2 := by
  rcases vectorize_cases h arch with ⟨-, he⟩ | ⟨t, he, -, hu⟩ | ⟨bundle, t, hv, he, -, -, hr, -⟩
  · rw [he]
    exact h
  · rw [he]
    exact hu.inv h
  · rw [he]
    cases hsc : (s.file.vrat arch).scalar with
    | none => exact hr.inv h
    | some p =>
      have hp : (s.file.vrat arch).Uses p := Or.inr (Or.inr ⟨hv, hsc⟩)
      refine (hr.inv h).markDead (hr.stale h hp fun l hl => ?_)
      have hfree := hr.free p (mem_bundleNames.mpr ⟨copyOf l, Option.some.inj hl⟩)
      rw [h.used arch p hp] at hfree
      cases hfree

theorem Inv.renameVectorMasked (h : Inv s) (arch : Arch) (active_mask : LaneMask) :
    Inv (s.renameVectorMasked arch active_mask).2 := by
  rcases renameVectorMasked_cases h arch active_mask with
    ⟨t, he, -, hu⟩ | ⟨bundle, t, he, -, -, hr, -⟩
  · rw [he]
    exact hu.inv h
  · rw [he]
    exact hr.releaseStale_inv h

theorem Inv.renameScalarMasked (h : Inv s) (arch : Arch) (active_mask : LaneMask) :
    Inv (s.renameScalarMasked arch active_mask).2 := by
  rcases renameScalarMasked_cases h arch active_mask with ⟨he, -⟩ | ⟨p, t, he, -, hr, -⟩
  · rw [he]
    exact h
  · rw [he]
    exact hr.releaseStale_inv h

end Gem5Dvr.HelperRegs
