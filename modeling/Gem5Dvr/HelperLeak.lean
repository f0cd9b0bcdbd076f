/-
  When is every allocated helper entry accounted for?

  `Accounted`: an allocated entry is the mapping of some lane, or a user of it is still to let go and
  the entry is waiting for that.  Three places of the source take entries that end up neither:

    * `renameVectorMasked` takes sixteen entries whatever the mask is; the copies without an active
      lane are written, named in `mapping.vector`, and mapped by no lane;
    * `renameScalarMasked` under an empty mask;
    * `vectorize` of a register whose lanes differ (`scalar` is `-1`): it releases `old_scalar` only,
      not the names the lanes had.

  `tight` is what is left: a call that meets none of the three.  Every run of tight calls keeps every
  entry accounted for (`entries_accounted`), and then a bundle can be had as long as 112 vector
  entries at most are mapped or in use.
-/
import Gem5Dvr.HelperNames

namespace Gem5Dvr.HelperRegs

open List Function

open State

variable {s t : State} {p q : Phys} {arch : Arch}

/-! ## Whole mappings

    After `initialize` every lane of every register is mapped, and a register with a scalar name maps
    all its lanes to it. -/

structure Mapping.Whole (m : Mapping) : Prop where
  lanes : ∀ l, ∃ p, m.lanePhysical l = some p
  uniform : ∀ p, m.scalar = some p → ∀ l, m.lanePhysical l = some p ∧ m.laneVectorized l = false

def Whole (s : State) : Prop := ∀ a, (s.file.vrat a).Whole

theorem whole_initialMapping (a : Arch) : (initialMapping a).Whole :=
  ⟨fun _ => ⟨_, rfl⟩, fun _ hp _ => ⟨hp, rfl⟩⟩

theorem whole_vectorizedMapping (bundle : Copy → Phys) : (vectorizedMapping bundle).Whole :=
  ⟨fun _ => ⟨_, rfl⟩, fun p hp => by cases hp⟩

variable {m : Mapping} {op : Op} {fresh : List Phys} {active_mask : LaneMask}

/-- Moving lanes leaves every lane mapped. -/
theorem moveLanes_lanes (h : m.Whole) (active_mask : LaneMask) (phys : Lane → Phys)
    (element : Lane → Lane) (vec : Bool) (pre : List Lane) (l : Lane) :
    ∃ p, (moveLanes m active_mask phys element vec pre).lanePhysical l = some p := by
  simp only [moveLanes]
  split_ifs
  · exact ⟨_, rfl⟩
  · exact h.lanes l

theorem whole_renamedVector (h : m.Whole) (active_mask : LaneMask)
    (bundle : Copy → Phys) : (renamedVector m active_mask bundle).Whole :=
  ⟨moveLanes_lanes h active_mask (fun l => bundle (copyOf l)) elementOf true (finRange 128),
    fun p hp => by cases hp⟩

theorem whole_renamedScalar (h : m.Whole) (active_mask : LaneMask) (p : Phys) :
    (renamedScalar m active_mask p).Whole := by
  have hlanes := moveLanes_lanes h active_mask (fun _ => p) (fun _ => 0) false (finRange 128)
  refine ⟨hlanes, fun q hq l => ?_⟩
  obtain ⟨-, -, hall⟩ := scalarSummary_some hq
  obtain ⟨hv, hl | hl⟩ := hall l (mem_finRange l)
  · exact ⟨hl, hv⟩
  · obtain ⟨r, hr⟩ := hlanes l
    rw [hl] at hr
    cases hr

/-- The mapping of one register is replaced, by a whole one if it was whole. -/
def Remapped (s t : State) : Prop :=
  t.file.vrat = s.file.vrat ∨ ∃ arch m, t.file.vrat = Function.update s.file.vrat arch m ∧
    ((s.file.vrat arch).Whole → m.Whole)

theorem Remapped.whole (h : Remapped s t) (hw : Whole s) : Whole t := by
  intro a
  rcases h with h | ⟨arch, m, h, hm⟩
  · rw [h]
    exact hw a
  · rw [h]
    by_cases ha : a = arch
    · subst ha
      rw [update_self]
      exact hm (hw a)
    · rw [update_of_ne ha]
      exact hw a

theorem releaseStale_vrat (old_phys : List Phys) :
    (s.releaseStale arch old_phys).file.vrat = s.file.vrat :=
  (releaseStale_rule (P := fun _ => True) trivial fun _ _ _ _ _ _ => trivial).2

theorem remapped_vectorize (h : Inv s) (arch : Arch) : Remapped s (s.vectorize arch).2 := by
  rcases vectorize_cases h arch with ⟨-, he⟩ | ⟨t, he, -, hu⟩ | ⟨bundle, t, -, he, -, -, hr, -⟩
  · rw [he]
    exact Or.inl rfl
  · rw [he]
    exact Or.inl hu.vrat
  · rw [he]
    exact Or.inr ⟨arch, _, (markDead_vrat _).trans hr.vrat, fun _ => whole_vectorizedMapping bundle⟩

theorem remapped_renameVectorMasked (h : Inv s) (arch : Arch) (active_mask : LaneMask) :
    Remapped s (s.renameVectorMasked arch active_mask).2 := by
  rcases renameVectorMasked_cases h arch active_mask with
    ⟨t, he, -, hu⟩ | ⟨bundle, t, he, -, -, hr, -⟩
  · rw [he]
    exact Or.inl hu.vrat
  · rw [he]
    exact Or.inr ⟨arch, _, (releaseStale_vrat _).trans hr.vrat,
      fun hw => whole_renamedVector hw _ _⟩

theorem remapped_renameScalarMasked (h : Inv s) (arch : Arch) (active_mask : LaneMask) :
    Remapped s (s.renameScalarMasked arch active_mask).2 := by
  rcases renameScalarMasked_cases h arch active_mask with ⟨he, -⟩ | ⟨p, t, he, -, hr, -⟩
  · rw [he]
    exact Or.inl rfl
  · rw [he]
    exact Or.inr ⟨arch, _, (releaseStale_vrat _).trans hr.vrat,
      fun hw => whole_renamedScalar hw _ _⟩

theorem retainPhysical_vrat (phys : Option Phys) :
    (s.retainPhysical phys).file.vrat = s.file.vrat := by
  cases phys with
  | none => rfl
  | some p =>
    simp only [State.retainPhysical]
    split_ifs <;> rfl

theorem releasePhysical_vrat (phys : Option Phys) :
    (s.releasePhysical phys).file.vrat = s.file.vrat := by
  cases phys with
  | none => rfl
  | some p =>
    simp only [State.releasePhysical]
    split_ifs <;> rfl

/-- The calls a helper thread makes once its file is set up. -/
def Op.mapping : Op → Bool
  | .reset | .allocateScalar | .allocateVectorBundle | .markDead _ => false
  | _ => true

theorem Whole.step (hw : Whole s) (h : Inv s) (hop : op.mapping = true) : Whole (step s op) := by
  cases op with
  | reset => cases hop
  | allocateScalar => cases hop
  | allocateVectorBundle => cases hop
  | markDead phys => cases hop
  | initializeRegs regs =>
    intro a
    simp only [HelperRegs.step]
    rw [(initialized h.blank regs).1.done a a.isLt]
    exact whole_initialMapping a
  | vectorize arch =>
    simp only [HelperRegs.step]
    split_ifs
    · exact (remapped_vectorize h _).whole hw
    · exact hw
  | renameVectorMasked arch active_mask =>
    simp only [HelperRegs.step]
    split_ifs
    · exact (remapped_renameVectorMasked h _ _).whole hw
    · exact hw
  | renameScalarMasked arch active_mask =>
    simp only [HelperRegs.step]
    split_ifs
    · exact (remapped_renameScalarMasked h _ _).whole hw
    · exact hw
  | retainPhysical phys => exact Remapped.whole (Or.inl (retainPhysical_vrat phys)) hw
  | releasePhysical phys => exact Remapped.whole (Or.inl (releasePhysical_vrat phys)) hw
  | write arch lane value ready_tick =>
    simp only [HelperRegs.step]
    split_ifs
    · exact Remapped.whole (Or.inl (sameBooks_write _ _ value ready_tick).2) hw
    · exact hw

/-- On a whole mapping the mapped names are those of the lanes. -/
theorem Mapping.Whole.mem_physicalMappings (h : (s.file.vrat arch).Whole) :
    p ∈ s.physicalMappings arch ↔ ∃ l, (s.file.vrat arch).lanePhysical l = some p := by
  refine ⟨fun hp => ?_, fun ⟨l, hl⟩ => mem_physicalMappings_of_lane hl⟩
  obtain ⟨q, hq⟩ := h.lanes 0
  have hmem : q ∈ distinct ((finRange 128).map (s.file.vrat arch).lanePhysical) :=
    mem_distinct.mpr (mem_map.mpr ⟨0, mem_finRange 0, hq⟩)
  simp only [physicalMappings] at hp
  rw [if_neg (by simpa using ne_nil_of_mem hmem)] at hp
  obtain ⟨l, -, hl⟩ := mem_map.mp (mem_distinct.mp hp)
  exact ⟨l, hl⟩

/-! ## Entries accounted for -/

/-- Some lane of some register is mapped to the entry. -/
def Mapped (s : State) (p : Phys) : Prop := ∃ a l, (s.file.vrat a).lanePhysical l = some p

/-- Mapped, or waiting for its last user. -/
def Accounted (s : State) (p : Phys) : Prop :=
  Mapped s p ∨ (s.file.physical p).users ≠ 0 ∧ (s.file.physical p).pendingRelease = true

/-- Nothing is leaked. -/
def LeakFree (s : State) : Prop := ∀ p, s.file.allocated p = true → Accounted s p

/-- Every copy has a lane of its own. -/
theorem exists_copyOf (c : Copy) : ∃ l, copyOf l = c :=
  ⟨⟨c.val * 8, by omega⟩, Fin.ext (by simp [copyOf])⟩

theorem Accounted.congr (h : Accounted s p) (hv : t.file.vrat = s.file.vrat)
    (hu : (t.file.physical p).users = (s.file.physical p).users)
    (hp : (t.file.physical p).pendingRelease = (s.file.physical p).pendingRelease) :
    Accounted t p := by
  unfold Accounted Mapped
  rw [hv, hu, hp]
  exact h

/-- A name marked dead is free, or waits for its last user. -/
theorem accounted_of_markDead (h : (s.markDead (some p)).file.allocated p = true) :
    Accounted (s.markDead (some p)) p := by
  simp only [State.markDead] at h ⊢
  split_ifs at h ⊢ with hu
  · refine Or.inr ?_
    rw [setEntry_physical, update_self]
    exact ⟨hu, rfl⟩
  · simp at h

/-- `markDead` looks at no other entry. -/
theorem markDead_of_ne (hq : q ≠ p) : (s.markDead (some p)).file.allocated q = s.file.allocated q ∧
      (s.markDead (some p)).file.physical q = s.file.physical q := by
  simp only [State.markDead]
  split_ifs
  · exact ⟨rfl, update_of_ne hq ..⟩
  · exact ⟨update_of_ne hq .., update_of_ne hq ..⟩

/-- `markDead` accounts for the entry it names and forgets no other. -/
theorem accounted_markDead (hq : (s.markDead (some p)).file.allocated q = true)
    (h : q = p ∨ Accounted s q) : Accounted (s.markDead (some p)) q := by
  by_cases hqp : q = p
  · subst hqp
    exact accounted_of_markDead hq
  · have hphys := (markDead_of_ne (s := s) hqp).2
    exact (h.resolve_left hqp).congr (markDead_vrat _) (by rw [hphys]) (by rw [hphys])

/-- The release loop accounts for every name of its list that the lanes no longer use. -/
theorem leakFree_releaseStale {old_phys : List Phys} (hw : (s.file.vrat arch).Whole)
    (h : ∀ q, s.file.allocated q = true → Accounted s q ∨ q ∈ old_phys) :
    LeakFree (s.releaseStale arch old_phys) := by
  have main : ∀ (l : List Phys) (t : State), t.file.vrat = s.file.vrat →
      (∀ q, t.file.allocated q = true → Accounted t q ∨ q ∈ l) →
      LeakFree (l.foldl (releaseUnless (s.physicalMappings arch)) t) := by
    intro l
    induction l with
    | nil =>
      intro t _ ht q hq
      exact (ht q hq).resolve_right (not_mem_nil)
    | cons p l ih =>
      intro t hv ht
      simp only [foldl_cons, releaseUnless]
      split_ifs with hc
      · -- still mapped
        refine ih t hv fun q hq => ?_
        rcases ht q hq with hacc | hmem
        · exact Or.inl hacc
        · rcases mem_cons.mp hmem with rfl | hmem
          · obtain ⟨l, hl⟩ := hw.mem_physicalMappings.mp hc
            exact Or.inl (Or.inl ⟨arch, l, by rw [hv, hl]⟩)
          · exact Or.inr hmem
      · refine ih _ ((markDead_vrat _).trans hv) fun q hq => ?_
        by_cases hqp : q = p
        · exact Or.inl (accounted_markDead hq (Or.inl hqp))
        · have hq' : t.file.allocated q = true := by rwa [(markDead_of_ne hqp).1] at hq
          rcases ht q hq' with hacc | hmem
          · exact Or.inl (accounted_markDead hq (Or.inr hacc))
          · exact Or.inr ((mem_cons.mp hmem).resolve_left hqp)
  exact main old_phys s rfl h

/-! ## The operations -/

theorem LeakFree.sameBooks (h : LeakFree s) (hb : SameBooks s t)
    (hv : t.file.vrat = s.file.vrat) : LeakFree t := fun p hp =>
  (h p (hb.allocated ▸ hp)).congr hv (hb.users p) (hb.pendingRelease p)

theorem Unchanged.leakFree (hu : Unchanged s t) (h : LeakFree s) : LeakFree t := by
  intro p hp
  rw [hu.allocated] at hp
  exact (h p hp).congr hu.vrat (by rw [hu.kept p hp]) (by rw [hu.kept p hp])

/-- After a new mapping that uses all its fresh entries, only old names of the register may be
    unaccounted for. -/
theorem Remap.accounted (hr : Remap s t arch m fresh)
    (h : LeakFree s) (hfresh : ∀ q ∈ fresh, ∃ l, m.lanePhysical l = some q)
    (hp : t.file.allocated p = true) :
    Accounted t p ∨ ∃ l, (s.file.vrat arch).lanePhysical l = some p := by
  have hself : t.file.vrat arch = m := by rw [hr.vrat, update_self]
  by_cases hf : p ∈ fresh
  · obtain ⟨l, hl⟩ := hfresh p hf
    exact Or.inl (Or.inl ⟨arch, l, by rw [hself, hl]⟩)
  have hps : s.file.allocated p = true := by simpa [hr.allocated, hf] using hp
  rcases h p hps with ⟨a, l, hl⟩ | hwait
  · by_cases ha : a = arch
    · exact Or.inr ⟨l, ha ▸ hl⟩
    · exact Or.inl (Or.inl ⟨a, l, by rw [hr.vrat, update_of_ne ha, hl]⟩)
  · refine Or.inl (Or.inr ?_)
    rw [hr.kept p hf]
    exact hwait

/-- Bookkeeping on one entry. -/
theorem LeakFree.setEntry (h : LeakFree s) {e : PhysicalRegister}
    (hp : Accounted s p → Accounted (s.setEntry p e) p) : LeakFree (s.setEntry p e) := by
  intro q hq
  by_cases hqp : q = p
  · subst hqp
    exact hp (h q hq)
  · have hphys : (s.setEntry p e).file.physical q = s.file.physical q := update_of_ne hqp ..
    exact (h q hq).congr rfl (by rw [hphys]) (by rw [hphys])

theorem LeakFree.retainPhysical (h : LeakFree s) (phys : Option Phys) :
    LeakFree (s.retainPhysical phys) := by
  cases phys with
  | none => exact h
  | some p =>
    simp only [State.retainPhysical]
    split_ifs
    · exact h
    · refine h.setEntry fun hacc => hacc.imp id fun hwait => ?_
      rw [setEntry_physical, update_self]
      exact ⟨Nat.succ_ne_zero _, hwait.2⟩

theorem LeakFree.releasePhysical (h : LeakFree s) (phys : Option Phys) :
    LeakFree (s.releasePhysical phys) := by
  cases phys with
  | none => exact h
  | some p =>
    simp only [State.releasePhysical, setEntry_physical, update_self]
    split_ifs with ha hz
    · exact h
    · -- the last user of a dead name: it is free now
      intro q hq
      have hqp : q ≠ p := by
        rintro rfl
        simp at hq
      rw [reclaim_allocated, update_of_ne hqp] at hq
      refine (h q hq).congr rfl ?_ ?_ <;>
        rw [reclaim_physical, update_of_ne hqp, setEntry_physical, update_of_ne hqp]
    · refine h.setEntry fun hacc => hacc.imp id fun hwait => ?_
      rw [setEntry_physical, update_self]
      exact ⟨fun hzero => hz ⟨hzero, hwait.2⟩, hwait.2⟩

theorem Initialized.leakFree {regs : Arch → RegVal} (hi : Initialized regs 32 s) : LeakFree s := by
  intro q hq
  have hlt : q.val < 32 := by simpa [hi.allocated] using hq
  refine Or.inl ⟨⟨q.val, hlt⟩, 0, ?_⟩
  rw [hi.done _ hlt]
  rfl

/-! ## Tight calls -/

/-- Does every one of the sixteen copies have an active lane? -/
def coversCopies (active_mask : LaneMask) : Bool := (finRange 16).all fun c =>
    (finRange 128).any fun l => laneActive active_mask l && copyOf l == c

/-- The register has lanes with different names: it is neither vectorized nor has a scalar name. -/
def mixed (m : Mapping) : Bool := !m.vectorized && m.scalar.isNone

/-- A call that leaves nothing behind: `vectorize` does not meet a mixed register, a vector rename
    has an active lane in every copy and a scalar rename has one at all.  A call that finds no entry
    to take does nothing. -/
def tight (s : State) : Op → Prop
  | .initializeRegs _ | .retainPhysical _ | .releasePhysical _ | .write .. => True
  | .vectorize arch => ∀ h : arch < 32, mixed (s.file.vrat ⟨arch, h⟩) = false ∨
      (freeVectors s).length < 16
  | .renameVectorMasked arch active_mask => 32 ≤ arch ∨ coversCopies active_mask = true ∨
      (freeVectors s).length < 16
  | .renameScalarMasked arch active_mask => 32 ≤ arch ∨ (∃ l, laneActive active_mask l = true) ∨
      ∀ q : Phys, q.val < 256 → s.file.allocated q = true
  | .reset | .allocateScalar | .allocateVectorBundle | .markDead _ => False

theorem mapping_of_tight (h : tight s op) : op.mapping = true := by
  cases op <;> first | rfl | cases h

/-- The fresh entries of a vector rename that covers the copies are all mapped. -/
theorem renamedVector_fresh {bundle : Copy → Phys}
    (hc : coversCopies active_mask = true) (hq : q ∈ bundleNames bundle) :
    ∃ l, (renamedVector m active_mask bundle).lanePhysical l = some q := by
  obtain ⟨c, rfl⟩ := mem_bundleNames.mp hq
  obtain ⟨l, -, hl⟩ := any_eq_true.mp (all_eq_true.mp hc c (mem_finRange c))
  obtain ⟨hact, hcopy⟩ := Bool.and_eq_true_iff.mp hl
  refine ⟨l, ?_⟩
  simp only [renamedVector, moveLanes]
  rw [if_pos ⟨mem_finRange l, hact⟩, beq_iff_eq.mp hcopy]

theorem renamedScalar_fresh {l : Lane} (hact : laneActive active_mask l = true) :
    (renamedScalar m active_mask p).lanePhysical l = some p := by
  simp only [renamedScalar, moveLanes]
  rw [if_pos ⟨mem_finRange l, hact⟩]

/-- The end of a rename whose fresh entries are all mapped. -/
theorem Remap.releaseStale_leakFree (hr : Remap s t arch m fresh) (h : LeakFree s) (hw : m.Whole)
    (hfresh : ∀ q ∈ fresh, ∃ l, m.lanePhysical l = some q) :
    LeakFree (t.releaseStale arch (s.physicalMappings arch)) := by
  refine leakFree_releaseStale (by rw [hr.vrat, update_self]; exact hw) fun q hq => ?_
  exact (hr.accounted h hfresh hq).imp id fun ⟨l, hl⟩ => mem_physicalMappings_of_lane hl

/-- Where a bundle was taken there were sixteen free vector entries. -/
theorem Remap.freeVectors_length {bundle : Copy → Phys}
    (hr : Remap s t arch m (bundleNames bundle)) (hinj : Function.Injective bundle)
    (hvec : ∀ c, 256 ≤ (bundle c).val) : 16 ≤ (freeVectors s).length := by
  have hnd : (bundleNames bundle).Nodup := nodup_ofFn.mpr hinj
  have hsub : bundleNames bundle ⊆ freeVectors s := by
    intro q hq
    have hfree := hr.free q hq
    obtain ⟨c, rfl⟩ := mem_bundleNames.mp hq
    exact mem_freeVectors.mpr ⟨hvec c, hfree⟩
  have hlen : (bundleNames bundle).length = 16 := length_ofFn
  exact (hnd.subperm hsub).length_le

theorem LeakFree.vectorize (h : LeakFree s) (hi : Inv s) (hw : Whole s)
    (hm : mixed (s.file.vrat arch) = false ∨ (freeVectors s).length < 16) :
    LeakFree (s.vectorize arch).2 := by
  rcases vectorize_cases hi arch with
    ⟨-, he⟩ | ⟨t, he, -, hu⟩ | ⟨bundle, t, hv, he, hinj, hvec, hr, -⟩
  · rw [he]
    exact h
  · rw [he]
    exact hu.leakFree h
  · rw [he]
    have hlen := hr.freeVectors_length hinj hvec
    -- not mixed: the one name of the old mapping is its scalar name
    obtain ⟨p, hp⟩ : ∃ p, (s.file.vrat arch).scalar = some p := by
      rw [← Option.isSome_iff_exists]
      rcases hm with hm | hm
      · simpa [mixed, hv] using hm
      · omega
    rw [hp]
    intro q hq
    refine accounted_markDead hq ?_
    have hfresh : ∀ r ∈ bundleNames bundle,
        ∃ l, (vectorizedMapping bundle).lanePhysical l = some r := by
      intro r hr
      obtain ⟨c, rfl⟩ := mem_bundleNames.mp hr
      obtain ⟨l, rfl⟩ := exists_copyOf c
      exact ⟨l, rfl⟩
    by_cases hqp : q = p
    · exact Or.inl hqp
    · rw [(markDead_of_ne hqp).1] at hq
      rcases hr.accounted h hfresh hq with hacc | ⟨l, hl⟩
      · exact Or.inr hacc
      · rw [((hw arch).uniform p hp l).1] at hl
        exact absurd (Option.some.inj hl).symm hqp

theorem LeakFree.renameVectorMasked (h : LeakFree s) (hi : Inv s) (hw : Whole s)
    (hm : coversCopies active_mask = true ∨ (freeVectors s).length < 16) :
    LeakFree (s.renameVectorMasked arch active_mask).2 := by
  rcases renameVectorMasked_cases hi arch active_mask with
    ⟨t, he, -, hu⟩ | ⟨bundle, t, he, hinj, hvec, hr, -⟩
  · rw [he]
    exact hu.leakFree h
  · rw [he]
    have hlen := hr.freeVectors_length hinj hvec
    have hc : coversCopies active_mask = true := hm.resolve_right (by omega)
    exact hr.releaseStale_leakFree h (whole_renamedVector (hw arch) _ _)
      fun q hq => renamedVector_fresh hc hq

theorem LeakFree.renameScalarMasked (h : LeakFree s) (hi : Inv s) (hw : Whole s)
    (hm : (∃ l, laneActive active_mask l = true) ∨
      ∀ q : Phys, q.val < 256 → s.file.allocated q = true) :
    LeakFree (s.renameScalarMasked arch active_mask).2 := by
  rcases renameScalarMasked_cases hi arch active_mask with ⟨he, -⟩ | ⟨p, t, he, hlt, hr, -⟩
  · rw [he]
    exact h
  · rw [he]
    have hfree := hr.free p mem_cons_self
    obtain ⟨l, hact⟩ : ∃ l, laneActive active_mask l = true := hm.resolve_right fun hfull => by
        rw [hfull p hlt] at hfree
        cases hfree
    refine hr.releaseStale_leakFree h (whole_renamedScalar (hw arch) _ _) fun q hq => ⟨l, ?_⟩
    rw [mem_singleton.mp hq]
    exact renamedScalar_fresh hact

/-! ## Runs -/

/-- What every state after `initialize` has. -/
structure Settled (s : State) : Prop where
  inv : Inv s
  whole : Whole s
  leakFree : LeakFree s

theorem Settled.step (h : Settled s) (hop : tight s op) : Settled (step s op) := by
  have hmap := mapping_of_tight hop
  refine ⟨h.inv.step (by cases op <;> trivial), h.whole.step h.inv hmap, ?_⟩
  cases op with
  | reset => cases hmap
  | allocateScalar => cases hmap
  | allocateVectorBundle => cases hmap
  | markDead phys => cases hmap
  | initializeRegs regs => exact (initialized h.inv.blank regs).1.leakFree
  | vectorize arch =>
    simp only [HelperRegs.step]
    split_ifs with harch
    · exact h.leakFree.vectorize h.inv h.whole (hop harch)
    · exact h.leakFree
  | renameVectorMasked arch active_mask =>
    simp only [HelperRegs.step]
    split_ifs with harch
    · exact h.leakFree.renameVectorMasked h.inv h.whole (hop.resolve_left (by omega))
    · exact h.leakFree
  | renameScalarMasked arch active_mask =>
    simp only [HelperRegs.step]
    split_ifs with harch
    · exact h.leakFree.renameScalarMasked h.inv h.whole (hop.resolve_left (by omega))
    · exact h.leakFree
  | retainPhysical phys => exact h.leakFree.retainPhysical phys
  | releasePhysical phys => exact h.leakFree.releasePhysical phys
  | write arch lane value ready_tick =>
    simp only [HelperRegs.step]
    split_ifs
    · obtain ⟨hb, hv⟩ := sameBooks_write (s := s) _ _ value ready_tick
      exact h.leakFree.sameBooks hb hv
    · exact h.leakFree

/-- A call on a file whose bank others may have used since the last one. -/
def stepOn (s : State) (e : Bank × Op) : State := step { s with bank := e.1 } e.2

theorem Settled.setBank (h : Settled s) (bank : Bank) : Settled { s with bank } :=
  ⟨System.inv_of_file h.inv rfl, h.whole, h.leakFree⟩

/-- The file as constructed and then initialized. -/
def initialState (shared : Bool) (bank : Bank) (regs : Arch → RegVal) : State :=
  (State.mk { shared } bank).initializeRegs regs

theorem initialized_initialState (shared : Bool) (bank : Bank) (regs : Arch → RegVal) :
    Initialized regs 32 (initialState shared bank regs) ∧
      (initialState shared bank regs).file.shared = shared := by
  have h := initialized (s := State.mk { shared } bank) (fun _ _ => rfl) regs
  refine ⟨h.1, ?_⟩
  rw [initialState, h.2.1]

theorem settled_initialState (shared : Bool) (bank : Bank) (regs : Arch → RegVal) :
    Settled (initialState shared bank regs) := by
  obtain ⟨hi, -⟩ := initialized_initialState shared bank regs
  refine ⟨hi.inv, fun a => ?_, hi.leakFree⟩
  rw [hi.done a a.isLt]
  exact whole_initialMapping a

theorem length_vectorEntries : vectorEntries.length = 128 := by decide +kernel

/-- Leak-free, and at most 112 vector entries mapped or in use: a bundle can be had. -/
theorem LeakFree.allocateVectorBundle (h : LeakFree s) {live : List Phys} (hlen : live.length ≤ 112)
    (hlive : ∀ p, 256 ≤ p.val → Mapped s p ∨ (s.file.physical p).users ≠ 0 → p ∈ live) :
    ∃ bundle t, s.allocateVectorBundle = (some bundle, t) := by
  refine allocateVectorBundle_isSome ?_
  have hsplit : vectorEntries ⊆ freeVectors s ++ live := by
    intro p hp
    have hvec : 256 ≤ p.val := of_decide_eq_true (mem_filter.mp hp).2
    rw [mem_append]
    cases ha : s.file.allocated p with
    | false => exact Or.inl (mem_freeVectors.mpr ⟨hvec, ha⟩)
    | true => exact Or.inr (hlive p hvec ((h p ha).imp id And.left))
  have hle := (vectorEntries_nodup.subperm hsplit).length_le
  rw [length_append, length_vectorEntries] at hle
  omega

/-! ## What is leaked otherwise -/

theorem releaseStale_of_not_mem {old_phys : List Phys} (hq : q ∉ old_phys) :
    (s.releaseStale arch old_phys).file.allocated q = s.file.allocated q ∧
      (s.releaseStale arch old_phys).file.physical q = s.file.physical q := by
  refine (releaseStale_rule (s := s) (P := fun t => t.file.allocated q = s.file.allocated q ∧
    t.file.physical q = s.file.physical q) ⟨rfl, rfl⟩ fun t p hp _ _ ht => ?_).1
  have hqp : q ≠ p := by
    rintro rfl
    exact hq hp
  obtain ⟨ha, hphys⟩ := markDead_of_ne (s := t) hqp
  exact ⟨ha.trans ht.1, hphys.trans ht.2⟩

/-- A fresh entry that the new mapping does not use is lost. -/
theorem Remap.leaks (hr : Remap s t arch m fresh) (hi : Inv s)
    (hq : q ∈ fresh) (hm : ∀ l, m.lanePhysical l ≠ some q) :
    ¬ LeakFree (t.releaseStale arch (s.physicalMappings arch)) := by
  have hfree := hr.free q hq
  have hnot : ∀ a, ¬ (s.file.vrat a).Uses q := fun a hu => by
    rw [hi.used a q hu] at hfree
    cases hfree
  have hold : q ∉ s.physicalMappings arch := fun hmem =>
    hnot arch (uses_of_mem_physicalMappings hmem)
  obtain ⟨ha, hphys⟩ : (t.releaseStale arch (s.physicalMappings arch)).file.allocated q =
      t.file.allocated q ∧ (t.releaseStale arch (s.physicalMappings arch)).file.physical q =
      t.file.physical q := releaseStale_of_not_mem hold
  intro hleak
  rcases hleak q (by rw [ha, hr.allocated]; simp [hq]) with ⟨a, l, hl⟩ | ⟨-, hpend⟩
  · rw [releaseStale_vrat, hr.vrat] at hl
    by_cases haa : a = arch
    · subst haa
      rw [update_self] at hl
      exact hm l hl
    · rw [update_of_ne haa] at hl
      exact hnot a (Or.inl ⟨l, hl⟩)
  · rw [hphys, (hr.clean q hq).1] at hpend
    cases hpend

theorem not_leakFree_vectorize (hi : Inv s) (hw : Whole s)
    (hm : mixed (s.file.vrat arch) = true) (hfree : 16 ≤ (freeVectors s).length) :
    ¬ LeakFree (s.vectorize arch).2 := by
  obtain ⟨hvf, hsc⟩ : (s.file.vrat arch).vectorized = false ∧ (s.file.vrat arch).scalar = none := by
    simpa [mixed] using hm
  rcases vectorize_cases hi arch with
    ⟨hv, -⟩ | ⟨t, -, hlt, -⟩ | ⟨bundle, t, -, he, -, -, hr, -⟩
  · rw [hvf] at hv
    cases hv
  · omega
  · rw [he, hsc]
    -- the name lane 0 had
    obtain ⟨p, hp⟩ := (hw arch).lanes 0
    have hu : (s.file.vrat arch).Uses p := Or.inl ⟨0, hp⟩
    have hnf : p ∉ bundleNames bundle := fun hmem => by
      have hfree := hr.free p hmem
      rw [hi.used arch p hu] at hfree
      cases hfree
    intro hleak
    rcases hleak p (by
      change t.file.allocated p = true
      rw [hr.allocated, hi.used arch p hu, Bool.true_or]) with ⟨a, l, hl⟩ | ⟨-, hpend⟩
    · refine hr.stale hi hu (fun l hl => hnf ?_) a (Or.inl ⟨l, hl⟩)
      exact mem_bundleNames.mpr ⟨copyOf l, Option.some.inj hl⟩
    · change (t.file.physical p).pendingRelease = true at hpend
      rw [hr.kept p hnf, hi.live arch p hu] at hpend
      cases hpend

theorem not_leakFree_renameVectorMasked (hi : Inv s)
    (hm : coversCopies active_mask = false) (hfree : 16 ≤ (freeVectors s).length) :
    ¬ LeakFree (s.renameVectorMasked arch active_mask).2 := by
  rcases renameVectorMasked_cases hi arch active_mask with
    ⟨t, -, hlt, -⟩ | ⟨bundle, t, he, hinj, hvec, hr, -⟩
  · omega
  · rw [he]
    -- a copy without an active lane
    obtain ⟨c, -, hc⟩ := all_eq_false.mp hm
    have hidle : ∀ l, laneActive active_mask l = true → copyOf l ≠ c := fun l hact hcopy =>
      hc (any_eq_true.mpr ⟨l, mem_finRange l, by simp [hact, hcopy]⟩)
    refine hr.leaks hi (mem_bundleNames.mpr ⟨c, rfl⟩) fun l hl => ?_
    simp only [renamedVector, moveLanes, mem_finRange, true_and] at hl
    split_ifs at hl with hact
    · exact hidle l hact (hinj (Option.some.inj hl))
    · have hfc := hr.free (bundle c) (mem_bundleNames.mpr ⟨c, rfl⟩)
      rw [hi.used arch (bundle c) (Or.inl ⟨l, hl⟩)] at hfc
      cases hfc

theorem not_leakFree_renameScalarMasked (hi : Inv s)
    (hm : ∀ l, laneActive active_mask l = false) (hp : p.val < 256)
    (hfree : s.file.allocated p = false) :
    ¬ LeakFree (s.renameScalarMasked arch active_mask).2 := by
  rcases renameScalarMasked_cases hi arch active_mask with ⟨-, hfull⟩ | ⟨q, t, he, -, hr, -⟩
  · rw [hfull p hp] at hfree
    cases hfree
  · rw [he]
    refine hr.leaks hi mem_cons_self fun l hl => ?_
    simp only [renamedScalar, moveLanes, hm l, Bool.false_eq_true, and_false, if_false] at hl
    have hfq := hr.free q mem_cons_self
    rw [hi.used arch q (Or.inl ⟨l, hl⟩)] at hfq
    cases hfq

/-- The guard is exact: a mapping call that is not tight leaks. -/
theorem Settled.leaks (h : Settled s) (hmap : op.mapping = true) (hop : ¬ tight s op) :
    ¬ LeakFree (HelperRegs.step s op) := by
  cases op with
  | reset => cases hmap
  | allocateScalar => cases hmap
  | allocateVectorBundle => cases hmap
  | markDead phys => cases hmap
  | initializeRegs regs => exact absurd trivial hop
  | retainPhysical phys => exact absurd trivial hop
  | releasePhysical phys => exact absurd trivial hop
  | write arch lane value ready_tick => exact absurd trivial hop
  | vectorize arch =>
    simp only [tight, not_forall, not_or, Bool.not_eq_false, Nat.not_lt] at hop
    obtain ⟨harch, hmix, hfree⟩ := hop
    simp only [HelperRegs.step, dif_pos harch]
    exact not_leakFree_vectorize h.inv h.whole hmix hfree
  | renameVectorMasked arch active_mask =>
    simp only [tight, not_or, Bool.not_eq_true, Nat.not_lt, Nat.not_le] at hop
    obtain ⟨harch, hcov, hfree⟩ := hop
    simp only [HelperRegs.step, dif_pos harch]
    exact not_leakFree_renameVectorMasked h.inv hcov hfree
  | renameScalarMasked arch active_mask =>
    simp only [tight, not_or, not_exists, not_forall, Bool.not_eq_true, Nat.not_le] at hop
    obtain ⟨harch, hmask, q, hq, hfree⟩ := hop
    simp only [HelperRegs.step, dif_pos harch]
    exact not_leakFree_renameScalarMasked h.inv hmask hq hfree

/-! ## Every run -/

/-- The guard of a run: the call is tight on the bank it finds. -/
def tightOn (s : State) (e : Bank × Op) : Prop := tight { s with bank := e.1 } e.2

/-- NO ENTRY IS LEAKED just when every call is tight.  For every sequence of mapping calls from
    `initialize`, with others using the bank in between: in all the states it goes through every
    allocated entry is mapped or waits for its last user IF AND ONLY IF each call was tight; and after
    tight calls a bundle can be had as long as at most 112 vector entries are mapped or in use. -/
theorem entries_accounted_iff (shared : Bool) (bank : Bank) (regs : Arch → RegVal)
    (calls : List (Bank × Op)) (hops : ∀ e ∈ calls, e.2.mapping = true) :
    ((∀ pre, pre <+: calls → LeakFree (pre.foldl stepOn (initialState shared bank regs))) ↔
      Trace.Admits tightOn stepOn (initialState shared bank regs) calls) ∧
    (Trace.Admits tightOn stepOn (initialState shared bank regs) calls →
      ∀ s, s = calls.foldl stepOn (initialState shared bank regs) →
      ∀ live : List Phys, live.length ≤ 112 →
        (∀ p, 256 ≤ p.val → Mapped s p ∨ (s.file.physical p).users ≠ 0 → p ∈ live) →
        ∃ bundle t, s.allocateVectorBundle = (some bundle, t)) := by
  have h0 := settled_initialState shared bank regs
  have hstep : ∀ s e, Settled s → tightOn s e → Settled (stepOn s e) :=
    fun s e hs he => (hs.setBank e.1).step he
  refine ⟨Trace.admits_iff_prefix Settled LeakFree (fun e => e.2.mapping = true)
    (fun s e hs _ he => hstep s e hs he) (fun s hs => hs.leakFree) (fun s e hs he hne => (hs.setBank e.1).leaks he hne) h0 hops, ?_⟩
  rintro hadm s rfl live hlen hlive
  exact (hadm.invariant Settled hstep h0).leakFree.allocateVectorBundle hlen hlive

/-- A scalar rename of one lane is tight. -/
theorem entries_accounted_one_lane : LeakFree ([(emptyBank, .renameScalarMasked 0 1)].foldl stepOn
      (initialState false emptyBank fun _ => 7)) :=
  (entries_accounted_iff false emptyBank (fun _ => 7) [(emptyBank, .renameScalarMasked 0 1)]
    (by simp [Op.mapping])).1.mpr ⟨Or.inr (Or.inl ⟨0, by decide⟩), trivial⟩ _ prefix_rfl

theorem freeVectors_setBank (s : State) (bank : Bank) :
    freeVectors { s with bank } = freeVectors s := rfl

theorem Initialized.freeVectors_eq {regs : Arch → RegVal} (hi : Initialized regs 32 s) :
    freeVectors s = vectorEntries := by
  refine filter_eq_self.mpr fun p hp => ?_
  have hvec : 256 ≤ p.val := of_decide_eq_true (mem_filter.mp hp).2
  rw [hi.allocated, decide_eq_false (by omega)]
  rfl

/-- A vector rename under a mask of one lane takes sixteen entries and maps one: the other fifteen
    are neither mapped nor waiting for anybody. -/
theorem renameVectorMasked_one_lane_leaks :
    ¬ LeakFree ([(emptyBank, .renameVectorMasked 0 1)].foldl stepOn
      (initialState false emptyBank fun _ => 7)) := by
  have hfree : (freeVectors { initialState false emptyBank (fun _ => 7) with
      bank := emptyBank }).length = 128 := by
    rw [freeVectors_setBank, (initialized_initialState false emptyBank _).1.freeVectors_eq,
      length_vectorEntries]
  have hnot : ¬ tight { initialState false emptyBank (fun _ => 7) with bank := emptyBank }
      (.renameVectorMasked 0 1) := by
    rintro (harch | hcov | hlt)
    · omega
    · revert hcov
      decide +kernel
    · omega
  have hleak := ((settled_initialState false emptyBank (fun _ => 7)).setBank emptyBank).leaks
    rfl hnot
  exact hleak

end Gem5Dvr.HelperRegs
