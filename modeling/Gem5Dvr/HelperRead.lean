/-
  The helper register file as a plain map from (register, lane) to values.

  With the private bank a readable value sits in ONE cell: an entry and an index into its value
  array, the lane itself in a scalar entry, the element in a vector entry (`Placed`).  Different
  (register, lane) pairs have different cells, so a `write` is seen where it was meant and nowhere
  else; renames copy the cells they move, and what they release is in no cell.

  The exception is `vectorize` of a register whose lanes have different names.  There `scalar` is
  `-1`, the copy loop stores zeros, and every value of the register is lost.  `readsKept` excludes
  just the calls that lose something.
-/
import Gem5Dvr.HelperLeak

namespace Gem5Dvr.HelperRegs

open List Function

open State

variable {s t : State} {p q : Phys} {arch : Arch}

/-! ## Cells -/

/-- The index of a lane's value in its entry. -/
def Mapping.index (m : Mapping) (lane : Lane) : Lane :=
  if m.laneVectorized lane then m.laneElement lane else lane

/-- Vector lanes are in vector entries, at their element, one copy to an entry; scalar lanes are in
    scalar entries. -/
structure Mapping.Placed (m : Mapping) : Prop where
  vector : ∀ l p, m.lanePhysical l = some p → m.laneVectorized l = true →
    256 ≤ p.val ∧ m.laneElement l = elementOf l
  scalar : ∀ l p, m.lanePhysical l = some p → m.laneVectorized l = false → p.val < 256
  copy : ∀ l l' p, m.lanePhysical l = some p → m.lanePhysical l' = some p →
    m.laneVectorized l = true → m.laneVectorized l' = true → copyOf l = copyOf l'

/-- Two lanes of a register never share a cell. -/
theorem Mapping.Placed.index_injective {m : Mapping} (h : m.Placed) {l l' : Lane}
    (hl : m.lanePhysical l = some p) (hl' : m.lanePhysical l' = some p)
    (hi : m.index l = m.index l') : l = l' := by
  unfold Mapping.index at hi
  cases hv : m.laneVectorized l with
  | true =>
    cases hv' : m.laneVectorized l' with
    | true =>
      rw [hv, hv', if_pos rfl, if_pos rfl, (h.vector l p hl hv).2, (h.vector l' p hl' hv').2] at hi
      exact lane_eq (h.copy l l' p hl hl' hv hv') hi
    | false =>
      have h1 := (h.vector l p hl hv).1
      have h2 := h.scalar l' p hl' hv'
      omega
  | false =>
    cases hv' : m.laneVectorized l' with
    | true =>
      have h1 := (h.vector l' p hl' hv').1
      have h2 := h.scalar l p hl hv
      omega
    | false => simpa [hv, hv'] using hi

/-- What every state of a run with the private bank has. -/
structure Readable (s : State) : Prop where
  inv : Inv s
  whole : Whole s
  placed : ∀ a, (s.file.vrat a).Placed
  priv : s.file.shared = false

/-- A read is the value in the lane's cell. -/
theorem Readable.read_eq (h : Readable s) {l : Lane}
    (hl : (s.file.vrat arch).lanePhysical l = some p) :
    s.read arch l = (s.file.physical p).values ((s.file.vrat arch).index l) := by
  have ha : s.file.allocated p = true := h.inv.used arch p (Or.inl ⟨l, hl⟩)
  have hidx : s.physicalIndex arch l = some p := by simp only [physicalIndex, hl]
  have hlane : s.physicalLane arch l = (s.file.vrat arch).index l := by
    simp only [physicalLane, hl, Mapping.index]
  rw [State.read, hidx, hlane, readPhysical_private h.priv ha]

/-- Every value can still be read, and reads the same. -/
structure Keeps (s t : State) : Prop where
  readable : Readable t
  read : ∀ a l, t.read a l = s.read a l

theorem Keeps.refl (h : Readable s) : Keeps s s := ⟨h, fun _ _ => rfl⟩

theorem Keeps.trans {u : State} (h : Keeps s t) (h' : Keeps t u) : Keeps s u :=
  ⟨h'.readable, fun a l => (h'.read a l).trans (h.read a l)⟩

/-- Bookkeeping that leaves the used entries alone. -/
theorem Readable.keeps_of_used (h : Readable s) (hi : Inv t) (hv : t.file.vrat = s.file.vrat)
    (hs : t.file.shared = s.file.shared)
    (hval : ∀ a l q, (s.file.vrat a).lanePhysical l = some q →
      (t.file.physical q).values = (s.file.physical q).values) : Keeps s t := by
  have ht : Readable t := ⟨hi, fun a => hv ▸ h.whole a, fun a => hv ▸ h.placed a, hs.trans h.priv⟩
  refine ⟨ht, fun a l => ?_⟩
  obtain ⟨q, hq⟩ := (h.whole a).lanes l
  rw [ht.read_eq (hv ▸ hq), h.read_eq hq, hval a l q hq, hv]

/-! ## Releasing -/

theorem markDead_shared (phys : Option Phys) : (s.markDead phys).file.shared = s.file.shared := by
  cases phys with
  | none => rfl
  | some p =>
    simp only [State.markDead]
    split_ifs <;> rfl

theorem Readable.markDead (h : Readable s) (hp : ∀ a, ¬ (s.file.vrat a).Uses p) :
    Keeps s (s.markDead (some p)) := by
  refine h.keeps_of_used (h.inv.markDead hp) (markDead_vrat _) (markDead_shared _) ?_
  intro a l q hq
  have hqp : q ≠ p := by
    rintro rfl
    exact hp a (Or.inl ⟨l, hq⟩)
  rw [(markDead_of_ne hqp).2]

theorem Readable.releaseStale (h : Readable s) {old_phys : List Phys}
    (hold : ∀ p ∈ old_phys, p ∉ s.physicalMappings arch → ∀ a, ¬ (s.file.vrat a).Uses p) :
    Keeps s (s.releaseStale arch old_phys) :=
  (releaseStale_rule (P := Keeps s) (.refl h) fun _ p hp hc hv ht =>
    ht.trans (ht.readable.markDead fun a => hv ▸ hold p hp hc a)).1

theorem Readable.retainPhysical (h : Readable s) (phys : Option Phys) :
    Keeps s (s.retainPhysical phys) := by
  refine h.keeps_of_used (h.inv.retainPhysical phys) (retainPhysical_vrat phys) ?_ ?_
  · cases phys with
    | none => rfl
    | some p =>
      simp only [State.retainPhysical]
      split_ifs <;> rfl
  · intro a l q _
    cases phys with
    | none => rfl
    | some p =>
      simp only [State.retainPhysical]
      split_ifs
      · rfl
      · by_cases hqp : q = p
        · subst hqp; simp
        · simp [hqp]

/-- The last release of a dead name frees an entry that no lane reads. -/
theorem Readable.releasePhysical (h : Readable s) (phys : Option Phys) :
    Keeps s (s.releasePhysical phys) := by
  refine h.keeps_of_used (h.inv.releasePhysical phys) (releasePhysical_vrat phys) ?_ ?_
  · cases phys with
    | none => rfl
    | some p =>
      simp only [State.releasePhysical]
      split_ifs <;> rfl
  · intro a l q hq
    cases phys with
    | none => rfl
    | some p =>
      have hlive := h.inv.live a q (Or.inl ⟨l, hq⟩)
      simp only [State.releasePhysical, setEntry_physical, update_self]
      split_ifs with ha hz
      · rfl
      · have hqp : q ≠ p := by
          rintro rfl
          rw [hz.2] at hlive
          cases hlive
        simp [hqp]
      · by_cases hqp : q = p
        · subst hqp; simp
        · simp [hqp]

/-! ## New mappings -/

theorem Unchanged.keeps (hu : Unchanged s t) (h : Readable s) : Keeps s t :=
  h.keeps_of_used (hu.inv h.inv) hu.vrat hu.shared fun a l q hq => by
    rw [hu.kept q (h.inv.used a q (Or.inl ⟨l, hq⟩))]

section Remap

variable {m : Mapping} {fresh : List Phys}

/-- The names a mapping had are not fresh. -/
theorem Remap.not_mem_fresh (hr : Remap s t arch m fresh) (hi : Inv s) {a : Arch} {l : Lane}
    (hq : (s.file.vrat a).lanePhysical l = some q) : q ∉ fresh := by
  intro hf
  have hfree := hr.free q hf
  rw [hi.used a q (Or.inl ⟨l, hq⟩)] at hfree
  cases hfree

theorem Remap.readable (hr : Remap s t arch m fresh) (h : Readable s) (hw : m.Whole)
    (hp : m.Placed) : Readable t := by
  refine ⟨hr.inv h.inv, fun a => ?_, fun a => ?_, hr.shared.trans h.priv⟩ <;> rw [hr.vrat] <;>
    by_cases ha : a = arch
  · rw [ha, update_self]
    exact hw
  · rw [update_of_ne ha]
    exact h.whole a
  · rw [ha, update_self]
    exact hp
  · rw [update_of_ne ha]
    exact h.placed a

/-- The register reads what its new cells hold. -/
theorem Remap.read_self (hr : Remap s t arch m fresh) (h : Readable s) (hw : m.Whole)
    (hp : m.Placed) {l : Lane} (hl : m.lanePhysical l = some p) :
    t.read arch l = (t.file.physical p).values (m.index l) := by
  have hself : t.file.vrat arch = m := by rw [hr.vrat, update_self]
  rw [(hr.readable h hw hp).read_eq (hself ▸ hl), hself]

/-- A new mapping whose cells hold what the register reads. -/
theorem Remap.keeps (hr : Remap s t arch m fresh) (h : Readable s) (hw : m.Whole) (hp : m.Placed)
    (hval : ∀ l p, m.lanePhysical l = some p →
      (t.file.physical p).values (m.index l) = s.read arch l) : Keeps s t := by
  have ht := hr.readable h hw hp
  refine ⟨ht, fun a l => ?_⟩
  by_cases ha : a = arch
  · subst ha
    obtain ⟨q, hq⟩ := hw.lanes l
    rw [hr.read_self h hw hp hq, hval l q hq]
  · have hother : t.file.vrat a = s.file.vrat a := by rw [hr.vrat, update_of_ne ha]
    obtain ⟨q, hq⟩ := (h.whole a).lanes l
    rw [ht.read_eq (hother ▸ hq), h.read_eq hq, hr.kept q (hr.not_mem_fresh h.inv hq), hother]

/-- The end of a rename. -/
theorem Remap.releaseStale_keeps (hr : Remap s t arch m fresh) (h : Readable s)
    (hk : Keeps s t) : Keeps s (t.releaseStale arch (s.physicalMappings arch)) := by
  refine hk.trans (hk.readable.releaseStale fun p hp hc a => ?_)
  refine hr.stale h.inv (uses_of_mem_physicalMappings hp) (fun l hl => hc ?_) a
  exact mem_physicalMappings_of_lane (by rw [hr.vrat, update_self, hl])

end Remap

/-! ## `vectorize` -/

theorem placed_vectorizedMapping {bundle : Copy → Phys} (hinj : Function.Injective bundle)
    (hvec : ∀ c, 256 ≤ (bundle c).val) : (vectorizedMapping bundle).Placed := by
  refine ⟨fun l p hp _ => ?_, fun l p _ hf => (by cases hf), fun l l' p hl hl' _ _ => ?_⟩
  · rw [← Option.some.inj hp]
    exact ⟨hvec _, rfl⟩
  · exact hinj ((Option.some.inj hl).trans (Option.some.inj hl').symm)

/-- A register with a scalar name reads it in every lane. -/
theorem Readable.read_scalar (h : Readable s) (hp : (s.file.vrat arch).scalar = some p)
    (l : Lane) : s.read arch l = s.readPhysical (some p) l := by
  obtain ⟨hl, hv⟩ := (h.whole arch).uniform p hp l
  have ha : s.file.allocated p = true := h.inv.used arch p (Or.inl ⟨l, hl⟩)
  rw [h.read_eq hl, readPhysical_private h.priv ha, Mapping.index, hv, if_neg Bool.false_ne_true]

/-- `vectorize` keeps every value unless it meets a mixed register with something to lose. -/
theorem Readable.vectorize (h : Readable s)
    (hm : mixed (s.file.vrat arch) = false ∨ (freeVectors s).length < 16 ∨
      ∀ l, s.read arch l = 0) : Keeps s (s.vectorize arch).2 := by
  rcases vectorize_cases h.inv arch with
    ⟨-, he⟩ | ⟨t, he, -, hu⟩ | ⟨bundle, t, hv, he, hinj, hvec, hr, hval⟩
  · rw [he]
    exact .refl h
  · rw [he]
    exact hu.keeps h
  rw [he]
  have hlen := hr.freeVectors_length hinj hvec
  have hcell : ∀ l, (t.file.physical (bundle (copyOf l))).values (elementOf l) = s.read arch l := by
    intro l
    rw [hval h.priv l]
    cases hsc : (s.file.vrat arch).scalar with
    | some p =>
      rw [h.read_scalar hsc]
      rfl
    | none =>
      have hmix : mixed (s.file.vrat arch) = true := by simp [mixed, hv, hsc]
      rcases hm with hm | hm | hm
      · rw [hmix] at hm
        cases hm
      · omega
      · rw [hm l]
        rfl
  have hk : Keeps s t := by
    refine hr.keeps h (whole_vectorizedMapping bundle) (placed_vectorizedMapping hinj hvec)
      fun l p hp => ?_
    rw [← Option.some.inj hp]
    exact hcell l
  cases hsc : (s.file.vrat arch).scalar with
  | none => exact hk
  | some p =>
    have hu : (s.file.vrat arch).Uses p := Or.inr (Or.inr ⟨hv, hsc⟩)
    refine hk.trans (hk.readable.markDead (hr.stale h.inv hu fun l hl => ?_))
    have hfree := hr.free p (mem_bundleNames.mpr ⟨copyOf l, Option.some.inj hl⟩)
    rw [h.inv.used arch p hu] at hfree
    cases hfree

/-- The defect: a mixed register that does get its bundle reads zero in every lane. -/
theorem Readable.read_vectorize_mixed (h : Readable s) (hm : mixed (s.file.vrat arch) = true)
    (hfree : 16 ≤ (freeVectors s).length) (l : Lane) : (s.vectorize arch).2.read arch l = 0 := by
  obtain ⟨hvf, hsc⟩ : (s.file.vrat arch).vectorized = false ∧ (s.file.vrat arch).scalar = none := by
    simpa [mixed] using hm
  rcases vectorize_cases h.inv arch with
    ⟨hv, -⟩ | ⟨t, -, hlt, -⟩ | ⟨bundle, t, -, he, hinj, hvec, hr, hval⟩
  · rw [hvf] at hv
    cases hv
  · omega
  · have hz := hval h.priv l
    rw [hsc] at hz
    rw [he, hsc]
    exact (hr.read_self h (whole_vectorizedMapping bundle) (placed_vectorizedMapping hinj hvec)
      rfl).trans hz

/-! ## The masked renames -/

section MaskedRename

variable {m : Mapping}

/-- A lane of a masked rename is moved or left alone. -/
theorem moveLanes_cases (m : Mapping) (active_mask : LaneMask) (phys : Lane → Phys)
    (element : Lane → Lane) (vec : Bool) (l : Lane) :
    let m' := moveLanes m active_mask phys element vec (finRange 128)
    (laneActive active_mask l = true ∧ m'.lanePhysical l = some (phys l) ∧
      m'.laneElement l = element l ∧ m'.laneVectorized l = vec) ∨
    (laneActive active_mask l = false ∧ m'.lanePhysical l = m.lanePhysical l ∧
      m'.laneElement l = m.laneElement l ∧ m'.laneVectorized l = m.laneVectorized l) := by
  cases hact : laneActive active_mask l with
  | true => exact Or.inl (by simp [moveLanes, hact])
  | false => exact Or.inr (by simp [moveLanes, hact])

/-- Lanes moved to the right sort of entry, under new names. -/
theorem placed_moveLanes (h : m.Placed) (active_mask : LaneMask) (phys : Lane → Phys)
    (element : Lane → Lane) (vec : Bool)
    (hnew : ∀ l l', m.lanePhysical l ≠ some (phys l'))
    (hvec : vec = true → ∀ l, 256 ≤ (phys l).val ∧ element l = elementOf l)
    (hcopy : vec = true → ∀ l l', phys l = phys l' → copyOf l = copyOf l')
    (hsca : vec = false → ∀ l, (phys l).val < 256) :
    (moveLanes m active_mask phys element vec (finRange 128)).Placed := by
  have hc := moveLanes_cases m active_mask phys element vec
  refine ⟨fun l p hp hv => ?_, fun l p hp hv => ?_, fun l l' p hp hp' hv hv' => ?_⟩
  · rcases hc l with ⟨-, h1, h2, h3⟩ | ⟨-, h1, h2, h3⟩
    · rw [← Option.some.inj (h1.symm.trans hp), h2]
      exact hvec (h3.symm.trans hv) l
    · rw [h2]
      exact h.vector l p (h1 ▸ hp) (h3 ▸ hv)
  · rcases hc l with ⟨-, h1, -, h3⟩ | ⟨-, h1, -, h3⟩
    · rw [← Option.some.inj (h1.symm.trans hp)]
      exact hsca (h3.symm.trans hv) l
    · exact h.scalar l p (h1 ▸ hp) (h3 ▸ hv)
  · rcases hc l with ⟨-, h1, -, h3⟩ | ⟨-, h1, -, h3⟩ <;>
      rcases hc l' with ⟨-, h1', -, h3'⟩ | ⟨-, h1', -, h3'⟩
    · exact hcopy (h3.symm.trans hv) l l' (Option.some.inj (by rw [← h1, ← h1', hp, hp']))
    · exact absurd (by rw [← h1', ← h1, hp, hp']) (hnew l' l)
    · exact absurd (by rw [← h1', ← h1, hp, hp']) (hnew l l')
    · exact h.copy l l' p (h1 ▸ hp) (h1' ▸ hp') (h3 ▸ hv) (h3' ▸ hv')

/-- The cells of a masked rename: moved lanes have been copied, the others are where they were. -/
theorem Remap.moveLanes_values {fresh : List Phys} (hr : Remap s t arch m fresh) (h : Readable s)
    (active_mask : LaneMask) {phys : Lane → Phys} {element : Lane → Lane} {vec : Bool}
    (hlanes : m.lanePhysical = (moveLanes (s.file.vrat arch) active_mask phys element vec
      (finRange 128)).lanePhysical)
    (hindex : m.index = (moveLanes (s.file.vrat arch) active_mask phys element vec
      (finRange 128)).index)
    (hcopied : ∀ l, laneActive active_mask l = true →
      (t.file.physical (phys l)).values (if vec then element l else l) = s.read arch l)
    (l : Lane) (p : Phys) (hp : m.lanePhysical l = some p) :
    (t.file.physical p).values (m.index l) = s.read arch l := by
  rw [hlanes] at hp
  rw [hindex, Mapping.index]
  rcases moveLanes_cases (s.file.vrat arch) active_mask phys element vec l with
    ⟨hact, h1, h2, h3⟩ | ⟨-, h1, h2, h3⟩
  · rw [← Option.some.inj (h1.symm.trans hp), h2, h3]
    exact hcopied l hact
  · rw [h1] at hp
    rw [h2, h3, hr.kept p (hr.not_mem_fresh h.inv hp)]
    exact (h.read_eq hp).symm

end MaskedRename

theorem Readable.renameVectorMasked (h : Readable s) (arch : Arch) (active_mask : LaneMask) :
    Keeps s (s.renameVectorMasked arch active_mask).2 := by
  rcases renameVectorMasked_cases h.inv arch active_mask with
    ⟨t, he, -, hu⟩ | ⟨bundle, t, he, hinj, hvec, hr, hval⟩
  · rw [he]
    exact hu.keeps h
  · rw [he]
    have hnew : ∀ l l', (s.file.vrat arch).lanePhysical l ≠ some (bundle (copyOf l')) :=
      fun l l' hl => hr.not_mem_fresh h.inv hl (mem_bundleNames.mpr ⟨_, rfl⟩)
    have hplaced := placed_moveLanes (h.placed arch) active_mask (fun l => bundle (copyOf l))
      elementOf true hnew (fun _ l => ⟨hvec _, rfl⟩) (fun _ l l' he => hinj he) (by simp)
    exact hr.releaseStale_keeps h (hr.keeps h (whole_renamedVector (h.whole arch) _ _)
      ⟨hplaced.vector, hplaced.scalar, hplaced.copy⟩
      (hr.moveLanes_values h active_mask rfl rfl (hval h.priv)))

theorem Readable.renameScalarMasked (h : Readable s) (arch : Arch) (active_mask : LaneMask) :
    Keeps s (s.renameScalarMasked arch active_mask).2 := by
  rcases renameScalarMasked_cases h.inv arch active_mask with ⟨he, -⟩ | ⟨q, t, he, hq, hr, hval⟩
  · rw [he]
    exact .refl h
  · rw [he]
    have hnew : ∀ l (_ : Lane), (s.file.vrat arch).lanePhysical l ≠ some q :=
      fun l _ hl => hr.not_mem_fresh h.inv hl mem_cons_self
    have hplaced := placed_moveLanes (h.placed arch) active_mask (fun _ => q) (fun _ => 0) false
      hnew (by simp) (by simp) (fun _ _ => hq)
    exact hr.releaseStale_keeps h (hr.keeps h (whole_renamedScalar (h.whole arch) _ _)
      ⟨hplaced.vector, hplaced.scalar, hplaced.copy⟩
      (hr.moveLanes_values h active_mask rfl rfl (hval h.priv)))

/-! ## Writing -/

/-- A write to one cell: read back there, invisible everywhere else. -/
theorem Readable.write (h : Readable s) (arch : Arch) (lane : Lane) (value : RegVal)
    (ready_tick : Nat) :
    Readable (s.write arch lane value ready_tick) ∧
      ∀ a l, (s.write arch lane value ready_tick).read a l
        = if a = arch ∧ l = lane then value else s.read a l := by
  obtain ⟨hb, hv⟩ := sameBooks_write (s := s) arch lane value ready_tick
  have ht : Readable (s.write arch lane value ready_tick) :=
    ⟨h.inv.sameBooks hb hv, fun a => hv ▸ h.whole a, fun a => hv ▸ h.placed a,
      hb.shared.trans h.priv⟩
  refine ⟨ht, fun a l => ?_⟩
  obtain ⟨p, hp⟩ := (h.whole arch).lanes lane
  obtain ⟨q, hq⟩ := (h.whole a).lanes l
  have hidx : s.physicalIndex arch lane = some p := by simp only [physicalIndex, hp]
  have hlane : s.physicalLane arch lane = (s.file.vrat arch).index lane := by
    simp only [physicalLane, hp, Mapping.index]
  have ha : s.file.allocated p = true := h.inv.used arch p (Or.inl ⟨lane, hp⟩)
  have hcell : ∀ r i, ((s.write arch lane value ready_tick).file.physical r).values i
      = if r = p ∧ i = (s.file.vrat arch).index lane then value
        else (s.file.physical r).values i := by
    intro r i
    simp only [State.write, hidx, hlane, setReady_values]
    by_cases hr : r = p
    · subst hr
      rw [writePhysical_values ha, update_apply]
      simp
    · rw [writePhysical_of_ne _ _ hr, if_neg fun hand => hr hand.1]
  rw [ht.read_eq (hv ▸ hq), h.read_eq hq, hv, hcell]
  -- the cell is the written one just when the pair is
  refine if_congr ⟨fun hw => ?_, fun hw => ?_⟩ rfl rfl
  · obtain ⟨hqp, hi⟩ := hw
    subst hqp
    have haa : a = arch := h.inv.owner a arch q (Or.inl ⟨l, hq⟩) (Or.inl ⟨lane, hp⟩)
    subst haa
    exact ⟨rfl, (h.placed a).index_injective hq hp hi⟩
  · obtain ⟨haa, hll⟩ := hw
    subst haa hll
    exact ⟨Option.some.inj (hq.symm.trans hp), rfl⟩

variable {regs : Arch → RegVal} {m : LaneRegs}

theorem readable_initialized (h : Initialized regs 32 s)
    (hs : s.file.shared = false) : Readable s ∧ ∀ a l, s.read a l = regs a := by
  have hr : Readable s := by
    refine ⟨h.inv, fun a => ?_, fun a => ?_, hs⟩ <;> rw [h.done a a.isLt]
    · exact whole_initialMapping a
    · refine ⟨fun l p _ hf => (by cases hf), fun l p hp _ => ?_, fun l l' p _ _ hf => (by cases hf)⟩
      rw [← Option.some.inj hp]
      exact Nat.lt_of_lt_of_le a.isLt (by decide)
  refine ⟨hr, fun a l => ?_⟩
  have hl : (s.file.vrat a).lanePhysical l = some (entryOf a) := by
    rw [h.done a a.isLt]
    rfl
  rw [hr.read_eq hl, h.values a a.isLt]

/-! ## Refinement -/

/-- What the register file is for: a value for every register and lane. -/
abbrev LaneRegs := Arch → Lane → RegVal

/-- The calls on such a map.  `initialize` takes a snapshot, `write` sets one value, the rest is
    invisible. -/
def LaneRegs.step (m : LaneRegs) : Op → LaneRegs
  | .initializeRegs regs => fun a _ => regs a
  | .write arch lane value _ => fun a l => if a.val = arch ∧ l.val = lane then value else m a l
  | _ => m

/-- No value is lost: `vectorize` does not meet a mixed register with a non-zero value, or there is
    no bundle for it. -/
def readsKept (s : State) : Op → Prop
  | .vectorize arch => ∀ h : arch < 32, mixed (s.file.vrat ⟨arch, h⟩) = false ∨
      (freeVectors s).length < 16 ∨ ∀ l, s.read ⟨arch, h⟩ l = 0
  | _ => True

/-- The file refines the map. -/
structure Refines (x : State × LaneRegs) : Prop where
  readable : Readable x.1
  read : ∀ a l, x.1.read a l = x.2 a l

theorem refines_mk (h : Readable s) (hread : ∀ a l, s.read a l = m a l) :
    Refines (s, m) := ⟨h, hread⟩

theorem Refines.keeps (h : Refines (s, m)) (hk : Keeps s t) : Refines (t, m) :=
  ⟨hk.readable, fun a l => (hk.read a l).trans (h.read a l)⟩

theorem Refines.step (h : Refines (s, m)) {op : Op} (hmap : op.mapping = true)
    (hop : readsKept s op) : Refines (step s op, m.step op) := by
  have hr : Readable s := h.readable
  cases op with
  | reset => cases hmap
  | allocateScalar => cases hmap
  | allocateVectorBundle => cases hmap
  | markDead phys => cases hmap
  | initializeRegs regs =>
    obtain ⟨hi, hs, -⟩ := initialized hr.inv.blank regs
    obtain ⟨h1, h2⟩ := readable_initialized hi (hs.trans hr.priv)
    exact refines_mk h1 h2
  | vectorize arch =>
    simp only [HelperRegs.step]
    split_ifs with harch
    · exact h.keeps (hr.vectorize (hop harch))
    · exact h
  | renameVectorMasked arch active_mask =>
    simp only [HelperRegs.step]
    split_ifs
    · exact h.keeps (hr.renameVectorMasked _ active_mask)
    · exact h
  | renameScalarMasked arch active_mask =>
    simp only [HelperRegs.step]
    split_ifs
    · exact h.keeps (hr.renameScalarMasked _ active_mask)
    · exact h
  | retainPhysical phys => exact h.keeps (hr.retainPhysical phys)
  | releasePhysical phys => exact h.keeps (hr.releasePhysical phys)
  | write arch lane value ready_tick =>
    simp only [HelperRegs.step]
    split_ifs with hin
    · obtain ⟨h1, h2⟩ := hr.write ⟨arch, hin.1⟩ ⟨lane, hin.2⟩ value ready_tick
      refine ⟨h1, fun a l => ?_⟩
      rw [h2, LaneRegs.step]
      refine if_congr ?_ rfl (h.read a l)
      rw [Fin.ext_iff, Fin.ext_iff]
    · -- out of range: refused here, and no such pair there
      refine ⟨hr, fun a l => ?_⟩
      have hout : ¬ (a.val = arch ∧ l.val = lane) := fun hand =>
        hin ⟨hand.1 ▸ a.isLt, hand.2 ▸ l.isLt⟩
      simp only [LaneRegs.step, if_neg hout]
      exact h.read a l

/-- A call that is not `readsKept` is seen. -/
theorem Refines.lost (h : Refines (s, m)) {op : Op} (hop : ¬ readsKept s op) :
    ¬ ∀ a l, (HelperRegs.step s op).read a l = m.step op a l := by
  cases op with
  | vectorize arch =>
    simp only [readsKept, not_forall, not_or, Bool.not_eq_false, Nat.not_lt] at hop
    obtain ⟨harch, hmix, hfree, l, hl⟩ := hop
    intro hall
    have hz := h.readable.read_vectorize_mixed hmix hfree l
    have hm := hall ⟨arch, harch⟩ l
    simp only [HelperRegs.step, dif_pos harch] at hm
    rw [hz] at hm
    exact hl ((h.read _ l).trans hm.symm)
  | _ => exact absurd trivial hop

/-- THE FILE REFINES THE MAP just when nothing is lost.  For every sequence of mapping calls from
    `initialize` with the private bank: every read of every state it goes through is the latest write
    to that register and lane (or the snapshot) IF AND ONLY IF no `vectorize` met a mixed register
    with a non-zero value. -/
theorem reads_refine_iff (bank : Bank) (regs : Arch → RegVal) (calls : List Op)
    (hops : ∀ op ∈ calls, op.mapping = true) :
    (∀ pre, pre <+: calls → ∀ a l, (pre.foldl step (initialState false bank regs)).read a l
      = (pre.foldl LaneRegs.step (fun a _ => regs a)) a l) ↔
    Trace.Admits readsKept step (initialState false bank regs) calls := by
  have h0 : Refines (initialState false bank regs, fun a _ => regs a) := by
    obtain ⟨hi, hs⟩ := initialized_initialState false bank regs
    obtain ⟨h1, h2⟩ := readable_initialized hi hs
    exact refines_mk h1 h2
  have hiff : (∀ pre, pre <+: calls → ∀ a l,
        (pre.foldl (Trace.both step LaneRegs.step) (initialState false bank regs, fun a _ => regs a)).1.read
          a l =
        (pre.foldl (Trace.both step LaneRegs.step) (initialState false bank regs, fun a _ => regs a)).2 a l) ↔
      Trace.Admits (fun x op => readsKept x.1 op) (Trace.both step LaneRegs.step)
        (initialState false bank regs, fun a _ => regs a) calls :=
    Trace.admits_iff_prefix Refines
      (fun x => ∀ a l, x.1.read a l = x.2 a l) (fun op => op.mapping = true)
      (fun x op hx hmap hop => Refines.step hx hmap hop) (fun x hx => hx.read)
      (fun x op hx _ hop => Refines.lost hx hop) h0 hops
  rw [Trace.admits_both_fst] at hiff
  rw [← hiff]
  refine forall_congr' fun pre => ?_
  rw [Trace.foldl_both]

/-- A rename of lane 0 moves it to another entry; the value written afterwards is read back. -/
theorem reads_refine_write : ([.renameScalarMasked 0 1, .write 0 0 5 0].foldl step
      (initialState false emptyBank fun _ => 7)).read 0 0 = 5 :=
  (reads_refine_iff emptyBank (fun _ => 7) [.renameScalarMasked 0 1, .write 0 0 5 0]
    (by simp [Op.mapping])).mpr ⟨trivial, trivial, trivial⟩ _ prefix_rfl 0 0

/-! ## A value lost -/

/-- A scalar rename of lane 0 alone leaves a register mixed, and no vector entry is taken. -/
theorem mixed_of_rename_one_lane (hi : Initialized regs 32 s) :
    mixed ((s.renameScalarMasked 0 1).2.file.vrat 0) = true ∧
      16 ≤ (freeVectors (s.renameScalarMasked 0 1).2).length := by
  rcases renameScalarMasked_cases hi.inv 0 1 with ⟨-, hfull⟩ | ⟨p, t, he, hp, hr, -⟩
  · have hfree := hfull ⟨100, by decide⟩ (by decide)
    rw [hi.allocated] at hfree
    simp at hfree
  rw [he]
  constructor
  · -- lane 0 has the new name, lane 1 the old one
    have hvrat : (t.releaseStale 0 (s.physicalMappings 0)).file.vrat 0
        = renamedScalar (s.file.vrat 0) 1 p := by
      rw [releaseStale_vrat, hr.vrat, update_self]
    rw [hvrat, mixed]
    cases hsc : (renamedScalar (s.file.vrat 0) 1 p).scalar with
    | none => rfl
    | some q =>
      have hw := whole_renamedScalar (hi.done 0 (by decide) ▸ whole_initialMapping 0) 1 p
      have h0 := (hw.uniform q hsc 0).1
      have h1 := (hw.uniform q hsc 1).1
      rw [renamedScalar_fresh (by decide)] at h0
      rcases moveLanes_cases (s.file.vrat 0) 1 (fun _ => p) (fun _ => 0) false 1 with
        ⟨hact, -⟩ | ⟨-, hidle, -⟩
      · exact absurd hact (by decide)
      · have hold : (s.file.vrat 0).lanePhysical 1 = some p := by
          rw [← hidle, h0]
          exact h1
        exact absurd mem_cons_self (hr.not_mem_fresh hi.inv hold)
  · have hfree : freeVectors (t.releaseStale 0 (s.physicalMappings 0)) = vectorEntries := by
      refine filter_eq_self.mpr fun q hq => ?_
      have hvec : 256 ≤ q.val := of_decide_eq_true (mem_filter.mp hq).2
      have hsq : s.file.allocated q = false := by
        rw [hi.allocated]
        exact decide_eq_false (by omega)
      have hold : q ∉ s.physicalMappings 0 := fun hmem => by
        rw [hi.inv.used 0 q (uses_of_mem_physicalMappings hmem)] at hsq
        cases hsq
      have hqp : q ∉ [p] := fun hmem => by
        rw [mem_singleton.mp hmem] at hvec
        omega
      rw [(releaseStale_of_not_mem hold).1, hr.allocated, hsq, decide_eq_false hqp]
      rfl
    rw [hfree, length_vectorEntries]
    decide

/-- Lane 0 of a register is renamed, then the register is vectorized: what it read is lost. -/
theorem read_rename_vectorize (hi : Initialized regs 32 s) (hs : s.file.shared = false) :
    ([.renameScalarMasked 0 1, .vectorize 0].foldl step s).read 0 0 = 0 := by
  obtain ⟨hmix, hfree⟩ := mixed_of_rename_one_lane hi
  have hk := (readable_initialized hi hs).1.renameScalarMasked 0 1
  exact hk.readable.read_vectorize_mixed hmix hfree 0

/-- It read 7 before and reads 0 now. -/
theorem vectorize_mixed_loses : ¬ ∀ a l, ([.renameScalarMasked 0 1, .vectorize 0].foldl step
        (initialState false emptyBank fun _ => 7)).read a l
      = ([.renameScalarMasked 0 1, .vectorize 0].foldl LaneRegs.step (fun _ _ => 7)) a l := by
  intro hall
  obtain ⟨hi, hs⟩ := initialized_initialState false emptyBank (fun _ => 7)
  have h7 := hall 0 0
  rw [read_rename_vectorize hi hs] at h7
  exact absurd h7 (by decide)

end Gem5Dvr.HelperRegs
