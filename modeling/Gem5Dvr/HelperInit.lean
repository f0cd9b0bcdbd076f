/-
  `reset` and `initialize` of the helper register file.

  `reset` gives every borrowed name back and leaves the file as constructed.  `initialize` then
  takes one scalar entry per architectural register; since `allocateScalar` takes the FIRST free
  entry, register `a` gets entry `a`, and the early exit of the loop is never taken.  `initialized` is the
  state every later result starts from.
-/
import Gem5Dvr.HelperInv

namespace Gem5Dvr.HelperRegs

open List Function

open State

variable {s t : State} {p q : Phys}

/-! ## Reset -/

/-- What `releaseAll` leaves behind after the entries `pre`. -/
structure ReleaseLoop (s : State) (pre : List Phys) (t : State) : Prop where
  shared : t.file.shared = s.file.shared
  released : ∀ q ∈ pre, t.file.allocated q = false
  blank : t.Blank
  total : s.file.shared = true → ∀ r, t.total r = s.total r

theorem releaseLoop (hb : s.Blank) : ReleaseLoop s (finRange 384) s.releaseAll := by
  refine Fold.foldl_prefix (P := ReleaseLoop s) ⟨rfl, by simp, hb, fun _ _ => rfl⟩ ?_
    (nodup_finRange 384)
  intro pre a t ha h
  unfold reclaimAllocated
  split_ifs with hta
  · refine ⟨h.shared, fun q hq => ?_, reclaim_blank h.blank, fun hs r => ?_⟩
    · rw [reclaim_allocated]
      by_cases hqa : q = a
      · subst hqa; simp
      · rw [update_of_ne hqa]
        rcases mem_append.mp hq with hq | hq
        · exact h.released q hq
        · exact absurd (mem_singleton.mp hq) hqa
    · rw [reclaim_total (h.shared.trans hs), h.total hs]
  · refine ⟨h.shared, fun q hq => ?_, h.blank, h.total⟩
    rcases mem_append.mp hq with hq | hq
    · exact h.released q hq
    · rw [mem_singleton.mp hq]
      simpa using hta

/-- After `reset` the file is as constructed. -/
theorem reset_spec (hb : s.Blank) : s.reset.file = { shared := s.file.shared } ∧
      (s.file.shared = true → ∀ r, s.reset.total r = s.total r) := by
  have h := releaseLoop hb
  have hal : s.releaseAll.file.allocated = fun _ => false :=
    funext fun q => h.released q (mem_finRange q)
  refine ⟨?_, fun hs r => ?_⟩
  · simp only [reset, h.shared, hal]
  · rw [← h.total hs r]
    have hn : ∀ q, (s.releaseAll.file.physical q).names = [] := fun q =>
      h.blank.names (congrFun hal q)
    have hblank : ({} : PhysicalRegister).names = [] := rfl
    simp only [State.total, reset, hn, hblank]

/-! ## The first mapping -/

/-- The entry of a register right after `initialize`. -/
def entryOf (arch : Arch) : Phys := ⟨arch.val, by omega⟩

theorem entryOf_injective : Function.Injective entryOf := fun _ _ h =>
  Fin.ext (Fin.mk.inj h)

/-- The mapping `initialize` installs. -/
def initialMapping (arch : Arch) : Mapping :=
  { scalar := some (entryOf arch), lanePhysical := fun _ => some (entryOf arch) }

/-- `allocateScalar` takes the FIRST free entry. -/
theorem allocateScalar_first {k : Nat} (hk : k < 256)
    (hal : ∀ q : Phys, s.file.allocated q = decide (q.val < k)) :
    ∃ t, s.allocateScalar = (some ⟨k, by omega⟩, t) := by
  let e : Phys := ⟨k, by omega⟩
  have he : (decide (e.val < NumScalarPhysicalRegs) && !s.file.allocated e) = true := by
    simp [e, NumScalarPhysicalRegs, hk, hal]
  unfold allocateScalar
  cases hf : (finRange 384).find? (fun p =>
      decide (p.val < NumScalarPhysicalRegs) && !s.file.allocated p) with
  | none => exact absurd he (find?_eq_none.mp hf e (mem_finRange e))
  | some p =>
    obtain ⟨hp, as, bs, hsplit, has⟩ := find?_eq_some_iff_append.mp hf
    have hpk : k ≤ p.val := by
      rw [Bool.and_eq_true, Bool.not_eq_true', hal] at hp
      simpa using hp.2
    -- an entry after `p` in the list is larger than `p`, one before it was refused
    have hpe : p = e := by
      have hmem : e ∈ as ++ p :: bs := hsplit ▸ mem_finRange e
      have hsorted : (as ++ p :: bs).Pairwise (· < ·) := hsplit ▸ pairwise_lt_finRange 384
      rcases mem_append.mp hmem with hmem | hmem
      · have := has e hmem
        simp [he] at this
      · rcases mem_cons.mp hmem with hmem | hmem
        · exact hmem.symm
        · have hlt := (pairwise_cons.mp (pairwise_append.mp hsorted).2.1).1 e hmem
          have : p.val < k := hlt
          omega
    exact ⟨_, by rw [hpe]⟩

/-- The file after `initialize` has done the first `k` registers. -/
structure Initialized (regs : Arch → RegVal) (k : Nat) (t : State) : Prop where
  done : ∀ a, a.val < k → t.file.vrat a = initialMapping a
  todo : ∀ a, k ≤ a.val → t.file.vrat a = {}
  allocated : ∀ q, t.file.allocated q = decide (q.val < k)
  fresh : ∀ q, q.val < k → ∃ id, (t.file.physical q).book = freshScalar id
  blank : t.Blank
  values : ∀ a, a.val < k → ∀ l, (t.file.physical (entryOf a)).values l = regs a

/-- The value loop of `initialize`. -/
structure FillLoop (s : State) (p : Phys) (v : RegVal) (pre : List Lane) (t : State) : Prop where
  books : SameBooks s t
  vrat : t.file.vrat = s.file.vrat
  kept : ∀ q, q ≠ p → t.file.physical q = s.file.physical q
  filled : ∀ l ∈ pre, (t.file.physical p).values l = v

theorem fillLoop (hal : s.file.allocated p = true) (v : RegVal) : FillLoop s p v (finRange 128)
      ((finRange 128).foldl (fun s lane => s.writePhysical (some p) lane v) s) := by
  refine Fold.foldl_prefix (P := FillLoop s p v) ⟨.refl s, rfl, fun _ _ => rfl, by simp⟩ ?_
    (nodup_finRange 128)
  intro pre a t ha h
  refine ⟨h.books.trans (sameBooks_writePhysical _ _ _), (writePhysical_vrat _ _ _).trans h.vrat,
    fun q hq => (writePhysical_of_ne _ _ hq).trans (h.kept q hq), fun l hl => ?_⟩
  rw [writePhysical_values (by rw [h.books.allocated, hal])]
  by_cases hla : l = a
  · subst hla; simp
  · rw [update_of_ne hla]
    rcases mem_append.mp hl with hl | hl
    · exact h.filled l hl
    · exact absurd (mem_singleton.mp hl) hla

variable {regs : Arch → RegVal}

/-- One register of `initialize`. -/
theorem initialized_step {a : Arch} (h : Initialized regs a.val s) (rest : List Arch) :
    ∃ t, initializeLoop regs (a :: rest) s = initializeLoop regs rest t ∧
      Initialized regs (a.val + 1) t ∧ t.file.shared = s.file.shared ∧
      (s.file.shared = true → ∀ r, t.total r = s.total r) := by
  obtain ⟨u, hu⟩ := allocateScalar_first (s := s) (k := a.val) (by omega) h.allocated
  have htk : TakesScalar s u (entryOf a) := allocateScalar_some h.blank hu
  let m : Mapping := { u.file.vrat a with
    scalar := some (entryOf a), lanePhysical := fun _ => some (entryOf a),
    laneElement := fun _ => 0, laneVectorized := fun _ => false }
  have hal : (u.setMapping a m).file.allocated (entryOf a) = true := by
    change u.file.allocated (entryOf a) = true
    rw [htk.allocated]
    exact update_self _ _ _
  have hfill := fillLoop hal (regs a)
  have hbooks := (sameBooks_setMapping (s := u) a m).trans hfill.books
  have hm : m = initialMapping a := by
    have hblank : u.file.vrat a = {} := by rw [htk.vrat, h.todo a (le_refl _)]
    simp only [m, hblank, initialMapping]
  have hvrat : ∀ b, ((finRange 128).foldl
      (fun s lane => s.writePhysical (some (entryOf a)) lane (regs a))
      (u.setMapping a m)).file.vrat b = if b = a then initialMapping a else s.file.vrat b := by
    intro b
    rw [hfill.vrat]
    change Function.update u.file.vrat a m b = _
    by_cases hb : b = a
    · rw [if_pos hb, hb, update_self, hm]
    · rw [if_neg hb, update_of_ne hb, htk.vrat]
  refine ⟨_, ?_, ⟨fun b hb => ?_, fun b hb => ?_, fun q => ?_, fun q hq => ?_,
    hbooks.blank htk.blank, fun b hb l => ?_⟩, hbooks.shared.trans htk.shared, fun hs r => ?_⟩
  · rw [initializeLoop, hu]
    rfl
  · rw [hvrat]
    by_cases hba : b = a
    · rw [if_pos hba, hba]
    · have hne : b.val ≠ a.val := fun hv => hba (Fin.ext hv)
      rw [if_neg hba]
      exact h.done b (by omega)
  · have hba : b ≠ a := by
      rintro rfl
      omega
    rw [hvrat, if_neg hba]
    exact h.todo b (by omega)
  · rw [hbooks.allocated, htk.allocated]
    by_cases hq : q = entryOf a
    · subst hq
      simp [entryOf]
    · have hne : q.val ≠ a.val := fun hv => hq (Fin.ext hv)
      rw [update_of_ne hq, h.allocated]
      simp only [decide_eq_decide]
      omega
  · by_cases hqa : q = entryOf a
    · obtain ⟨id, hf⟩ := htk.fresh
      exact ⟨id, by rw [hqa, hbooks.book]; exact hf⟩
    · have hne : q.val ≠ a.val := fun hv => hqa (Fin.ext hv)
      obtain ⟨id, hf⟩ := h.fresh q (by omega)
      refine ⟨id, ?_⟩
      rw [hbooks.book, htk.kept q hqa, hf]
  · by_cases hba : b = a
    · subst hba
      exact hfill.filled l (mem_finRange l)
    · have hval : b.val ≠ a.val := fun hv => hba (Fin.ext hv)
      have hne : entryOf b ≠ entryOf a := fun he => hba (entryOf_injective he)
      rw [hfill.kept _ hne]
      change (u.file.physical (entryOf b)).values l = regs b
      rw [htk.kept _ hne]
      exact h.values b (by omega) l
  · rw [hbooks.total, htk.total hs]

theorem initializeLoop_spec : ∀ (n k : Nat) (s : State), n + k = 32 → Initialized regs k s →
      Initialized regs 32 (initializeLoop regs ((finRange 32).drop k) s) ∧
      (initializeLoop regs ((finRange 32).drop k) s).file.shared = s.file.shared ∧
      (s.file.shared = true → ∀ r,
        (initializeLoop regs ((finRange 32).drop k) s).total r = s.total r) := by
  intro n
  induction n with
  | zero =>
    intro k s hk h
    have hk : k = 32 := by omega
    subst hk
    exact ⟨h, rfl, fun _ _ => rfl⟩
  | succ n ih =>
    intro k s hk h
    have hlt : k < (finRange 32).length := by
      rw [length_finRange]
      omega
    rw [drop_eq_getElem_cons hlt, getElem_finRange]
    obtain ⟨t, ht, hinit, hsh, htot⟩ := initialized_step
      (a := (⟨k, by omega⟩ : Arch)) h ((finRange 32).drop (k + 1))
    obtain ⟨h1, h2, h3⟩ := ih (k + 1) t (by omega) hinit
    have ht' : initializeLoop regs (Fin.cast (length_finRange) ⟨k, hlt⟩ ::
        (finRange 32).drop (k + 1)) s
        = initializeLoop regs ((finRange 32).drop (k + 1)) t := ht
    rw [ht']
    exact ⟨h1, h2.trans hsh, fun hs r => (h3 (hsh.trans hs) r).trans (htot hs r)⟩

/-- `initialize`: register `a` is in scalar entry `a`, every lane reads the snapshot. -/
theorem initialized (hb : s.Blank) (regs : Arch → RegVal) :
    Initialized regs 32 (s.initializeRegs regs) ∧
      (s.initializeRegs regs).file.shared = s.file.shared ∧
      (s.file.shared = true → ∀ r, (s.initializeRegs regs).total r = s.total r) := by
  obtain ⟨hfile, htot⟩ := reset_spec hb
  have h0 : Initialized regs 0 s.reset := by
    refine ⟨fun a ha => absurd ha (Nat.not_lt_zero _), fun a _ => by rw [hfile], fun q => ?_,
      fun q hq => absurd hq (Nat.not_lt_zero _), fun q _ => ?_,
      fun a ha => absurd ha (Nat.not_lt_zero _)⟩
    · rw [hfile]
      exact (decide_eq_false (Nat.not_lt_zero _)).symm
    · rw [hfile]
      rfl
  have hloop := initializeLoop_spec 32 0 s.reset rfl h0
  rw [drop_zero] at hloop
  unfold initializeRegs
  obtain ⟨h1, h2, h3⟩ := hloop
  have hsh : s.reset.file.shared = s.file.shared := by rw [hfile]
  exact ⟨h1, h2.trans hsh, fun hs r => (h3 (hsh.trans hs) r).trans (htot hs r)⟩

theorem Initialized.uses (h : Initialized regs 32 t) {a : Arch} :
    (t.file.vrat a).Uses p ↔ p = entryOf a := by
  rw [h.done a a.isLt]
  constructor
  · rintro (⟨l, hl⟩ | ⟨hv, -⟩ | ⟨-, hsc⟩)
    · exact (Option.some.inj hl).symm
    · cases hv
    · exact (Option.some.inj hsc).symm
  · rintro rfl
    exact Or.inl ⟨0, rfl⟩

theorem Initialized.inv (h : Initialized regs 32 t) : Inv t := by
  refine ⟨h.blank, fun q hq => ?_, fun a q hu => ?_, fun a b q ha hb => ?_, fun a q hu => ?_⟩
  · obtain ⟨id, hf⟩ := h.fresh q (by simpa [h.allocated] using hq)
    exact (freshScalar_pending hf).2
  · rw [h.uses.mp hu, h.allocated]
    exact decide_eq_true a.isLt
  · exact entryOf_injective ((h.uses.mp ha).symm.trans (h.uses.mp hb))
  · obtain ⟨id, hf⟩ := h.fresh q (by rw [h.uses.mp hu]; exact a.isLt)
    exact (freshScalar_pending hf).1

end Gem5Dvr.HelperRegs
