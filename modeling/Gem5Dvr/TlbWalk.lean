/-
  What a walk of the page tables finds.

    1. Addresses bit by bit: sign extension, page masks, keys of the trie.
    2. The walker only marks entries as accessed and dirty (`SameTables`).
    3. `descend`: the leaf under an address, which marks do not move.  A walk is `stepLeaf` on it, or
       faults without a write (`walkLoop_some`, `walkLoop_none`).
    4. `stepLeaf` by its outcome.

  The crux is `descend_congr`: the leaf of a page is that of each of its addresses, so two pages of one
  address space that overlap are one page.
-/
import Gem5Dvr.Bitfield
import Gem5Dvr.Tlb

namespace Gem5Dvr.Tlb

open Function

open BitPrefix

/-! ## Addresses -/

theorem getLsbD_sext (v : BitVec 64) (j : Nat) :
    (sext v).getLsbD j = (decide (j < 64) && v.getLsbD (min j 38)) := by
  have hmsb : (v.extractLsb' 0 39).msb = v.getLsbD 38 := by
    rw [BitVec.msb_eq_getLsbD_last, BitVec.getLsbD_extractLsb']
    rfl
  unfold sext
  rw [BitVec.getLsbD_signExtend]
  by_cases h : j < 39
  · have hmin : min j 38 = j := by omega
    rw [if_pos h, hmin, BitVec.getLsbD_extractLsb', decide_eq_true h, Bool.true_and, Nat.zero_add]
  · have hmin : min j 38 = 38 := by omega
    rw [if_neg h, hmin, hmsb]

theorem sext_sext (v : BitVec 64) : sext (sext v) = sext v := by
  apply BitVec.eq_of_getLsbD_eq
  intro j hj
  have hmin : min (min j 38) 38 = min j 38 := by omega
  have hlt : min j 38 < 64 := by omega
  rw [getLsbD_sext, getLsbD_sext, getLsbD_sext, hmin, decide_eq_true hlt, Bool.true_and]

variable {v : BitVec 64} {n : Nat}

/-- The bits of a canonical address from bit 38 on are all the same. -/
theorem getLsbD_canonical (hv : sext v = v) {j : Nat} (h : 38 ≤ j) (hj : j < 64) :
    v.getLsbD j = v.getLsbD 38 := by
  have hmin : min j 38 = 38 := by omega
  rw [← hv, getLsbD_sext, hmin, decide_eq_true hj, Bool.true_and, hv]

theorem pageMask_eq (hn : n < 64) : pageMask n = maskOf 64 (64 - n) := by
  have hmask : (1#64 <<< n) - 1#64 = Bitfield.mask n := (if_neg (by omega)).symm
  have hsub : 64 - (64 - n) = n := by omega
  unfold pageMask maskOf
  rw [hmask, hsub]
  apply BitVec.eq_of_getLsbD_eq
  intro j hj
  rw [BitVec.getLsbD_not, Bitfield.getLsbD_mask, BitVec.getLsbD_shiftLeft, BitVec.getLsbD_allOnes]
  by_cases hjn : j < n
  · simp [hj, hjn]
  · have hlt : j - n < 64 := by omega
    simp [hj, hjn, hlt]

/-- The base of a page has the page's bits. -/
theorem agree_and_pageMask (hn : n < 64) (v : BitVec 64) : Agree (64 - n) (v &&& pageMask n) v := by
  rw [pageMask_eq hn]
  exact agree_and_maskOf _ v

theorem and_pageMask_eq_iff (hn : n < 64) {base : BitVec 64}
    (hb : base &&& pageMask n = base) : v &&& pageMask n = base ↔ Agree (64 - n) v base := by
  rw [← and_maskOf_eq_iff, ← pageMask_eq hn, hb]

theorem canonical_and_pageMask (hn : n ≤ 38) (hv : sext v = v) :
    sext (v &&& pageMask n) = v &&& pageMask n := by
  rw [pageMask_eq (by omega)]
  apply BitVec.eq_of_getLsbD_eq
  intro j hj
  have hmask : ∀ i < 64, (maskOf 64 (64 - n)).getLsbD i = decide (n ≤ i) := by
    intro i hi
    rw [BitVec.getLsbD_eq_getMsbD, getMsbD_maskOf]
    by_cases hni : n ≤ i
    · have h1 : 64 - 1 - i < 64 - n := by omega
      have h2 : 64 - 1 - i < 64 := by omega
      simp [hi, hni, h1]
      omega
    · have h1 : ¬ 64 - 1 - i < 64 - n := by omega
      simp [hni, h1]
  rw [getLsbD_sext, decide_eq_true hj, Bool.true_and, BitVec.getLsbD_and, BitVec.getLsbD_and]
  by_cases hlow : j ≤ 38
  · rw [Nat.min_eq_left hlow]
  · have hjn : n ≤ j := by omega
    rw [Nat.min_eq_right (by omega), getLsbD_canonical hv (by omega) hj, hmask 38 (by omega),
      hmask j hj, decide_eq_true hn, decide_eq_true hjn]

/-! ## Keys -/

theorem getLsbD_buildKey (v : BitVec 64) (asid : BitVec 16) {j : Nat} (hj : j < 64) :
    (buildKey v asid).getLsbD j = ((decide (48 ≤ j) && asid.getLsbD (j - 48)) || v.getLsbD j) := by
  unfold buildKey
  rw [BitVec.getLsbD_or, BitVec.getLsbD_shiftLeft, BitVec.getLsbD_setWidth]
  by_cases h : j < 48
  · have hle : ¬ 48 ≤ j := by omega
    simp [h]
  · have hle : 48 ≤ j := by omega
    have hlt : j - 48 < 64 := by omega
    simp [hj, h, hle, hlt]

/-- Agreement counted from the other end. -/
theorem agree_iff_getLsbD (hn : n ≤ 64) {a b : BitVec 64} :
    Agree n a b ↔ ∀ j, 64 - n ≤ j → j < 64 → a.getLsbD j = b.getLsbD j := by
  constructor
  · intro h j hle hlt
    rw [BitVec.getLsbD_eq_getMsbD, BitVec.getLsbD_eq_getMsbD, h (64 - 1 - j) (by omega)]
  · intro h i hi
    rw [BitVec.getMsbD_eq_getLsbD, BitVec.getMsbD_eq_getLsbD, h (64 - 1 - i) (by omega) (by omega)]

/-- Within an address space keys tell addresses apart. -/
theorem agree_buildKey_iff (hn : 26 ≤ n) (hle : n ≤ 64) {v' : BitVec 64}
    (hv : sext v = v) (hv' : sext v' = v') (asid : BitVec 16) :
    Agree n (buildKey v asid) (buildKey v' asid) ↔ Agree n v v' := by
  rw [agree_iff_getLsbD hle, agree_iff_getLsbD hle]
  constructor
  · intro h
    have hlow : ∀ j, 64 - n ≤ j → j < 48 → v.getLsbD j = v'.getLsbD j := by
      intro j hj hlt
      have hbit := h j hj (by omega)
      have hno : ¬ 48 ≤ j := by omega
      rw [getLsbD_buildKey v asid (by omega), getLsbD_buildKey v' asid (by omega)] at hbit
      simpa [hno] using hbit
    intro j hj hlt
    by_cases h48 : j < 48
    · exact hlow j hj h48
    · rw [getLsbD_canonical hv (by omega) hlt, getLsbD_canonical hv' (by omega) hlt]
      exact hlow 38 (by omega) (by omega)
  · intro h j hj hlt
    rw [getLsbD_buildKey v asid hlt, getLsbD_buildKey v' asid hlt, h j hj hlt]

/-- A key of the lower half keeps its address space: bits 38 to 47 tell the half. -/
theorem asid_eq_of_agree (hn : 26 ≤ n) (hle : n ≤ 64) {v' : BitVec 64}
    (hv : sext v = v) (hv' : sext v' = v') (hlow : v.getLsbD 38 = false) {asid asid' : BitVec 16}
    (h : Agree n (buildKey v asid) (buildKey v' asid')) : asid = asid' := by
  rw [agree_iff_getLsbD hle] at h
  have hlow' : v'.getLsbD 38 = false := by
    have hbit := h 38 (by omega) (by omega)
    rw [getLsbD_buildKey v asid (by omega), getLsbD_buildKey v' asid' (by omega), hlow] at hbit
    simpa using hbit.symm
  apply BitVec.eq_of_getLsbD_eq
  intro i hi
  have hsub : i + 48 - 48 = i := by omega
  have hge : 48 ≤ i + 48 := by omega
  have hbit := h (i + 48) (by omega) (by omega)
  rw [getLsbD_buildKey v asid (by omega), getLsbD_buildKey v' asid' (by omega), hsub,
    getLsbD_canonical hv (by omega) (by omega), getLsbD_canonical hv' (by omega) (by omega), hlow,
    hlow', decide_eq_true hge] at hbit
  simpa using hbit

/-! ## Marks -/

/-- The entry, with more of the A and D bits. -/
structure Marked (pte pte' : PTESv39) : Prop where
  ppn : pte'.ppn = pte.ppn
  u : pte'.u = pte.u
  x : pte'.x = pte.x
  w : pte'.w = pte.w
  r : pte'.r = pte.r
  v : pte'.v = pte.v
  a : pte.a = true → pte'.a = true
  d : pte.d = true → pte'.d = true

theorem Marked.refl (pte : PTESv39) : Marked pte pte := ⟨rfl, rfl, rfl, rfl, rfl, rfl, id, id⟩

theorem Marked.trans {p q r : PTESv39} (h : Marked p q) (h' : Marked q r) : Marked p r :=
  ⟨h'.ppn.trans h.ppn, h'.u.trans h.u, h'.x.trans h.x, h'.w.trans h.w, h'.r.trans h.r,
    h'.v.trans h.v, fun ha => h'.a (h.a ha), fun hd => h'.d (h.d hd)⟩

/-- The same page tables but for A and D bits, of which there are more. -/
def SameTables (mem mem' : Nat → PTESv39) : Prop := ∀ addr, Marked (mem addr) (mem' addr)

theorem SameTables.refl (mem : Nat → PTESv39) : SameTables mem mem := fun _ => Marked.refl _

theorem SameTables.trans {m m' m'' : Nat → PTESv39} (h : SameTables m m')
    (h' : SameTables m' m'') : SameTables m m'' := fun addr => (h addr).trans (h' addr)

/-! ## Leaves -/

section Descend

variable {g : Tables} {mem : Nat → PTESv39} {v v' : BitVec 64}

/-- The valid leaf that a walk from an entry on comes to: its level and its address. -/
def descend (g : Tables) (mem : Nat → PTESv39) (vaddr : BitVec 64) (level addr : Nat) :
    Option (Nat × Nat) :=
  if g.pmp false addr = false then none
  else if (mem addr).v = false ∨ ((mem addr).r = false ∧ (mem addr).w = true) then none
  else if (mem addr).r = true ∨ (mem addr).x = true then some (level, addr)
  else
    match level with
    | 0 => none
    | level + 1 => descend g mem vaddr level (((mem addr).ppn <<< 12) + indexBytes vaddr level)

variable {c : Context} {asid : BitVec 16} {level addr L p : Nat}

/-- What the PMP answers to a read of a walk that is checked. -/
theorem Tables.Asks.pmpCheck (h : g.Asks c) (addr : Nat) :
    g.pmpCheck c false addr = g.pmp false addr := by
  have hasks : g.pmpCheck c false addr =
      (!Pmp.shouldCheckPMP .PRV_S .Read c.status || g.pmp false addr) := by
    unfold Tables.pmpCheck
    simp
  rw [hasks]
  rcases h with hcheck | hall
  · rw [hcheck, Bool.not_true, Bool.false_or]
  · rw [hall addr, Bool.or_true]

/-- A walk ends with its first step that does. -/
theorem walkLoop_ends {e : WalkEnd} (h : stepWalk g c v asid level addr (mem addr) = .ends e) :
    walkLoop g mem c v asid level addr = some e := by
  cases level with
  | zero =>
    unfold walkLoop
    rw [h]
  | succ level =>
    unfold walkLoop
    rw [h]

theorem walkLoop_some (hasks : g.Asks c) (h : descend g mem v level addr = some (L, p)) :
    walkLoop g mem c v asid level addr = some (stepLeaf g c v asid L p (mem p)) := by
  fun_induction descend g mem v level addr with
  | case1 => cases h
  | case2 => cases h
  | case3 level addr hp hv hl =>
    cases h
    refine walkLoop_ends ?_
    unfold stepWalk
    rw [hasks.pmpCheck, if_neg hp, if_neg hv, if_pos hl]
  | case4 => cases h
  | case5 addr hp hv hl level ih =>
    unfold walkLoop stepWalk
    rw [hasks.pmpCheck, if_neg hp, if_neg hv, if_neg hl]
    exact ih h

/-- A walk that finds no leaf faults, in the same way whatever has been marked. -/
theorem walkLoop_none (hasks : g.Asks c) (h : descend g mem v level addr = none) :
    ∃ f, ∀ mem', SameTables mem mem' →
      walkLoop g mem' c v asid level addr = some { result := .error f } := by
  fun_induction descend g mem v level addr with
  | case1 level addr hp =>
    refine ⟨⟨v, .LOAD_ACCESS⟩, fun mem' _ => walkLoop_ends ?_⟩
    unfold stepWalk
    rw [hasks.pmpCheck, if_pos hp]
  | case2 level addr hp hv =>
    refine ⟨createPagefault v c.mode, fun mem' hs => walkLoop_ends ?_⟩
    have hm := hs addr
    unfold stepWalk
    rw [hasks.pmpCheck, if_neg hp, hm.v, hm.r, hm.w, if_pos hv]
  | case3 => cases h
  | case4 addr hp hv hl =>
    refine ⟨createPagefault v c.mode, fun mem' hs => walkLoop_ends ?_⟩
    have hm := hs addr
    unfold stepWalk
    rw [hasks.pmpCheck, if_neg hp, hm.v, hm.r, hm.w, hm.x, if_neg hv, if_neg hl]
  | case5 addr hp hv hl level ih =>
    obtain ⟨f, hf⟩ := ih h
    refine ⟨f, fun mem' hs => ?_⟩
    have hm := hs addr
    unfold walkLoop stepWalk
    rw [hasks.pmpCheck, if_neg hp, hm.v, hm.r, hm.w, hm.x, hm.ppn, if_neg hv, if_neg hl]
    exact hf mem' hs

theorem descend_le (h : descend g mem v level addr = some (L, p)) : L ≤ level := by
  fun_induction descend g mem v level addr with
  | case1 => cases h
  | case2 => cases h
  | case3 =>
    cases h
    exact Nat.le_refl _
  | case4 => cases h
  | case5 addr hp hv hl level ih => exact Nat.le_succ_of_le (ih h)

/-- Indices are read from the bits of the page. -/
theorem indexBytes_congr (hL : L ≤ level) (hlevel : level ≤ 2)
    (h : Agree (64 - (12 + 9 * L)) v v') : indexBytes v level = indexBytes v' level := by
  have hbits := (agree_iff_getLsbD (by omega)).mp h
  have hword : (v >>> (12 + 9 * level)) &&& 511#64 = (v' >>> (12 + 9 * level)) &&& 511#64 := by
    apply BitVec.eq_of_getLsbD_eq
    intro i hi
    rw [BitVec.getLsbD_and, BitVec.getLsbD_and, BitVec.getLsbD_ushiftRight,
      BitVec.getLsbD_ushiftRight]
    by_cases hlt : 12 + 9 * level + i < 64
    · rw [hbits (12 + 9 * level + i) (by omega) hlt]
    · rw [BitVec.getLsbD_of_ge v _ (by omega), BitVec.getLsbD_of_ge v' _ (by omega)]
  unfold indexBytes
  rw [hword]

/-- The leaf of a page is that of each of its addresses. -/
theorem descend_congr (hlevel : level ≤ 3)
    (h : descend g mem v level addr = some (L, p)) (hag : Agree (64 - (12 + 9 * L)) v v') :
    descend g mem v' level addr = some (L, p) := by
  fun_induction descend g mem v level addr with
  | case1 => cases h
  | case2 => cases h
  | case3 level addr hp hv hl =>
    unfold descend
    rw [if_neg hp, if_neg hv, if_pos hl]
    exact h
  | case4 => cases h
  | case5 addr hp hv hl level ih =>
    have hidx := indexBytes_congr (descend_le h) (by omega) hag
    unfold descend
    rw [if_neg hp, if_neg hv, if_neg hl]
    dsimp only
    rw [← hidx]
    exact ih (by omega) h

/-- The leaf under an address of an address space. -/
def leaf (g : Tables) (mem : Nat → PTESv39) (vaddr : BitVec 64) (asid : BitVec 16) :
    Option (Nat × Nat) := descend g mem vaddr 2 (topAddr g vaddr asid)

theorem leaf_le (h : leaf g mem v asid = some (L, p)) : L ≤ 2 := descend_le h

theorem leaf_congr (h : leaf g mem v asid = some (L, p))
    (hag : Agree (64 - (12 + 9 * L)) v v') : leaf g mem v' asid = some (L, p) := by
  unfold leaf topAddr at h ⊢
  rw [← indexBytes_congr (leaf_le h) (Nat.le_refl 2) hag]
  exact descend_congr (by decide) h hag

end Descend

theorem descend_same {g : Tables} {mem mem' : Nat → PTESv39} (hs : SameTables mem mem')
    (v : BitVec 64) (level addr : Nat) :
    descend g mem' v level addr = descend g mem v level addr := by
  have hm := hs addr
  induction level generalizing addr with
  | zero =>
    unfold descend
    rw [hm.v, hm.r, hm.w, hm.x]
  | succ level ih =>
    unfold descend
    rw [hm.v, hm.r, hm.w, hm.x, hm.ppn]
    dsimp only
    rw [ih _ (hs _)]

theorem leaf_same {g : Tables} {mem mem' : Nat → PTESv39} (hs : SameTables mem mem')
    (v : BitVec 64) (asid : BitVec 16) : leaf g mem' v asid = leaf g mem v asid :=
  descend_same hs v 2 _

/-- Memory after the write of a walk. -/
def WalkEnd.store (e : WalkEnd) (mem : Nat → PTESv39) : Nat → PTESv39 :=
  match e.write with
  | none => mem
  | some (addr, pte) => update mem addr pte

/-! ## The leaf step -/

section StepLeaf

variable {g : Tables} {c : Context} {v : BitVec 64} {asid : BitVec 16} {L p : Nat}

variable {pte : PTESv39}

/-- Permissions are read from four bits. -/
theorem checkPermissions_congr {pte' : PTESv39} (hr : pte'.r = pte.r) (hx : pte'.x = pte.x)
    (hu : pte'.u = pte.u) (hw : c.mode = .Write → pte'.w = pte.w) :
    checkPermissions c v pte' = checkPermissions c v pte := by
  unfold checkPermissions
  rw [hr, hx, hu]
  by_cases hm : c.mode = .Write
  · rw [hw hm]
  · simp [hm]

theorem checkPermissions_write (hm : c.mode = .Write)
    (h : checkPermissions c v pte = none) : pte.w = true := by
  by_contra hw
  have hf : pte.w = false := by simpa using hw
  unfold checkPermissions at h
  simp [hm, hf] at h

/-- The marks that a walk sets. -/
def mark (c : Context) (pte : PTESv39) : PTESv39 :=
  { pte with a := true, d := pte.d || decide (c.mode = .Write) }

theorem marked_mark (pte : PTESv39) : Marked pte (mark c pte) :=
  ⟨rfl, rfl, rfl, rfl, rfl, rfl, fun _ => rfl, fun hd => by simp [mark, hd]⟩

theorem mark_eq_self
    (h : ¬ (pte.a = false ∨ (pte.d = false ∧ c.mode = .Write))) : mark c pte = pte := by
  have ha : pte.a = true := by
    by_contra hn
    exact h (.inl (by simpa using hn))
  have hd : (pte.d || decide (c.mode = .Write)) = pte.d := by
    by_cases hm : c.mode = .Write
    · have hd : pte.d = true := by
        by_contra hn
        exact h (.inr ⟨by simpa using hn, hm⟩)
      rw [hd, Bool.true_or]
    · rw [decide_eq_false hm, Bool.or_false]
  unfold mark
  rw [hd, ← ha]

theorem stepLeaf_error {f : Fault} (h : checkPermissions c v pte = some f) :
    stepLeaf g c v asid L p pte = { result := .error f } := by
  unfold stepLeaf
  rw [h]

theorem stepLeaf_misaligned (h : checkPermissions c v pte = none) (hmis : misaligned L pte) :
    stepLeaf g c v asid L p pte = { result := .error (createPagefault v c.mode) } := by
  unfold stepLeaf
  rw [h]
  exact if_pos hmis

/-- The entry that a walk caches. -/
def leafEntry (c : Context) (v : BitVec 64) (asid : BitVec 16) (L : Nat) (pte : PTESv39) :
    TlbEntry where
  paddr := pte.ppn
  vaddr := v &&& pageMask (12 + 9 * L)
  logBytes := 12 + 9 * L
  asid := asid
  pte := if (mark c pte).d = false ∧ c.mode ≠ .Write then { mark c pte with w := false }
    else mark c pte

theorem stepLeaf_permitted (h : checkPermissions c v pte = none) (hmis : ¬ misaligned L pte) :
    stepLeaf g c v asid L p pte =
      { result :=
          if (pte.a = false ∨ (pte.d = false ∧ c.mode = .Write)) ∧ g.pmpCheck c true p = false then
            .error ⟨v, .STORE_ACCESS⟩
          else .ok (leafEntry c v asid L pte)
        write :=
          if pte.a = false ∨ (pte.d = false ∧ c.mode = .Write) then some (p, mark c pte)
          else none } := by
  unfold stepLeaf
  rw [h]
  dsimp only
  rw [if_neg hmis]
  by_cases hpmp : (pte.a = false ∨ (pte.d = false ∧ c.mode = .Write)) ∧ g.pmpCheck c true p = false
  · rw [if_pos hpmp, if_pos hpmp]
    rfl
  · rw [if_neg hpmp, if_neg hpmp]
    rfl

/-- The write of a walk marks one entry. -/
theorem stepLeaf_same (mem : Nat → PTESv39) :
    SameTables mem ((stepLeaf g c v asid L p (mem p)).store mem) := by
  cases hc : checkPermissions c v (mem p) with
  | some f =>
    rw [stepLeaf_error hc]
    exact SameTables.refl mem
  | none =>
    by_cases hmis : misaligned L (mem p)
    · rw [stepLeaf_misaligned hc hmis]
      exact SameTables.refl mem
    · rw [stepLeaf_permitted hc hmis]
      by_cases hw : (mem p).a = false ∨ ((mem p).d = false ∧ c.mode = .Write)
      · rw [if_pos hw]
        intro addr
        show Marked (mem addr) (update mem p (mark c (mem p)) addr)
        by_cases haddr : addr = p
        · rw [haddr, update_self]
          exact marked_mark _
        · rw [update_of_ne haddr]
          exact Marked.refl _
      · rw [if_neg hw]
        exact SameTables.refl mem

/-- What holds where a walk does not fault. -/
theorem stepLeaf_ok {mem : Nat → PTESv39} {e : TlbEntry}
    (h : (stepLeaf g c v asid L p (mem p)).result = .ok e) :
    checkPermissions c v (mem p) = none ∧ ¬ misaligned L (mem p) ∧ e = leafEntry c v asid L (mem p) ∧
      (stepLeaf g c v asid L p (mem p)).store mem p = mark c (mem p) := by
  cases hc : checkPermissions c v (mem p) with
  | some f =>
    rw [stepLeaf_error hc] at h
    exact nomatch h
  | none =>
    by_cases hmis : misaligned L (mem p)
    · rw [stepLeaf_misaligned hc hmis] at h
      exact nomatch h
    · rw [stepLeaf_permitted hc hmis] at h ⊢
      refine ⟨rfl, hmis, ?_, ?_⟩
      · dsimp only at h
        split at h
        · exact nomatch h
        · exact (Except.ok.inj h).symm
      · by_cases hw : (mem p).a = false ∨ ((mem p).d = false ∧ c.mode = .Write)
        · rw [if_pos hw]
          exact update_self p _ mem
        · rw [if_neg hw]
          exact (mark_eq_self hw).symm

end StepLeaf

/-! ## A fresh walk -/

section Fresh

variable {g : Tables} {mem : Nat → PTESv39} {c : Context} {v : BitVec 64} {asid : BitVec 16}

/-- The outcome of a walk, as a translation. -/
def WalkEnd.outcome (e : WalkEnd) (v : BitVec 64) : Except Fault Nat :=
  match e.result with
  | .error f => .error f
  | .ok entry => .ok (entry.physical v)

theorem fresh_eq : fresh g mem c v asid =
    (startWalk g mem c (sext v) asid).map fun e => e.outcome (sext v) := rfl

theorem fresh_of_leaf {L p : Nat} (hasks : g.Asks c) (h : leaf g mem (sext v) asid = some (L, p)) :
    fresh g mem c v asid = some ((stepLeaf g c (sext v) asid L p (mem p)).outcome (sext v)) := by
  rw [fresh_eq, startWalk, walkLoop_some hasks h]
  rfl

/-- Where the PMP lets the walker write, marks do not change what a walk says. -/
theorem fresh_same {mem' : Nat → PTESv39} (hasks : g.Asks c) (hs : SameTables mem mem')
    (hpmp : ∀ addr, g.pmp true addr = true) : fresh g mem' c v asid = fresh g mem c v asid := by
  cases hl : leaf g mem (sext v) asid with
  | none =>
    have hnone : descend g mem (sext v) 2 (topAddr g (sext v) asid) = none := hl
    obtain ⟨f, hf⟩ : ∃ f, ∀ mem', SameTables mem mem' →
        startWalk g mem' c (sext v) asid = some { result := .error f } := walkLoop_none hasks hnone
    rw [fresh_eq, fresh_eq, hf mem' hs, hf mem (SameTables.refl mem)]
  | some x =>
    obtain ⟨L, p⟩ := x
    have hm := hs p
    have hno : ∀ P : Prop, ¬ (P ∧ g.pmpCheck c true p = false) := by
      rintro P ⟨-, hrefused⟩
      unfold Tables.pmpCheck at hrefused
      rw [hpmp p, Bool.or_true] at hrefused
      exact Bool.noConfusion hrefused
    have hmis : misaligned L (mem' p) ↔ misaligned L (mem p) := by
      unfold misaligned PTESv39.ppn0 PTESv39.ppn1
      rw [hm.ppn]
    rw [fresh_of_leaf hasks hl, fresh_of_leaf hasks ((leaf_same hs _ asid).trans hl)]
    have hperm : checkPermissions c (sext v) (mem' p) = checkPermissions c (sext v) (mem p) :=
      checkPermissions_congr hm.r hm.x hm.u fun _ => hm.w
    cases hc : checkPermissions c (sext v) (mem p) with
    | some f => rw [stepLeaf_error hc, stepLeaf_error (hperm.trans hc)]
    | none =>
      by_cases hmis' : misaligned L (mem p)
      · rw [stepLeaf_misaligned hc hmis', stepLeaf_misaligned (hperm.trans hc) (hmis.mpr hmis')]
      · rw [stepLeaf_permitted hc hmis',
          stepLeaf_permitted (hperm.trans hc) fun h => hmis' (hmis.mp h), if_neg (hno _),
          if_neg (hno _)]
        show some (Except.ok ((leafEntry c (sext v) asid L (mem' p)).physical (sext v))) = _
        unfold TlbEntry.physical leafEntry
        rw [hm.ppn]
        rfl

end Fresh

end Gem5Dvr.Tlb
