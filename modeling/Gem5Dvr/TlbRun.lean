/-
  The TLB over whole runs.

    1. `Good`: the slots are linked, every entry is a page of the tables, and no two overlap in keys.
    2. What every operation keeps (`Good.remove`, `Good.insert`, `Good.start`, `Good.translate`).
    3. `tlb_transparent`: along a run that obeys `State.Separate` and whose walks are checked, no
       assertion fails and every translation is that of a fresh walk.

  The crux: two entries of one address space that overlap are one page, since the leaf of a page is
  that of each of its addresses.  Across address spaces nothing of the kind holds: the key of an
  address of the upper half is the address itself, whoever asks (`tlb_not_transparent`).
-/
import Gem5Dvr.TlbSlots

namespace Gem5Dvr.Tlb

open List Function
open Option (bind_some)

open BitPrefix

/-! ## The invariant -/

/-- What holds of a TLB between two calls. -/
structure Good (g : Tables) (mem : Nat → PTESv39) (t : TLB) : Prop where
  linked : ∃ s, t.Linked s
  caches : ∀ i, t.Used i → ∃ L p, Caches g mem (t.tlb i) L p
  apart : ∀ i j, t.Used i → t.Used j → i ≠ j →
    ¬ Overlaps (t.tlb i).key (64 - (t.tlb i).logBytes) (t.tlb j).key (64 - (t.tlb j).logBytes)

/-- The same page with the same permissions. -/
structure SamePage (e e' : TlbEntry) : Prop where
  vaddr : e'.vaddr = e.vaddr
  asid : e'.asid = e.asid
  logBytes : e'.logBytes = e.logBytes
  paddr : e'.paddr = e.paddr
  pte : e'.pte = e.pte

/-- No entry of another address space overlaps the page of an address. -/
def Clear (t : TLB) (v : BitVec 64) (asid : BitVec 16) (logBytes : Nat) : Prop :=
  ∀ j, t.Used j → (t.tlb j).asid ≠ asid →
    ¬ Overlaps (buildKey v asid) (64 - logBytes) (t.tlb j).key (64 - (t.tlb j).logBytes)

section

variable {g : Tables} {mem mem' : Nat → PTESv39} {t t' : TLB} {c : Context} {v : BitVec 64}
  {asid : BitVec 16} {e e' : TlbEntry} {L p i j : Nat}

theorem Overlaps.symm {key key' : BitVec 64} {width width' : Nat}
    (h : Overlaps key width key' width') : Overlaps key' width' key width := by
  rw [overlaps_iff] at h ⊢
  rw [Nat.min_comm]
  exact BitPrefix.Agree.symm h

theorem Caches.congr (h : Caches g mem e L p) (hs : SamePage e e') : Caches g mem e' L p := by
  obtain ⟨hv, ha, hl, hp, ht⟩ := hs
  refine ⟨?_, ?_, hl.trans h.logBytes, ?_, h.aligned, hp.trans h.paddr, ?_, ?_, ?_, ?_, h.a⟩
  · rw [hv, ha]
    exact h.found
  · rw [hv]
    exact h.canonical
  · rw [hv]
    exact h.base
  · rw [ht]
    exact h.r
  · rw [ht]
    exact h.x
  · rw [ht]
    exact h.u
  · rw [ht]
    exact h.w

theorem Good.same (h : Good g mem t) (hs : SameTables mem mem') : Good g mem' t := by
  refine ⟨h.linked, fun i hi => ?_, h.apart⟩
  obtain ⟨L, p, hc⟩ := h.caches i hi
  exact ⟨L, p, hc.same hs⟩

/-- Slots may change in `pte` and `lruSeq`, as long as they stay what the tables say. -/
theorem Good.alike (h : Good g mem t) (ha : Alike t t')
    (hc : ∀ i, t.Used i → ∃ L p, Caches g mem (t'.tlb i) L p) : Good g mem t' := by
  obtain ⟨s, hl⟩ := h.linked
  refine ⟨⟨s, hl.alike ha⟩, fun i hi => hc i ((ha.used i).mp hi), fun i j hi hj hne => ?_⟩
  rw [ha.key, ha.key, ha.logBytes, ha.logBytes]
  exact h.apart i j ((ha.used i).mp hi) ((ha.used j).mp hj) hne

/-- A page is at most a gigabyte. -/
theorem Caches.logBytes_le (h : Caches g mem e L p) : e.logBytes ≤ 30 := by
  have hL := h.level
  rw [h.logBytes]
  omega

/-- At most one slot matches a key. -/
theorem Good.finds_unique (h : Good g mem t) {key : BitVec 64} (hi : t.Finds key i)
    (hj : t.Finds key j) : i = j := by
  by_contra hne
  refine h.apart i j hi.1 hj.1 hne ?_
  rw [overlaps_iff]
  exact BitPrefix.Agree.trans ((hi.2.mono (Nat.min_le_left _ _)).symm)
    (hj.2.mono (Nat.min_le_right _ _))

/-- A slot of the address space that matches the key of an address has its page. -/
theorem Good.agree_of_finds (h : Good g mem t) (hv : sext v = v)
    (hf : t.Finds (buildKey v (t.tlb i).asid) i) :
    Agree (64 - (t.tlb i).logBytes) v (t.tlb i).vaddr := by
  obtain ⟨L, p, hc⟩ := h.caches i hf.1
  have hle := hc.logBytes_le
  exact (agree_buildKey_iff (by omega) (by omega) hv hc.canonical _).mp hf.2

/-- Where no other address space interferes, a slot that matches is of the address space. -/
theorem Clear.own {logBytes : Nat} (h : Clear t v asid logBytes) (hf : t.Finds (buildKey v asid) i) :
    (t.tlb i).asid = asid := by
  by_contra hne
  refine h i hf.1 hne ?_
  rw [overlaps_iff]
  exact hf.2.mono (Nat.min_le_right _ _)

/-- In the lower half no other address space interferes. -/
theorem Good.clear_of_low (h : Good g mem t) (hv : sext v = v) (hlow : v.getLsbD 38 = false)
    {logBytes : Nat} (hlog : logBytes ≤ 30) : Clear t v asid logBytes := by
  intro j hj hne hover
  obtain ⟨L, p, hc⟩ := h.caches j hj
  have hle := hc.logBytes_le
  rw [overlaps_iff] at hover
  exact hne (asid_eq_of_agree (by omega) (by omega) hv hc.canonical hlow hover).symm

/-- From an address to the base of its page. -/
theorem Clear.base {logBytes : Nat} (h : Clear t v asid logBytes) (hlog : logBytes ≤ 30)
    (hv : sext v = v) {base : BitVec 64} (hbase : sext base = base)
    (hag : Agree (64 - logBytes) v base) : Clear t base asid logBytes := by
  intro j hj hne hover
  refine h j hj hne ?_
  rw [overlaps_iff] at hover ⊢
  have hkeys := (agree_buildKey_iff (by omega) (by omega) hv hbase asid).mpr hag
  exact BitPrefix.Agree.trans (hkeys.mono (Nat.min_le_left _ _)) hover

/-- Two pages of one address space that overlap are one page. -/
theorem Caches.unique {L' p' : Nat} (h : Caches g mem e L p) (h' : Caches g mem e' L' p')
    (hasid : e'.asid = e.asid)
    (hover : Overlaps e.key (64 - e.logBytes) e'.key (64 - e'.logBytes)) :
    L' = L ∧ p' = p ∧ e'.vaddr = e.vaddr := by
  have hle := h.logBytes_le
  have hle' := h'.logBytes_le
  rw [overlaps_iff] at hover
  unfold TlbEntry.key at hover
  rw [hasid, agree_buildKey_iff (by omega) (by omega) h.canonical h'.canonical] at hover
  have hleaf : (L', p') = (L, p) := by
    rcases Nat.le_total e.logBytes e'.logBytes with hlog | hlog
    · rw [Nat.min_eq_right (by omega)] at hover
      have hat := h'.leaf_at hover
      rw [hasid, h.found] at hat
      exact (Option.some.inj hat).symm
    · rw [Nat.min_eq_left (by omega)] at hover
      have hat := h.leaf_at hover.symm
      rw [← hasid, h'.found] at hat
      exact Option.some.inj hat
  obtain ⟨rfl, rfl⟩ := Prod.mk.inj hleaf
  refine ⟨rfl, rfl, ?_⟩
  have hL := h.level
  rw [h.logBytes, h'.logBytes, Nat.min_self] at hover
  have hmask := (and_pageMask_eq_iff (by omega) h'.base).mpr hover
  rw [h.base] at hmask
  exact hmask.symm

/-! ## Lookup and removal -/

/-- A hidden `lookup` finds the slot that matches. -/
theorem Good.lookup_hidden (h : Good g mem t) (v : BitVec 64) (asid : BitVec 16) :
    (∃ i, t.Finds (buildKey v asid) i ∧ t.lookup v asid true = some (t, some i)) ∨
      (∀ i, ¬ t.Finds (buildKey v asid) i) ∧ t.lookup v asid true = some (t, none) := by
  obtain ⟨s, hl⟩ := h.linked
  unfold TLB.lookup
  rcases hl.lookup (buildKey v asid) with ⟨i, hf, hrun⟩ | ⟨hnone, hrun⟩
  · rw [hrun]
    exact .inl ⟨i, hf, rfl⟩
  · rw [hrun]
    exact .inr ⟨hnone, rfl⟩

/-- Any other one also gives it a sequence number. -/
theorem Good.lookup (h : Good g mem t) (v : BitVec 64) (asid : BitVec 16) :
    (∃ i t', t.Finds (buildKey v asid) i ∧ t.lookup v asid false = some (t', some i) ∧
      Good g mem t' ∧ Alike t t' ∧ SamePage (t.tlb i) (t'.tlb i)) ∨
      (∀ i, ¬ t.Finds (buildKey v asid) i) ∧ t.lookup v asid false = some (t, none) := by
  obtain ⟨s, hl⟩ := h.linked
  unfold TLB.lookup
  rcases hl.lookup (buildKey v asid) with ⟨i, hf, hrun⟩ | ⟨hnone, hrun⟩
  · left
    have hslot : ∀ j, SamePage (t.tlb j)
          (Function.update t.tlb i { t.tlb i with lruSeq := t.lruSeq + 1 } j) ∧
        (Function.update t.tlb i { t.tlb i with lruSeq := t.lruSeq + 1 } j).trieHandle =
          (t.tlb j).trieHandle := by
      intro j
      by_cases hj : j = i
      · rw [hj, update_self]
        exact ⟨⟨rfl, rfl, rfl, rfl, rfl⟩, rfl⟩
      · rw [update_of_ne hj]
        exact ⟨⟨rfl, rfl, rfl, rfl, rfl⟩, rfl⟩
    have hsame : Alike t { t.set i { t.tlb i with lruSeq := t.lruSeq + 1 } with
        lruSeq := t.lruSeq + 1 } :=
      ⟨rfl, rfl, rfl, fun j => (hslot j).1.vaddr, fun j => (hslot j).1.asid,
        fun j => (hslot j).1.logBytes, fun j => (hslot j).2⟩
    rw [hrun]
    refine ⟨i, _, hf, rfl, h.alike hsame fun j hj => ?_, hsame, (hslot i).1⟩
    obtain ⟨L, p, hc⟩ := h.caches j hj
    exact ⟨L, p, hc.congr (hslot j).1⟩
  · right
    rw [hrun]
    exact ⟨hnone, rfl⟩

/-- The slots of a TLB that has lost one entry. -/
theorem cleared_used (hsize : t'.size = t.size) (htlb : t'.tlb = t.cleared i) (hj : t'.Used j) :
    t.Used j ∧ t'.tlb j = t.tlb j := by
  have hslot := hj.2
  have hlt := hj.1
  rw [htlb] at hslot ⊢
  rw [hsize] at hlt
  unfold TLB.cleared at hslot ⊢
  by_cases hne : j = i
  · rw [hne, update_self] at hslot
    exact absurd rfl hslot
  · rw [update_of_ne hne] at hslot ⊢
    exact ⟨⟨hlt, hslot⟩, rfl⟩

/-- Removing a slot that is in use. -/
theorem Good.remove (h : Good g mem t) (hi : t.Used i) :
    ∃ t', t.remove i = some t' ∧ Good g mem t' ∧ t'.size = t.size ∧ t'.tlb = t.cleared i := by
  obtain ⟨s, hl⟩ := h.linked
  obtain ⟨t', s', hrun, hl', hsize, htlb⟩ := hl.remove hi
  refine ⟨t', hrun, ⟨⟨s', hl'⟩, fun j hj => ?_, fun j k hj hk hne => ?_⟩, hsize, htlb⟩
  · obtain ⟨hused, hsame⟩ := cleared_used hsize htlb hj
    rw [hsame]
    exact h.caches j hused
  · obtain ⟨husedj, hj⟩ := cleared_used hsize htlb hj
    obtain ⟨husedk, hk⟩ := cleared_used hsize htlb hk
    rw [hj, hk]
    exact h.apart j k husedj husedk hne

/-- The loops of `demapPage` and `flushAll`. -/
theorem Good.removeIf (h : Good g mem t) (P : TlbEntry → Bool) (is : List Nat)
    (his : ∀ i ∈ is, i < t.size) :
    ∃ t', TLB.removeIf P is t = some t' ∧ Good g mem t' ∧ t'.size = t.size := by
  induction is generalizing t with
  | nil => exact ⟨t, rfl, h, rfl⟩
  | cons i is ih =>
    unfold TLB.removeIf
    by_cases hp : (t.tlb i).trieHandle ≠ none ∧ P (t.tlb i) = true
    · obtain ⟨t₁, hrun, hgood, hsize, _⟩ := h.remove ⟨his i mem_cons_self, hp.1⟩
      obtain ⟨t', hrun', hgood', hsize'⟩ := ih hgood fun j hj => by
        rw [hsize]
        exact his j (mem_cons_of_mem i hj)
      rw [if_pos hp, hrun]
      exact ⟨t', hrun', hgood', hsize'.trans hsize⟩
    · rw [if_neg hp]
      exact ih h fun j hj => his j (mem_cons_of_mem i hj)

theorem Good.flushAll (h : Good g mem t) :
    ∃ t', t.flushAll = some t' ∧ Good g mem t' ∧ t'.size = t.size :=
  h.removeIf _ _ fun _ hi => mem_range.mp hi

theorem Good.demapPage (h : Good g mem t) (vpn asid : BitVec 64) :
    ∃ t', t.demapPage vpn asid = some t' ∧ Good g mem t' ∧ t'.size = t.size := by
  unfold TLB.demapPage
  dsimp only
  split
  · exact h.flushAll
  split
  · rcases h.lookup_hidden vpn (asid.setWidth 16) with ⟨i, hf, hrun⟩ | ⟨_, hrun⟩
    · obtain ⟨t', hrem, hgood, hsize, _⟩ := h.remove hf.1
      rw [hrun]
      exact ⟨t', hrem, hgood, hsize⟩
    · rw [hrun]
      exact ⟨t, rfl, h, rfl⟩
  · exact h.removeIf _ _ fun _ hi => mem_range.mp hi

/-! ## Insertion -/

/-- A page that no slot matches overlaps none of those held. -/
theorem Good.not_overlaps (h : Good g mem t) (hc : Caches g mem e L p)
    (hclear : Clear t e.vaddr e.asid e.logBytes) (hnone : ∀ j, ¬ t.Finds e.key j) (hj : t.Used j) :
    ¬ Overlaps e.key (64 - e.logBytes) (t.tlb j).key (64 - (t.tlb j).logBytes) := by
  intro hover
  by_cases hasid : (t.tlb j).asid = e.asid
  · -- the same page of the same address space
    obtain ⟨L', p', hc'⟩ := h.caches j hj
    obtain ⟨rfl, rfl, _⟩ := hc.unique hc' hasid hover
    refine hnone j ⟨hj, ?_⟩
    rw [overlaps_iff, hc.logBytes, ← hc'.logBytes, Nat.min_self] at hover
    exact hover
  · exact hclear j hj hasid hover

/-- A slot from the free list. -/
theorem Good.allocate (h : Good g mem t) (hc : Caches g mem e L p)
    (hclear : Clear t e.vaddr e.asid e.logBytes) (hnone : ∀ j, ¬ t.Finds e.key j) {rest : List Nat}
    (hfree : t.freeList = i :: rest) :
    ∃ t', t.allocate e.vaddr e = some t' ∧ Good g mem t' ∧ t'.size = t.size ∧ t'.Used i ∧
      SamePage e (t'.tlb i) := by
  obtain ⟨s, hl⟩ := h.linked
  have hlt : i < t.size := ((hl.free i).mp (hfree ▸ mem_cons_self)).1
  have hle := hc.logBytes_le
  have hapart : ∀ j, t.Used j → ¬ Overlaps e.key (64 - e.logBytes) (t.tlb j).key
      (64 - (t.tlb j).logBytes) := fun j hj => h.not_overlaps hc hclear hnone hj
  obtain ⟨t', s', handle, hrun, hl', hsize, htlb⟩ := hl.allocate hfree (by omega) hapart
  have hi : t'.tlb i =
      { e with lruSeq := t.lruSeq + 1, vaddr := e.vaddr, trieHandle := some handle } := by
    rw [htlb]
    exact update_self ..
  have hother : ∀ j, j ≠ i → t'.Used j → t.Used j ∧ t'.tlb j = t.tlb j := by
    intro j hne hj
    have hslot : t'.tlb j = t.tlb j := by
      rw [htlb]
      exact update_of_ne hne ..
    refine ⟨⟨hsize ▸ hj.1, ?_⟩, hslot⟩
    rw [← hslot]
    exact hj.2
  have hpage : SamePage e (t'.tlb i) := by
    rw [hi]
    exact ⟨rfl, rfl, rfl, rfl, rfl⟩
  have hkey : (t'.tlb i).key = e.key := by
    rw [hi]
    rfl
  refine ⟨t', hrun, ⟨⟨s', hl'⟩, fun j hj => ?_, fun j k hj hk hne => ?_⟩, hsize,
    ⟨hsize.symm ▸ hlt, by rw [hi]; exact nofun⟩, hpage⟩
  · by_cases hji : j = i
    · rw [hji]
      exact ⟨L, p, hc.congr hpage⟩
    · obtain ⟨hused, hsame⟩ := hother j hji hj
      rw [hsame]
      exact h.caches j hused
  · by_cases hji : j = i
    · obtain ⟨hused, hsame⟩ := hother k (fun hk => hne (hji.trans hk.symm)) hk
      rw [hji, hsame, hkey, hpage.logBytes]
      exact hapart k hused
    · obtain ⟨hused, hsame⟩ := hother j hji hj
      by_cases hki : k = i
      · rw [hki, hsame, hkey, hpage.logBytes]
        exact fun hover => hapart j hused hover.symm
      · obtain ⟨hused', hsame'⟩ := hother k hki hk
        rw [hsame, hsame']
        exact h.apart j k hused hused' hne

/-- The least recently used slot is one of the TLB's. -/
theorem lru_lt (hsize : 0 < t.size) : t.lru < t.size := by
  have hfold : ∀ (is : List Nat) (lru : Nat), lru < t.size → (∀ i ∈ is, i < t.size) →
      is.foldl (fun lru i => if (t.tlb i).lruSeq < (t.tlb lru).lruSeq then i else lru) lru < t.size := by
    intro is
    induction is with
    | nil => exact fun _ hlru _ => hlru
    | cons i is ih =>
      intro lru hlru his
      refine ih _ ?_ fun j hj => his j (mem_cons_of_mem i hj)
      dsimp only
      split
      · exact his i mem_cons_self
      · exact hlru
  refine hfold _ 0 hsize fun i hi => ?_
  rw [mem_range'_1] at hi
  omega

theorem Good.evictLRU (h : Good g mem t) (hsize : 0 < t.size)
    (hslot : (t.tlb t.lru).trieHandle ≠ none) :
    ∃ t', t.evictLRU = some t' ∧ Good g mem t' ∧ t'.size = t.size ∧ t'.tlb = t.cleared t.lru :=
  h.remove ⟨lru_lt hsize, hslot⟩

/-- In a full TLB the least recently used slot holds an entry. -/
theorem Good.lru_used (h : Good g mem t) (hsize : 0 < t.size) (hfull : t.freeList = []) :
    (t.tlb t.lru).trieHandle ≠ none := by
  obtain ⟨s, hl⟩ := h.linked
  intro hnone
  have hmem := (hl.free t.lru).mpr ⟨lru_lt hsize, hnone⟩
  rw [hfull] at hmem
  cases hmem

/-- An entry is put in the slot of its page, or in a new one. -/
theorem Good.insert (h : Good g mem t) (hsize : 0 < t.size) (hc : Caches g mem e L p)
    (hclear : Clear t e.vaddr e.asid e.logBytes) :
    ∃ t' i, t.insert e.vaddr e = some t' ∧ Good g mem t' ∧ t'.size = t.size ∧ t'.Used i ∧
      SamePage e (t'.tlb i) ∧ ∀ j, t.Finds e.key j → j = i := by
  unfold TLB.insert
  rcases h.lookup_hidden e.vaddr e.asid with ⟨i, hf, hrun⟩ | ⟨hnone, hrun⟩
  · -- the page is there, with other permissions perhaps
    rw [hrun, bind_some]
    dsimp only
    have hasid := hclear.own hf
    obtain ⟨L', p', hc'⟩ := h.caches i hf.1
    have hover : Overlaps e.key (64 - e.logBytes) (t.tlb i).key (64 - (t.tlb i).logBytes) := by
      rw [overlaps_iff]
      exact hf.2.mono (Nat.min_le_right _ _)
    obtain ⟨rfl, rfl, hvaddr⟩ := hc.unique hc' hasid hover
    have hpage : SamePage e { t.tlb i with pte := e.pte } :=
      ⟨hvaddr, hasid, hc'.logBytes.trans hc.logBytes.symm, hc'.paddr.trans hc.paddr.symm, rfl⟩
    have hslot : ∀ j, (t.set i { t.tlb i with pte := e.pte }).tlb j =
        if j = i then { t.tlb i with pte := e.pte } else t.tlb j := by
      intro j
      by_cases hj : j = i
      · rw [if_pos hj, hj]
        exact update_self ..
      · rw [if_neg hj]
        exact update_of_ne hj ..
    have halike : Alike t (t.set i { t.tlb i with pte := e.pte }) := by
      refine ⟨rfl, rfl, rfl, fun j => ?_, fun j => ?_, fun j => ?_, fun j => ?_⟩
      all_goals
        rw [hslot]
        by_cases hj : j = i
        · rw [if_pos hj, hj]
        · rw [if_neg hj]
    rw [if_pos hvaddr]
    refine ⟨_, i, rfl, h.alike halike fun j hj => ?_, rfl, (halike.used i).mpr hf.1, ?_, fun j hj => ?_⟩
    · rw [hslot]
      by_cases hji : j = i
      · rw [if_pos hji]
        exact ⟨_, _, hc.congr hpage⟩
      · rw [if_neg hji]
        exact h.caches j hj
    · rw [hslot, if_pos rfl]
      exact hpage
    · exact h.finds_unique hj hf
  · rw [hrun, bind_some]
    have hno : ∀ j, t.Finds e.key j → ∀ k, j = k := fun j hj => absurd hj (hnone j)
    by_cases hfull : t.freeList = []
    · obtain ⟨t₁, hevict, hgood, hsize₁, htlb⟩ := h.evictLRU hsize (h.lru_used hsize hfull)
      obtain ⟨s₁, hl₁⟩ := hgood.linked
      have hmem : t.lru ∈ t₁.freeList := by
        rw [hl₁.free, htlb, hsize₁]
        refine ⟨lru_lt hsize, ?_⟩
        unfold TLB.cleared
        rw [update_self]
      obtain ⟨i, rest, hfree⟩ := exists_cons_of_ne_nil (ne_nil_of_mem hmem)
      have hclear₁ : Clear t₁ e.vaddr e.asid e.logBytes := by
        intro j hj
        obtain ⟨hused, hsame⟩ := cleared_used hsize₁ htlb hj
        rw [hsame]
        exact hclear j hused
      have hnone₁ : ∀ j, ¬ t₁.Finds e.key j := by
        rintro j ⟨hj, hag⟩
        obtain ⟨hused, hsame⟩ := cleared_used hsize₁ htlb hj
        rw [hsame] at hag
        exact hnone j ⟨hused, hag⟩
      obtain ⟨t', hrun', hgood', hsize', hused, hpage⟩ := hgood.allocate hc hclear₁ hnone₁ hfree
      rw [if_pos hfull, hevict, bind_some]
      exact ⟨t', i, hrun', hgood', hsize'.trans hsize₁, hused, hpage, fun j hj => hno j hj i⟩
    · obtain ⟨i, rest, hfree⟩ := exists_cons_of_ne_nil hfull
      obtain ⟨t', hrun', hgood', hsize', hused, hpage⟩ := h.allocate hc hclear hnone hfree
      rw [if_neg hfull]
      exact ⟨t', i, hrun', hgood', hsize', hused, hpage, fun j hj => hno j hj i⟩

/-! ## Walks and translations -/

theorem fresh_sext : fresh g mem c (sext v) asid = fresh g mem c v asid := by
  unfold fresh
  rw [sext_sext]

/-- A walk faults without a write, or ends at the leaf. -/
theorem startWalk_cases (hasks : g.Asks c) (mem : Nat → PTESv39) (v : BitVec 64)
    (asid : BitVec 16) :
    (∃ f, startWalk g mem c v asid = some { result := .error f }) ∨
      ∃ L p, leaf g mem v asid = some (L, p) ∧
        startWalk g mem c v asid = some (stepLeaf g c v asid L p (mem p)) := by
  cases hl : leaf g mem v asid with
  | none =>
    obtain ⟨f, hf⟩ := walkLoop_none hasks hl
    exact .inl ⟨f, hf mem (SameTables.refl mem)⟩
  | some x => exact .inr ⟨x.1, x.2, rfl, walkLoop_some hasks hl⟩

theorem pageBits_of_ok {w : WalkEnd} (hwalk : startWalk g mem c v asid = some w)
    (hok : w.result = .ok e) : pageBits g mem c v asid = e.logBytes := by
  obtain ⟨result, write⟩ := w
  obtain rfl : result = .ok e := hok
  unfold pageBits
  rw [hwalk]

theorem pageBits_le (hasks : g.Asks c) (hv : sext v = v) : pageBits g mem c v asid ≤ 30 := by
  rcases startWalk_cases hasks mem v asid with ⟨f, hwalk⟩ | ⟨L, p, hl, hwalk⟩
  · unfold pageBits
    rw [hwalk]
    exact Nat.zero_le 30
  · cases hres : (stepLeaf g c v asid L p (mem p)).result with
    | error f =>
      unfold pageBits
      rw [hwalk]
      generalize stepLeaf g c v asid L p (mem p) = w at hres
      obtain ⟨result, write⟩ := w
      obtain rfl : result = .error f := hres
      exact Nat.zero_le 30
    | ok entry =>
      rw [pageBits_of_ok hwalk hres]
      exact (caches_of_walk hv hl hres).logBytes_le

/-- A walk that is permitted caches an entry that is. -/
theorem checkPermissions_leafEntry {pte : PTESv39} (h : checkPermissions c v pte = none) :
    checkPermissions c v (leafEntry c v asid L pte).pte = none := by
  rw [← h]
  unfold leafEntry
  split
  next hd => exact checkPermissions_congr rfl rfl rfl fun hm => absurd hm hd.2
  · exact checkPermissions_congr rfl rfl rfl fun _ => rfl

variable {s : State}

/-- What a walk leaves: a fault, or the slot of the page. -/
theorem Good.start (h : Good g s.mem s.tlb) (hsize : 0 < s.tlb.size) (hasks : g.Asks c)
    (hv : sext v = v)
    (hclear : Clear s.tlb v asid (pageBits g s.mem c v asid)) :
    ∃ s' r, s.start g c v asid = some (s', r) ∧ Good g s'.mem s'.tlb ∧ SameTables s.mem s'.mem ∧
      s'.tlb.size = s.tlb.size ∧
      ((∃ f, r = some f ∧ fresh g s.mem c v asid = some (.error f)) ∨
        ∃ i, r = none ∧ s'.tlb.Finds (buildKey v asid) i ∧
          fresh g s.mem c v asid = some (.ok ((s'.tlb.tlb i).physical v)) ∧
          checkPermissions c v (s'.tlb.tlb i).pte = none ∧
          ∀ j, s.tlb.Finds (buildKey v asid) j → j = i) := by
  have hfresh : fresh g s.mem c v asid = (startWalk g s.mem c v asid).map fun e => e.outcome v := by
    rw [fresh_eq, hv]
  unfold State.start
  rcases startWalk_cases hasks s.mem v asid with ⟨f, hwalk⟩ | ⟨L, p, hl, hwalk⟩
  · rw [hfresh, hwalk, bind_some]
    exact ⟨_, _, rfl, h, SameTables.refl _, rfl, .inl ⟨f, rfl, rfl⟩⟩
  · have hsame : SameTables s.mem ((stepLeaf g c v asid L p (s.mem p)).store s.mem) :=
      stepLeaf_same s.mem
    rw [hfresh, hwalk, bind_some]
    cases hres : (stepLeaf g c v asid L p (s.mem p)).result with
    | error f =>
      refine ⟨_, _, rfl, h.same hsame, hsame, rfl, .inl ⟨f, rfl, ?_⟩⟩
      show some (WalkEnd.outcome _ v) = _
      unfold WalkEnd.outcome
      rw [hres]
    | ok entry =>
      have hc := caches_of_walk hv hl hres
      rw [pageBits_of_ok hwalk hres] at hclear
      obtain ⟨hperm, _, hentry, _⟩ := stepLeaf_ok hres
      have hL := leaf_le hl
      have hlog : entry.logBytes = 12 + 9 * L := hc.logBytes
      have hasid : entry.asid = asid := by
        rw [hentry]
        rfl
      have hag : Agree (64 - entry.logBytes) v entry.vaddr := by
        rw [hlog, hentry]
        exact (agree_and_pageMask (by omega) v).symm
      have hkey : Agree (64 - entry.logBytes) (buildKey v asid) entry.key := by
        unfold TlbEntry.key
        rw [hasid]
        exact (agree_buildKey_iff (by omega) (by omega) hv hc.canonical asid).mpr hag
      have hclear' : Clear s.tlb entry.vaddr entry.asid entry.logBytes := by
        rw [hasid]
        exact hclear.base hc.logBytes_le hv hc.canonical hag
      obtain ⟨t', i, hrun, hgood, hsize', hused, hpage, honly⟩ :=
        (h.same hsame).insert hsize hc hclear'
      dsimp only
      rw [hrun]
      refine ⟨_, _, rfl, hgood, hsame, hsize', .inr ⟨i, rfl, ⟨hused, ?_⟩, ?_, ?_, fun j hj => ?_⟩⟩
      · show Agree (64 - (t'.tlb i).logBytes) (buildKey v asid) (t'.tlb i).key
        unfold TlbEntry.key at hkey ⊢
        rw [hpage.logBytes, hpage.vaddr, hpage.asid]
        exact hkey
      · show some (WalkEnd.outcome _ v) = some (.ok ((t'.tlb i).physical v))
        unfold WalkEnd.outcome TlbEntry.physical
        rw [hres, hpage.paddr, hpage.logBytes]
      · show checkPermissions c v (t'.tlb i).pte = none
        rw [hpage.pte, hentry]
        exact checkPermissions_leafEntry hperm
      · -- a slot that matches the address is of the page, so it matches the base
        have hown := hclear.own hj
        obtain ⟨L', p', hc'⟩ := h.caches j hj.1
        have hat := hc'.leaf_at (h.agree_of_finds hv (hown.symm ▸ hj))
        rw [hown, hl] at hat
        obtain ⟨rfl, rfl⟩ := Prod.mk.inj (Option.some.inj hat)
        refine honly j ⟨hj.1, ?_⟩
        have hj' := hj.2
        rw [hc'.logBytes, ← hlog] at hj' ⊢
        exact hkey.symm.trans hj'

/-- The entry in a slot that matches. -/
theorem Good.useEntry (h : Good g s.mem s.tlb) (hsize : 0 < s.tlb.size) (hasks : g.Asks c)
    (hv : sext v = v)
    (hclear : Clear s.tlb v asid (pageBits g s.mem c v asid))
    (hf : s.tlb.Finds (buildKey v asid) i) :
    ∃ s' r, s.useEntry g c v asid i = some (s', r) ∧ fresh g s.mem c v asid = some r ∧
      Good g s'.mem s'.tlb ∧ SameTables s.mem s'.mem ∧ s'.tlb.size = s.tlb.size := by
  obtain ⟨L, p, hc⟩ := h.caches i hf.1
  have hown := hclear.own hf
  have hag := h.agree_of_finds hv (hown.symm ▸ hf)
  unfold State.useEntry
  cases hperm : checkPermissions c v (s.tlb.tlb i).pte with
  | none =>
    have hfresh := hc.permitted hasks hv hag hperm
    rw [hown] at hfresh
    exact ⟨s, _, rfl, hfresh, h, SameTables.refl _, rfl⟩
  | some f =>
    dsimp only
    by_cases hwrite : c.mode = .Write ∧ (s.tlb.tlb i).pte.w = false
    · -- a write to a page that is kept read-only
      rw [if_pos hwrite]
      obtain ⟨s', r, hrun, hgood, hsame, hsize', ⟨f, rfl, hfresh⟩ | ⟨j, rfl, _, hfresh, _, honly⟩⟩ :=
        h.start hsize hasks hv hclear
      · rw [hrun]
        exact ⟨s', _, rfl, hfresh, hgood, hsame, hsize'⟩
      · rw [hrun]
        rw [← honly i hf] at hfresh
        exact ⟨s', _, rfl, hfresh, hgood, hsame, hsize'⟩
    · rw [if_neg hwrite]
      have hfresh := hc.refused hasks hv hag hperm hwrite
      rw [hown] at hfresh
      exact ⟨s, _, rfl, hfresh, h, SameTables.refl _, rfl⟩

theorem Clear.alike {logBytes : Nat} (h : Clear t v asid logBytes) (ha : Alike t t') :
    Clear t' v asid logBytes := by
  intro j hj
  rw [ha.asid, ha.key, ha.logBytes]
  exact h j ((ha.used j).mp hj)

/-- The guard of a translation keeps other address spaces away. -/
theorem Good.clear_of_separate (h : Good g s.mem s.tlb) (hasks : g.Asks c)
    (hsep : s.Separate g (.translate c v asid)) :
    Clear s.tlb (sext v) asid (pageBits g s.mem c (sext v) asid) := by
  cases hbit : v.getLsbD 38 with
  | true =>
    have hapart := hsep hbit
    exact fun j hj hne => hapart j hj.1 hj.2 hne
  | false =>
    refine h.clear_of_low (sext_sext v) ?_ (pageBits_le hasks (sext_sext v))
    rw [getLsbD_sext]
    exact hbit

/-- A translation is that of a fresh walk. -/
theorem Good.translate (h : Good g s.mem s.tlb) (hsize : 0 < s.tlb.size) (hasks : g.Asks c)
    (hsep : s.Separate g (.translate c v asid)) :
    ∃ s' r, s.doTranslate g c v asid = some (s', r) ∧ fresh g s.mem c v asid = some r ∧
      Good g s'.mem s'.tlb ∧ SameTables s.mem s'.mem ∧ s'.tlb.size = s.tlb.size := by
  have hclear := h.clear_of_separate hasks hsep
  have hv := sext_sext v
  rw [← fresh_sext]
  unfold State.doTranslate
  dsimp only
  generalize sext v = v at hclear hv
  rcases h.lookup v asid with ⟨i, t, hf, hrun, hgood, ha, _⟩ | ⟨hnone, hrun⟩
  · rw [hrun, bind_some]
    have hf' : t.Finds (buildKey v asid) i := by
      refine ⟨(ha.used i).mpr hf.1, ?_⟩
      rw [ha.logBytes, ha.key]
      exact hf.2
    obtain ⟨s', r, hrun', hfresh, hgood', hsame, hsize'⟩ :=
      Good.useEntry (s := { s with tlb := t }) hgood (ha.size.symm ▸ hsize) hasks hv (hclear.alike ha) hf'
    exact ⟨s', r, hrun', hfresh, hgood', hsame, hsize'.trans ha.size⟩
  · rw [hrun, bind_some]
    obtain ⟨s', r, hstart, hgood, hsame, hsize', ⟨f, rfl, hfresh⟩ | ⟨i, rfl, hf, hfresh, hperm, _⟩⟩ :=
      h.start hsize hasks hv hclear
    · rw [hstart, bind_some]
      exact ⟨s', _, rfl, hfresh, hgood, hsame, hsize'⟩
    · rw [hstart, bind_some]
      rcases hgood.lookup v asid with ⟨j, t, hj, hrun', hgood', ha, hpage⟩ | ⟨hnone', _⟩
      · obtain rfl := hgood.finds_unique hj hf
        rw [hrun', bind_some]
        unfold State.useEntry
        dsimp only
        rw [hpage.pte, hperm]
        refine ⟨_, _, rfl, ?_, hgood', hsame, ha.size.trans hsize'⟩
        rw [hfresh]
        unfold TlbEntry.physical
        rw [hpage.paddr, hpage.logBytes]
      · exact absurd hf (hnone' i)

/-! ## Steps and runs -/

/-- What holds of a run so far. -/
structure State.Kept (g : Tables) (mem : Nat → PTESv39) (s : State) : Prop where
  good : Good g s.mem s.tlb
  same : SameTables mem s.mem
  nonempty : 0 < s.tlb.size

theorem State.Kept.step {s : State} (h : s.Kept g mem) (event : Event) (hsep : s.Separate g event)
    (hchecked : event.Checked g) :
    ∃ s', s.step g event = some s' ∧ s'.Kept g mem := by
  obtain ⟨hgood, hsame, hsize⟩ := h
  cases event with
  | translate c v asid =>
    obtain ⟨s', r, hrun, _, hgood', hsame', hsize'⟩ := hgood.translate hsize hchecked hsep
    refine ⟨s', ?_, hgood', hsame.trans hsame', hsize'.symm ▸ hsize⟩
    show (s.doTranslate g c v asid).map Prod.fst = some s'
    rw [hrun]
    rfl
  | demapPage vpn asid =>
    obtain ⟨t', hrun, hgood', hsize'⟩ := hgood.demapPage vpn asid
    refine ⟨{ s with tlb := t' }, ?_, hgood', hsame, hsize'.symm ▸ hsize⟩
    show (s.tlb.demapPage vpn asid).map _ = _
    rw [hrun]
    rfl
  | flushAll =>
    obtain ⟨t', hrun, hgood', hsize'⟩ := hgood.flushAll
    refine ⟨{ s with tlb := t' }, ?_, hgood', hsame, hsize'.symm ▸ hsize⟩
    show s.tlb.flushAll.map _ = _
    rw [hrun]
    rfl
  | evictLRU =>
    obtain ⟨t', hrun, hgood', hsize', _⟩ := hgood.evictLRU hsize hsep
    refine ⟨{ s with tlb := t' }, ?_, hgood', hsame, hsize'.symm ▸ hsize⟩
    show s.tlb.evictLRU.map _ = _
    rw [hrun]
    rfl

/-- A new TLB holds nothing. -/
theorem good_init (size : Nat) : Good g mem (TLB.init size) := by
  have hunused : ∀ i, ¬ (TLB.init size).Used i := fun i hi => hi.2 rfl
  refine ⟨⟨_, PrefixTrie.holds_empty, fun e he => ?_, fun i hi => absurd hi (hunused i),
      fun i => ?_, nodup_range⟩, fun i hi => absurd hi (hunused i),
    fun i _ hi => absurd hi (hunused i)⟩
  · cases he
  · show i ∈ List.range size ↔ i < size ∧ none = none
    rw [mem_range]
    exact (and_iff_left rfl).symm

theorem State.kept_init {size : Nat} (hsize : 0 < size) : (State.init size mem).Kept g mem :=
  ⟨good_init size, SameTables.refl mem, hsize⟩

/-- Slots, free list and trie agree, and the trie holds each slot in use once. -/
def TLB.Agrees (t : TLB) : Prop :=
  ∃ s : PrefixTrie.Tree 64 Nat, t.Linked s ∧ (s.entries.map PrefixTrie.Entry.val).Nodup

theorem Good.agrees (h : Good g mem t) : t.Agrees := by
  obtain ⟨s, hl⟩ := h.linked
  have hhandles := PrefixTrie.handles_nodup hl.holds.nodup
  refine ⟨s, hl, hhandles.of_map.map_on fun e he e' he' hval => ?_⟩
  -- two entries for one slot have its handle
  apply inj_on_of_nodup_map hhandles he he'
  have hhandle := (hl.entry e he).2.1
  rw [hval, (hl.entry e' he').2.1] at hhandle
  exact (Option.some.inj hhandle).symm

/-- What a lookup finds is of the address space and covers the address. -/
theorem Good.lookup_covers (h : Good g mem t) (hv : sext v = v)
    (hapart : v.getLsbD 38 = true → Apart t v asid 0) (hidden : Bool) :
    ∃ t' r, t.lookup v asid hidden = some (t', r) ∧ ∀ i, r = some i →
      (t.tlb i).asid = asid ∧ v &&& pageMask (t.tlb i).logBytes = (t.tlb i).vaddr := by
  have hclear : Clear t v asid 0 := by
    cases hbit : v.getLsbD 38 with
    | true => exact fun j hj hne => hapart hbit j hj.1 hj.2 hne
    | false => exact h.clear_of_low hv hbit (Nat.zero_le 30)
  have hcovers : ∀ i, t.Finds (buildKey v asid) i →
      (t.tlb i).asid = asid ∧ v &&& pageMask (t.tlb i).logBytes = (t.tlb i).vaddr := by
    intro i hf
    have hown := hclear.own hf
    obtain ⟨L, p, hc⟩ := h.caches i hf.1
    have hle := hc.logBytes_le
    refine ⟨hown, (and_pageMask_eq_iff (by omega) ?_).mpr (h.agree_of_finds hv (hown.symm ▸ hf))⟩
    rw [hc.logBytes]
    exact hc.base
  cases hidden with
  | true =>
    rcases h.lookup_hidden v asid with ⟨i, hf, hrun⟩ | ⟨_, hrun⟩
    · exact ⟨t, some i, hrun, fun j hj => Option.some.inj hj ▸ hcovers i hf⟩
    · exact ⟨t, none, hrun, nofun⟩
  | false =>
    rcases h.lookup v asid with ⟨i, t', hf, hrun, _⟩ | ⟨_, hrun⟩
    · exact ⟨t', some i, hrun, fun j hj => Option.some.inj hj ▸ hcovers i hf⟩
    · exact ⟨t, none, hrun, nofun⟩

/-- The TLB is transparent along a run that keeps address spaces apart. -/
theorem tlb_transparent (g : Tables) (mem : Nat → PTESv39) (size : Nat) (hsize : 0 < size)
    (events : List Event)
    (hok : Trace.Obeys (fun s event => s.Separate g event ∧ event.Checked g) (State.step g)
      (State.init size mem) events) :
    ∃ s, Trace.runs (State.step g) (State.init size mem) events = some s ∧ s.tlb.Agrees ∧
      SameTables mem s.mem ∧
      (∀ c vaddr asid, s.Separate g (.translate c vaddr asid) → g.Asks c →
        ∃ s' r, s.doTranslate g c vaddr asid = some (s', r) ∧ fresh g s.mem c vaddr asid = some r ∧
          ((∀ addr, g.pmp true addr = true) → fresh g mem c vaddr asid = some r)) ∧
      ∀ vpn asid hidden, sext vpn = vpn → (vpn.getLsbD 38 = true → Apart s.tlb vpn asid 0) →
        ∃ t r, s.tlb.lookup vpn asid hidden = some (t, r) ∧ ∀ i, r = some i →
          (s.tlb.tlb i).asid = asid ∧
            vpn &&& pageMask (s.tlb.tlb i).logBytes = (s.tlb.tlb i).vaddr := by
  obtain ⟨s, hrun, hgood, hsame, hnonempty⟩ := Trace.Obeys.runs (State.Kept g mem)
    (fun s event h hok => h.step event hok.1 hok.2) (State.kept_init hsize) hok
  refine ⟨s, hrun, hgood.agrees, hsame, fun c vaddr asid hsep hasks => ?_,
    fun vpn asid hidden hv hapart => hgood.lookup_covers hv hapart hidden⟩
  obtain ⟨s', r, htrans, hfresh, _⟩ := hgood.translate hnonempty hasks hsep
  refine ⟨s', r, htrans, hfresh, fun hpmp => ?_⟩
  rw [← fresh_same hasks hsame hpmp]
  exact hfresh

end

/-- Two address spaces: the upper half of the first maps a gigabyte at 0, that of the second one at
    1 GiB. -/
def twoSpaces : Tables where
  root := fun asid => asid.toNat
  pmp := fun _ _ => true

def twoTables (addr : Nat) : PTESv39 :=
  if addr = 4096 + 2048 then { r := true, x := true, a := true, v := true }
  else if addr = 8192 + 2048 then { ppn := 2 ^ 18, r := true, x := true, a := true, v := true }
  else {}

/-- A read of the supervisor. -/
def readSupervisor : Context := { mode := .Read, prv := .PRV_S }

def readPage : Event := .translate readSupervisor 0xFFFFFFC000000000#64 1

/-- The upper half of one address space after that of the other, once its entries are gone. -/
def separateRun : List Event :=
  [readPage, .demapPage 0 1, .translate readSupervisor 0xFFFFFFC000000000#64 2, .evictLRU, .flushAll]

theorem checked_separateRun : ∀ event ∈ separateRun, event.Checked twoSpaces := by
  intro event hevent
  simp only [separateRun, mem_cons, not_mem_nil, or_false] at hevent
  rcases hevent with rfl | rfl | rfl | rfl | rfl
  · exact .inl rfl
  · trivial
  · exact .inl rfl
  · trivial
  · trivial

/-- Two address spaces, and a switch between them. -/
theorem tlb_transparent_switch :
    Trace.Obeys (State.Separate twoSpaces) (State.step twoSpaces) (State.init 1 twoTables)
        separateRun ∧
      ∃ s, Trace.runs (State.step twoSpaces) (State.init 1 twoTables) separateRun = some s ∧
        s.tlb.Agrees := by
  have hok : Trace.Obeys (State.Separate twoSpaces) (State.step twoSpaces)
      (State.init 1 twoTables) separateRun := by decide
  obtain ⟨s, hrun, hagrees, _⟩ := tlb_transparent twoSpaces twoTables 1 (by decide) separateRun
    (hok.and_of_forall checked_separateRun)
  exact ⟨hok, s, hrun, hagrees⟩

/-- The walker may not read the table of the first address space. -/
def guarded : Tables := { twoSpaces with pmp := fun _ addr => addr != 4096 + 2048 }

/-- A fetch of the supervisor while data accesses are made as the machine: its walk is not checked. -/
def fetchUnchecked : Context := { mode := .Execute, prv := .PRV_S, mprv := true, mpp := .PRV_M }

/-- The second address space is given the page of the first; and a read hits the entry of a fetch
    whose walk the PMP was not asked about, where its own walk may not read the table. -/
theorem tlb_not_transparent :
    (∃ s, Trace.runs (State.step twoSpaces) (State.init 4 twoTables) [readPage] = some s ∧
      (s.doTranslate twoSpaces readSupervisor 0xFFFFFFC000000000#64 2).map Prod.snd = some (.ok 0) ∧
      fresh twoSpaces s.mem readSupervisor 0xFFFFFFC000000000#64 2 = some (.ok (2 ^ 30))) ∧
    ∃ s, Trace.runs (State.step guarded) (State.init 4 twoTables)
        [.translate fetchUnchecked 0xFFFFFFC000000000#64 1] = some s ∧
      (s.doTranslate guarded readSupervisor 0xFFFFFFC000000000#64 1).map Prod.snd = some (.ok 0) ∧
      fresh guarded s.mem readSupervisor 0xFFFFFFC000000000#64 1 =
        some (.error ⟨0xFFFFFFC000000000#64, .LOAD_ACCESS⟩) := by
  refine ⟨⟨_, rfl, ?_, ?_⟩, _, rfl, ?_, ?_⟩
  · decide
  · decide
  · decide
  · decide

end Gem5Dvr.Tlb
