/-
  The slots of the TLB.

    1. `Caches`: what an entry is of the page tables.  It answers as a fresh walk does, but for a write
       to a page that is kept read-only until it is dirty (`Caches.permitted`, `Caches.refused`).
    2. `Linked`: slots, free list and trie agree.
    3. What `lookup` finds in a linked TLB, and what `remove` and `allocate` make of it.

  The crux is `Finds`: the trie answers with a slot whose key has the page's bits of the key asked for;
  which address space that is, the keys alone do not say.
-/
import Gem5Dvr.TlbWalk
import Gem5Dvr.TrieMap

namespace Gem5Dvr.Tlb

open List Function

open BitPrefix

/-! ## Entries and page tables -/

/-- The entry is the page of the leaf at `p`, of level `L`. -/
structure Caches (g : Tables) (mem : Nat → PTESv39) (e : TlbEntry) (L p : Nat) : Prop where
  found : leaf g mem e.vaddr e.asid = some (L, p)
  canonical : sext e.vaddr = e.vaddr
  logBytes : e.logBytes = 12 + 9 * L
  base : e.vaddr &&& pageMask (12 + 9 * L) = e.vaddr
  aligned : ¬ misaligned L (mem p)
  paddr : e.paddr = (mem p).ppn
  r : e.pte.r = (mem p).r
  x : e.pte.x = (mem p).x
  u : e.pte.u = (mem p).u
  w : e.pte.w = true → (mem p).w = true ∧ (mem p).d = true
  a : (mem p).a = true

section Caches

variable {g : Tables} {mem : Nat → PTESv39} {c : Context} {v : BitVec 64} {asid : BitVec 16}
  {e : TlbEntry} {L p : Nat}

theorem Caches.level (h : Caches g mem e L p) : L ≤ 2 := leaf_le h.found

theorem Caches.same {mem' : Nat → PTESv39} (h : Caches g mem e L p) (hs : SameTables mem mem') :
    Caches g mem' e L p := by
  have hm := hs p
  refine ⟨(leaf_same hs _ _).trans h.found, h.canonical, h.logBytes, h.base, ?_,
    h.paddr.trans hm.ppn.symm, h.r.trans hm.r.symm, h.x.trans hm.x.symm, h.u.trans hm.u.symm,
    fun hw => ?_, hm.a h.a⟩
  · unfold misaligned PTESv39.ppn0 PTESv39.ppn1
    rw [hm.ppn]
    exact h.aligned
  · obtain ⟨hw, hd⟩ := h.w hw
    exact ⟨hm.w.trans hw, hm.d hd⟩

/-- What a walk caches. -/
theorem caches_of_walk (hv : sext v = v) (hl : leaf g mem v asid = some (L, p))
    (hok : (stepLeaf g c v asid L p (mem p)).result = .ok e) :
    Caches g ((stepLeaf g c v asid L p (mem p)).store mem) e L p := by
  have hL := leaf_le hl
  have hs : SameTables mem ((stepLeaf g c v asid L p (mem p)).store mem) := stepLeaf_same mem
  obtain ⟨_, hmis, rfl, hstore⟩ := stepLeaf_ok hok
  generalize (stepLeaf g c v asid L p (mem p)).store mem = mem' at hs hstore
  have hbits : (leafEntry c v asid L (mem p)).pte.r = (mem p).r ∧
      (leafEntry c v asid L (mem p)).pte.x = (mem p).x ∧
      (leafEntry c v asid L (mem p)).pte.u = (mem p).u := by
    unfold leafEntry
    split
    · exact ⟨rfl, rfl, rfl⟩
    · exact ⟨rfl, rfl, rfl⟩
  refine ⟨?_, canonical_and_pageMask (by omega) hv, rfl, ?_, ?_, ?_, ?_, ?_, ?_, fun hw => ?_, ?_⟩
  · exact (leaf_same hs _ _).trans (leaf_congr hl (agree_and_pageMask (by omega) v).symm)
  · show v &&& pageMask (12 + 9 * L) &&& pageMask (12 + 9 * L) = _
    rw [BitVec.and_assoc, BitVec.and_self]
    rfl
  · rw [hstore]
    exact hmis
  · rw [hstore]
    rfl
  · rw [hstore]
    exact hbits.1
  · rw [hstore]
    exact hbits.2.1
  · rw [hstore]
    exact hbits.2.2
  · rw [hstore]
    unfold leafEntry at hw
    by_cases hd : (mark c (mem p)).d = false ∧ c.mode ≠ .Write
    · rw [if_pos hd] at hw
      exact Bool.noConfusion hw
    · rw [if_neg hd] at hw
      refine ⟨hw, ?_⟩
      by_contra hnd
      have hfalse : (mark c (mem p)).d = false := by simpa using hnd
      refine hd ⟨hfalse, fun hm => ?_⟩
      have htrue : (mark c (mem p)).d = true := by
        show ((mem p).d || decide (c.mode = .Write)) = true
        rw [decide_eq_true hm, Bool.or_true]
      rw [htrue] at hfalse
      exact Bool.noConfusion hfalse
  · rw [hstore]
    rfl

/-- The leaf under an address of the entry's page. -/
theorem Caches.leaf_at (h : Caches g mem e L p) (hag : Agree (64 - e.logBytes) v e.vaddr) :
    leaf g mem v e.asid = some (L, p) := by
  rw [h.logBytes] at hag
  exact leaf_congr h.found hag.symm

/-- A permitted access gets the address that a fresh walk gets. -/
theorem Caches.permitted (h : Caches g mem e L p) (hasks : g.Asks c) (hv : sext v = v)
    (hag : Agree (64 - e.logBytes) v e.vaddr) (hperm : checkPermissions c v e.pte = none) :
    fresh g mem c v e.asid = some (.ok (e.physical v)) := by
  have hl : leaf g mem (sext v) e.asid = some (L, p) := by
    rw [hv]
    exact h.leaf_at hag
  have hw : c.mode = .Write → (mem p).w = true ∧ (mem p).d = true :=
    fun hm => h.w (checkPermissions_write hm hperm)
  have hperm' : checkPermissions c v (mem p) = none := by
    rw [← hperm]
    refine checkPermissions_congr h.r.symm h.x.symm h.u.symm fun hm => ?_
    rw [(hw hm).1, checkPermissions_write hm hperm]
  have hno : ¬ (((mem p).a = false ∨ ((mem p).d = false ∧ c.mode = .Write)) ∧
      g.pmpCheck c true p = false) := by
    rintro ⟨ha | ⟨hd, hm⟩, _⟩
    · rw [h.a] at ha
      exact Bool.noConfusion ha
    · rw [(hw hm).2] at hd
      exact Bool.noConfusion hd
  rw [fresh_of_leaf hasks hl, hv, stepLeaf_permitted hperm' h.aligned, if_neg hno]
  show some (Except.ok ((leafEntry c v e.asid L (mem p)).physical v)) = _
  unfold TlbEntry.physical
  rw [h.paddr, h.logBytes]
  rfl

/-- A refused access gets the fault of a fresh walk, unless it is a write to a page that is kept
    read-only. -/
theorem Caches.refused (h : Caches g mem e L p) (hasks : g.Asks c) (hv : sext v = v)
    (hag : Agree (64 - e.logBytes) v e.vaddr) {f : Fault}
    (hperm : checkPermissions c v e.pte = some f) (hnot : ¬ (c.mode = .Write ∧ e.pte.w = false)) :
    fresh g mem c v e.asid = some (.error f) := by
  have hl : leaf g mem (sext v) e.asid = some (L, p) := by
    rw [hv]
    exact h.leaf_at hag
  have hperm' : checkPermissions c v (mem p) = some f := by
    rw [← hperm]
    refine checkPermissions_congr h.r.symm h.x.symm h.u.symm fun hm => ?_
    have hw : e.pte.w = true := by
      by_contra hw
      exact hnot ⟨hm, by simpa using hw⟩
    rw [(h.w hw).1, hw]
  rw [fresh_of_leaf hasks hl, hv, stepLeaf_error hperm']
  rfl

end Caches

/-! ## Slots, free list and trie -/

namespace TLB

variable (t : TLB)

/-- A slot that holds an entry. -/
def Used (i : Nat) : Prop := i < t.size ∧ (t.tlb i).trieHandle ≠ none

/-- The slot's entry matches a key. -/
def Finds (key : BitVec 64) (i : Nat) : Prop :=
  t.Used i ∧ Agree (64 - (t.tlb i).logBytes) key (t.tlb i).key

/-- Slots, free list and trie agree: the values of the trie are the slots in use, each once. -/
structure Linked (s : PrefixTrie.Tree 64 Nat) : Prop where
  holds : PrefixTrie.Holds t.trie s
  entry : ∀ e ∈ s.entries, e.val < t.size ∧ (t.tlb e.val).trieHandle = some e.handle ∧
    e.width = 64 - (t.tlb e.val).logBytes ∧ e.key = (t.tlb e.val).key &&& maskOf 64 e.width
  slot : ∀ i, t.Used i → ∃ e ∈ s.entries, e.val = i
  free : ∀ i, i ∈ t.freeList ↔ i < t.size ∧ (t.tlb i).trieHandle = none
  nodup : t.freeList.Nodup

end TLB

/-- Two TLBs that differ in `pte` and `lruSeq` only. -/
structure Alike (t t' : TLB) : Prop where
  size : t'.size = t.size
  trie : t'.trie = t.trie
  freeList : t'.freeList = t.freeList
  vaddr : ∀ i, (t'.tlb i).vaddr = (t.tlb i).vaddr
  asid : ∀ i, (t'.tlb i).asid = (t.tlb i).asid
  logBytes : ∀ i, (t'.tlb i).logBytes = (t.tlb i).logBytes
  trieHandle : ∀ i, (t'.tlb i).trieHandle = (t.tlb i).trieHandle

section Linked

variable {t t' : TLB} {s : PrefixTrie.Tree 64 Nat} {i : Nat}

theorem Alike.key (h : Alike t t') (i : Nat) : (t'.tlb i).key = (t.tlb i).key := by
  unfold TlbEntry.key
  rw [h.vaddr, h.asid]

theorem Alike.used (h : Alike t t') (i : Nat) : t'.Used i ↔ t.Used i := by
  unfold TLB.Used
  rw [h.size, h.trieHandle]

theorem TLB.Linked.alike (h : t.Linked s) (ha : Alike t t') : t'.Linked s := by
  refine ⟨ha.trie ▸ h.holds, fun e he => ?_, fun i hi => h.slot i ((ha.used i).mp hi), fun i => ?_,
    ha.freeList ▸ h.nodup⟩
  · rw [ha.size, ha.trieHandle, ha.logBytes, ha.key]
    exact h.entry e he
  · rw [ha.freeList, ha.size, ha.trieHandle]
    exact h.free i

/-- An entry of the trie matches a key when its slot does. -/
theorem TLB.Linked.matches_iff (h : t.Linked s) {e : PrefixTrie.Entry 64 Nat} (he : e ∈ s.entries)
    (key : BitVec 64) : e.Matches key ↔ t.Finds key e.val := by
  obtain ⟨hlt, hhandle, hwidth, hkey⟩ := h.entry e he
  have hself : e.key &&& maskOf 64 e.width = e.key := by
    rw [hkey, BitVec.and_assoc, BitVec.and_self]
  have hag : Agree e.width e.key (t.tlb e.val).key := by
    rw [hkey]
    exact agree_and_maskOf _ _
  rw [PrefixTrie.Entry.matches_iff hself]
  constructor
  · intro hm
    refine ⟨⟨hlt, by rw [hhandle]; exact nofun⟩, ?_⟩
    rw [← hwidth]
    exact hm.trans hag
  · rintro ⟨_, hm⟩
    rw [← hwidth] at hm
    exact hm.trans hag.symm

/-- `lookup` of the trie answers with a slot that matches, if there is one. -/
theorem TLB.Linked.lookup (h : t.Linked s) (key : BitVec 64) :
    (∃ i, t.Finds key i ∧ t.trie.lookup key = some (some i)) ∨
      (∀ i, ¬ t.Finds key i) ∧ t.trie.lookup key = some none := by
  rcases PrefixTrie.lookup_spec h.holds key with ⟨e, he, hm, _, hrun⟩ | ⟨hnone, hrun⟩
  · exact .inl ⟨e.val, (h.matches_iff he key).mp hm, hrun⟩
  · refine .inr ⟨fun i hi => ?_, hrun⟩
    obtain ⟨e, he, rfl⟩ := h.slot i hi.1
    exact hnone e he ((h.matches_iff he key).mpr hi)

/-- The handles of the trie's entries are different. -/
theorem TLB.Linked.handle_unique (h : t.Linked s) {e : PrefixTrie.Entry 64 Nat}
    {es : List (PrefixTrie.Entry 64 Nat)} (hperm : s.entries.Perm (e :: es)) :
    ∀ e' ∈ es, e'.handle ≠ e.handle := by
  intro e' he' heq
  have hnd := (hperm.map PrefixTrie.Entry.handle).nodup_iff.mp
    (PrefixTrie.handles_nodup h.holds.nodup)
  rw [map_cons, nodup_cons] at hnd
  exact hnd.1 (mem_map.mpr ⟨e', he', heq⟩)

/-- The slot `i` after `remove`. -/
def TLB.cleared (t : TLB) (i : Nat) : Nat → TlbEntry :=
  update t.tlb i { t.tlb i with trieHandle := none }

theorem TLB.Linked.remove (h : t.Linked s) (hi : t.Used i) :
    ∃ t' s', t.remove i = some t' ∧ t'.Linked s' ∧ t'.size = t.size ∧ t'.tlb = t.cleared i := by
  obtain ⟨e, he, rfl⟩ := h.slot i hi
  obtain ⟨hlt, hhandle, _, _⟩ := h.entry e he
  obtain ⟨trie, s', hrun, hgone⟩ := PrefixTrie.remove_spec (by decide) h.holds he
  have hother : ∀ e' ∈ s'.entries, e'.val ≠ e.val := by
    intro e' he' heq
    have hmem : e' ∈ s.entries := hgone.entries.mem_iff.mpr (mem_cons_of_mem e he')
    have hsame := (h.entry e' hmem).2.1
    rw [heq, hhandle] at hsame
    exact h.handle_unique hgone.entries e' he' (Option.some.inj hsame).symm
  refine ⟨{ t with tlb := t.cleared e.val, trie := trie, freeList := t.freeList ++ [e.val] }, s', ?_,
    ⟨hgone.holds, fun e' he' => ?_, fun j hj => ?_, fun j => ?_, ?_⟩, rfl, rfl⟩
  · unfold TLB.remove
    rw [hhandle]
    dsimp only
    rw [hrun]
    rfl
  · have hmem : e' ∈ s.entries := hgone.entries.mem_iff.mpr (mem_cons_of_mem e he')
    show e'.val < t.size ∧ (update t.tlb e.val _ e'.val).trieHandle = _ ∧
      _ = 64 - (update t.tlb e.val _ e'.val).logBytes ∧ _ = (update t.tlb e.val _ e'.val).key &&& _
    rw [update_of_ne (hother e' he')]
    exact h.entry e' hmem
  · have hne : j ≠ e.val := by
      rintro rfl
      refine hj.2 ?_
      show (update t.tlb e.val _ e.val).trieHandle = none
      rw [update_self]
    have hused : t.Used j := by
      refine ⟨hj.1, ?_⟩
      have hslot := hj.2
      change (update t.tlb e.val _ j).trieHandle ≠ none at hslot
      rwa [update_of_ne hne] at hslot
    obtain ⟨e', he', rfl⟩ := h.slot j hused
    refine ⟨e', ?_, rfl⟩
    rcases mem_cons.mp (hgone.entries.mem_iff.mp he') with rfl | hmem
    · exact absurd rfl hne
    · exact hmem
  · show j ∈ t.freeList ++ [e.val] ↔ j < t.size ∧ (update t.tlb e.val _ j).trieHandle = none
    rw [mem_append, mem_singleton]
    by_cases hne : j = e.val
    · rw [hne, update_self]
      exact iff_of_true (.inr rfl) ⟨hlt, rfl⟩
    · rw [update_of_ne hne, or_iff_left hne]
      exact h.free j
  · show (t.freeList ++ [e.val]).Nodup
    rw [nodup_append]
    refine ⟨h.nodup, nodup_singleton _, fun j hj j' hj' heq => ?_⟩
    rw [mem_singleton.mp hj'] at heq
    rw [heq, h.free] at hj
    rw [hhandle] at hj
    exact nomatch hj.2

/-- The slot `i` after `allocate`. -/
def TLB.filled (t : TLB) (i : Nat) (vpn : BitVec 64) (entry : TlbEntry) (handle : Nat) :
    Nat → TlbEntry :=
  update t.tlb i { entry with lruSeq := t.lruSeq + 1, vaddr := vpn, trieHandle := some handle }

theorem overlaps_iff {key key' : BitVec 64} {width width' : Nat} :
    Overlaps key width key' width' ↔ Agree (min width width') key key' := and_maskOf_eq_iff

/-- `allocate` for a page that overlaps none of those held. -/
theorem TLB.Linked.allocate (h : t.Linked s) {rest : List Nat} (hfree : t.freeList = i :: rest)
    {vpn : BitVec 64} {entry : TlbEntry} (hlog : entry.logBytes < 64)
    (hapart : ∀ j, t.Used j → ¬ Overlaps (buildKey vpn entry.asid) (64 - entry.logBytes)
      (t.tlb j).key (64 - (t.tlb j).logBytes)) :
    ∃ t' s' handle, t.allocate vpn entry = some t' ∧ t'.Linked s' ∧ t'.size = t.size ∧
      t'.tlb = t.filled i vpn entry handle := by
  have hi : i < t.size ∧ (t.tlb i).trieHandle = none := by
    rw [← h.free, hfree]
    exact mem_cons_self
  have hnodup := h.nodup
  rw [hfree, nodup_cons] at hnodup
  rcases PrefixTrie.insert_spec (by decide) h.holds (buildKey vpn entry.asid)
      (show 0 < 64 - entry.logBytes by omega) (Nat.sub_le _ _) i with
    ⟨_, e, he, hkey, hwidth⟩ | ⟨_, trie, handle, s', hrun, hholds, hperm⟩
  · -- an entry of the same key and width would overlap
    obtain ⟨hlt, hhandle, hwidth', hkey'⟩ := h.entry e he
    refine absurd ?_ (hapart e.val ⟨hlt, by rw [hhandle]; exact nofun⟩)
    rw [overlaps_iff, ← hwidth', hwidth, Nat.min_self, ← and_maskOf_eq_iff, ← hkey, hkey', hwidth]
  · have hother : ∀ e ∈ s.entries, e.val ≠ i := by
      intro e he heq
      have hhandle := (h.entry e he).2.1
      rw [heq, hi.2] at hhandle
      cases hhandle
    refine ⟨{ t with tlb := t.filled i vpn entry handle, trie := trie, freeList := rest,
                     lruSeq := t.lruSeq + 1 }, s', handle, ?_,
      ⟨hholds, fun e he => ?_, fun j hj => ?_, fun j => ?_, hnodup.2⟩, rfl, rfl⟩
    · unfold TLB.allocate
      rw [hfree]
      dsimp only
      rw [hrun]
      rfl
    · show e.val < t.size ∧ (update t.tlb i _ e.val).trieHandle = _ ∧
        _ = 64 - (update t.tlb i _ e.val).logBytes ∧ _ = (update t.tlb i _ e.val).key &&& _
      rcases mem_cons.mp (hperm.mem_iff.mp he) with rfl | he
      · rw [update_self]
        exact ⟨hi.1, rfl, rfl, rfl⟩
      · rw [update_of_ne (hother e he)]
        exact h.entry e he
    · by_cases hne : j = i
      · exact ⟨_, hperm.mem_iff.mpr mem_cons_self, hne.symm⟩
      · have hslot := hj.2
        change (update t.tlb i _ j).trieHandle ≠ none at hslot
        rw [update_of_ne hne] at hslot
        obtain ⟨e, he, hval⟩ := h.slot j ⟨hj.1, hslot⟩
        exact ⟨e, hperm.mem_iff.mpr (mem_cons_of_mem _ he), hval⟩
    · show j ∈ rest ↔ j < t.size ∧ (update t.tlb i _ j).trieHandle = none
      by_cases hne : j = i
      · rw [hne, update_self]
        exact iff_of_false hnodup.1 fun hand => nomatch hand.2
      · rw [update_of_ne hne, ← h.free, hfree, mem_cons, or_iff_right hne]

end Linked

end Gem5Dvr.Tlb
