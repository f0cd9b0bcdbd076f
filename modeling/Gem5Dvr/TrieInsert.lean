/-
  Lookup and insertion in the prefix trie.

    1. `lookupHandle` ends on the shortest stored prefix of the key (`lookupFrom_spec`).
    2. The loops of `insert`: the walk ends on the last node the new one goes after (`walk_spec`),
       the walk down a leg on the common prefix (`legMask_spec`).
    3. One iteration over a kid passes or inserts (`insertKid_spec`), and of the two kids the key
       takes the way of one (`insertAt_spec`).

  The crux is the new bit: two kids part at it, so the kid the key shares it with is the one to
  split, and what is put in its place parts from the other kid as it did.
-/
import Gem5Dvr.Trie

namespace Gem5Dvr.PrefixTrie

open List Function
open Option (bind_eq_bind bind_some)

open BitPrefix PrefixTrie.Tree Ctx

variable {w : Nat} {V : Type}

/-! ## Lookup -/

/-- The stored prefix matches the key. -/
def Entry.Matches (e : Entry w V) (key : BitVec w) : Prop := key &&& maskOf w e.width = e.key

instance (e : Entry w V) (key : BitVec w) : Decidable (e.Matches key) :=
  inferInstanceAs (Decidable (_ = _))

theorem Entry.matches_iff {e : Entry w V} (he : e.key &&& maskOf w e.width = e.key)
    {key : BitVec w} : e.Matches key ↔ Agree e.width key e.key := by
  unfold Entry.Matches
  rw [← and_maskOf_eq_iff, he]

/-- The handle of the matching prefix of smallest width, or `none` when nothing matches. -/
def IsSmallest (es : List (Entry w V)) (key : BitVec w) : Option Nat → Prop
  | some h => ∃ e ∈ es, e.handle = h ∧ e.Matches key ∧
      ∀ e' ∈ es, e'.Matches key → e.width ≤ e'.width
  | none => ∀ e ∈ es, ¬ e.Matches key

/-- The key lies at or beyond the root of the tree. -/
def Leads (key : BitVec w) : Tree w V → Prop
  | .nil => False
  | .node _ k n _ _ _ => Agree n key k

variable {n a fuel N : Nat} {p : Option Nat}

theorem node_matches {k : BitVec w} (hk : k &&& maskOf w n = k) (v : Option V)
    (p l r : Option Nat) (key : BitVec w) :
    (Node.mk k (maskOf w n) v p l r).matches key = true ↔ Agree n key k := by
  unfold Node.matches
  rw [beq_iff_eq, ← and_maskOf_eq_iff, hk]

theorem kidMatching_spec {t : Trie w V} {s : Tree w V} (hd : Draws t.heap p s)
    (hwf : WellFormed s) (key : BitVec w) :
    (Leads key s ∧ t.kidMatching s.ptr key = some s.ptr) ∨
      (¬ Leads key s ∧ t.kidMatching s.ptr key = some none) := by
  cases s with
  | nil => exact .inr ⟨id, rfl⟩
  | node a k n v l r =>
    have hn := hd.1
    have hiff := node_matches hwf.2.1 v p l.ptr r.ptr key
    by_cases hag : Agree n key k
    · refine .inl ⟨hag, ?_⟩
      simp [Trie.kidMatching, hn, hiff.mpr hag]
    · have hfalse : (Node.mk k (maskOf w n) v p l.ptr r.ptr).matches key = false := by
        rw [Bool.eq_false_iff]
        exact fun h => hag (hiff.mp h)
      refine .inr ⟨hag, ?_⟩
      simp [Trie.kidMatching, hn, hfalse]

/-- Nothing below a kid the key does not lead to matches it. -/
theorem not_matches_of_not_leads {k : BitVec w} {s : Tree w V} (hb : Below k n s)
    (hwf : WellFormed s) {key : BitVec w} (h : ¬ Leads key s) :
    ∀ e ∈ s.entries, ¬ e.Matches key := by
  intro e he hm
  obtain ⟨_, _, _, hkey⟩ := entries_below hb hwf e he
  cases s with
  | nil => exact absurd he not_mem_nil
  | node a k' n' v l r =>
    obtain ⟨hle, hag⟩ := entries_extend hwf he
    exact h ((((Entry.matches_iff hkey).mp hm).mono hle).trans hag)

/-- A key leads to one kid only. -/
theorem not_leads_both {k : BitVec w} {l r : Tree w V} (hl : Below k n l)
    (hr : Below k n r) (hp : Parted n l r) {key : BitVec w} (h : Leads key l) : ¬ Leads key r := by
  intro h'
  cases l with
  | nil => exact h
  | node a₀ k₀ n₀ v₀ l₀ r₀ =>
    cases r with
    | nil => exact h'
    | node a₁ k₁ n₁ v₁ l₁ r₁ => exact hp ((h n hl.1).symm.trans (h' n hr.1))

/-- What is found in one kid, when nothing outside it matches. -/
theorem IsSmallest.of_kid {es es' : List (Entry w V)} {key : BitVec w} {res : Option Nat}
    (h : IsSmallest es key res) (hsub : ∀ e ∈ es, e ∈ es')
    (hother : ∀ e ∈ es', e ∈ es ∨ ¬ e.Matches key) : IsSmallest es' key res := by
  cases res with
  | none => exact fun e he => (hother e he).elim (h e) id
  | some h' =>
    obtain ⟨e, he, hh, hm, hmin⟩ := h
    refine ⟨e, hsub e he, hh, hm, fun e' he' hm' => ?_⟩
    exact (hother e' he').elim (fun he' => hmin e' he' hm') fun hno => absurd hm' hno

theorem lookupFrom_spec {t : Trie w V} {k : BitVec w}
    {v : Option V} {l r : Tree w V} (hd : Draws t.heap p (.node a k n v l r))
    (hwf : WellFormed (.node a k n v l r)) {key : BitVec w} (hkey : Agree n key k)
    (hf : w - n < fuel) : ∃ res, t.lookupFrom key fuel a = some res ∧
      IsSmallest (Tree.node a k n v l r).entries key res := by
  generalize hs : Tree.node a k n v l r = s at hd hwf ⊢
  induction s generalizing p a k n v l r fuel with
  | nil => simp at hs
  | node a' k' n' v' l' r' ihl ihr =>
    obtain ⟨rfl, rfl, rfl, rfl, rfl, rfl⟩ := Tree.node.inj hs
    obtain ⟨fuel, rfl⟩ : ∃ f, fuel = f + 1 := ⟨fuel - 1, by omega⟩
    obtain ⟨hn, hdl, hdr⟩ := hd
    obtain ⟨hw, hk, hbl, hbr, hpart, hwl, hwr⟩ := hwf
    cases v with
    | some x =>
      refine ⟨some a, by simp [Trie.lookupFrom, hn], ⟨a, k, n, x⟩,
        mem_entries.mpr (.inl ⟨x, rfl, rfl⟩), rfl, ?_, fun e' he' _ => ?_⟩
      · exact (Entry.matches_iff (e := ⟨a, k, n, x⟩) hk).mpr hkey
      · exact (entries_extend (a := a) ⟨hw, hk, hbl, hbr, hpart, hwl, hwr⟩ he').1
    | none =>
      have hmem : ∀ e : Entry w V, e ∈ (Tree.node a k n none l r).entries ↔
          e ∈ l.entries ∨ e ∈ r.entries := fun e => by simp [mem_entries]
      rcases kidMatching_spec hdl hwl key with ⟨hl, hkl⟩ | ⟨hl, hkl⟩
      · -- down the first leg: the second holds nothing that matches
        have hother := not_matches_of_not_leads hbr hwr (not_leads_both hbl hbr hpart hl)
        cases l with
        | nil => exact absurd hl id
        | node a₁ k₁ n₁ v₁ l₁ r₁ =>
          simp only [ptr_node] at hkl
          have hfuel : w - n₁ < fuel := by
            have := hbl.1
            have := hwl.1
            omega
          obtain ⟨res, hres, hsm⟩ := ihl hl hfuel rfl hdl hwl
          refine ⟨res, ?_, hsm.of_kid (fun e he => (hmem e).mpr (.inl he)) fun e he => ?_⟩
          · simp only [Trie.lookupFrom, hn, bind_eq_bind, bind_some]
            simpa [hkl] using hres
          · exact ((hmem e).mp he).imp_right (hother e)
      · have hother := not_matches_of_not_leads hbl hwl hl
        rcases kidMatching_spec hdr hwr key with ⟨hr, hkr⟩ | ⟨hr, hkr⟩
        · cases r with
          | nil => exact absurd hr id
          | node a₁ k₁ n₁ v₁ l₁ r₁ =>
            simp only [ptr_node] at hkr
            have hfuel : w - n₁ < fuel := by
              have := hbr.1
              have := hwr.1
              omega
            obtain ⟨res, hres, hsm⟩ := ihr hr hfuel rfl hdr hwr
            refine ⟨res, ?_, hsm.of_kid (fun e he => (hmem e).mpr (.inr he)) fun e he => ?_⟩
            · simp only [Trie.lookupFrom, hn, bind_eq_bind, bind_some]
              simpa [hkl, hkr] using hres
            · exact (((hmem e).mp he).imp_left (hother e)).symm
        · refine ⟨none, by simp [Trie.lookupFrom, hn, hkl, hkr], fun e he => ?_⟩
          rcases (hmem e).mp he with he | he
          · exact hother e he
          · exact not_matches_of_not_leads hbr hwr hr e he

/-! ## The loops of `insert` -/

/-- `goesAfter` succeeds on the root of the tree. -/
def Beyond (key : BitVec w) (N : Nat) : Tree w V → Prop
  | .nil => False
  | .node _ k n _ _ _ => Agree n key k ∧ n ≤ N

theorem goesAfter_spec {t : Trie w V} {s : Tree w V} (hd : Draws t.heap p s)
    (hwf : WellFormed s) (key : BitVec w) (hN : N ≤ w) :
    (Beyond key N s ∧ t.goesAfter s.ptr key (maskOf w N) = some s.ptr) ∨
      (¬ Beyond key N s ∧ t.goesAfter s.ptr key (maskOf w N) = some none) := by
  cases s with
  | nil => exact .inr ⟨id, rfl⟩
  | node a k n v l r =>
    have hn := hd.1
    have hiff := node_matches hwf.2.1 v p l.ptr r.ptr key
    have hmask : (maskOf w n &&& maskOf w N == maskOf w n) = true ↔ n ≤ N := by
      rw [beq_iff_eq, maskOf_and_maskOf]
      constructor
      · intro h
        have hmin := maskOf_inj (by have := hwf.1; omega) hwf.1 h
        omega
      · intro h
        rw [Nat.min_eq_left h]
    by_cases hag : Agree n key k ∧ n ≤ N
    · refine .inl ⟨hag, ?_⟩
      simp [Trie.goesAfter, hn, hiff.mpr hag.1, beq_iff_eq.mp (hmask.mpr hag.2)]
    · have hfalse : ((Node.mk k (maskOf w n) v p l.ptr r.ptr).matches key &&
          (maskOf w n &&& maskOf w N == maskOf w n)) = false := by
        rw [Bool.eq_false_iff]
        intro h
        rw [Bool.and_eq_true] at h
        exact hag ⟨hiff.mp h.1, hmask.mp h.2⟩
      refine .inr ⟨hag, ?_⟩
      simp only [Trie.goesAfter, ptr_node, hn, bind_eq_bind, bind_some, hfalse]
      rfl

/-- The node at `b` is one that the new one goes after and no kid of it is; an entry with the new
    key and width would be at it or below it. -/
def Lands (key : BitVec w) (N b : Nat) (s : Tree w V) : Prop :=
  ∃ (c : Ctx w V) (k' : BitVec w) (n' : Nat) (v' : Option V) (l' r' : Tree w V),
    s = c.plug (.node b k' n' v' l' r') ∧ Agree n' key k' ∧ n' ≤ N ∧
    ¬ Beyond key N l' ∧ ¬ Beyond key N r' ∧
    ∀ e ∈ s.entries, e.key = key → e.width = N → e ∈ (Tree.node b k' n' v' l' r').entries

theorem Lands.of_kid {key : BitVec w} {b : Nat} {k : BitVec w} {v : Option V} {i : Bool}
    {kid sib : Tree w V} (h : Lands key N b kid) (hlt : n < N)
    (hother : ∀ e ∈ sib.entries, e.key ≠ key) : Lands key N b (join a k n v i kid sib) := by
  obtain ⟨c, k', n', v', l', r', hplug, hag, hle, hl, hr, hent⟩ := h
  refine ⟨c.append (.kid a k n v i sib .top), k', n', v', l', r', ?_, hag, hle, hl, hr,
    fun e he hek hew => ?_⟩
  · rw [plug_append, ← hplug]
    rfl
  · rcases mem_append.mp ((entries_join a k n v i kid sib).mem_iff.mp he) with he | he
    · obtain ⟨x, -, rfl⟩ : ∃ x, v = some x ∧ ⟨a, k, n, x⟩ = e := by simpa using he
      exact absurd hew (Nat.ne_of_lt hlt)
    · rcases mem_append.mp he with he | he
      · exact hent e he hek hew
      · exact absurd hek (hother e he)

/-- The walk ends on a node that no kid goes after. -/
theorem walk_spec {t : Trie w V} {k : BitVec w}
    {v : Option V} {l r : Tree w V} (hd : Draws t.heap p (.node a k n v l r))
    (hwf : WellFormed (.node a k n v l r)) {key : BitVec w} (hkey : Agree n key k)
    (hnN : n ≤ N) (hN : N ≤ w) (hf : N - n < fuel) :
    ∃ b, t.walk key (maskOf w N) fuel a = some b ∧ Lands key N b (.node a k n v l r) := by
  generalize hs : Tree.node a k n v l r = s at hd hwf ⊢
  induction s generalizing p a k n v l r fuel with
  | nil => simp at hs
  | node a' k' n' v' l' r' ihl ihr =>
    obtain ⟨rfl, rfl, rfl, rfl, rfl, rfl⟩ := Tree.node.inj hs
    obtain ⟨fuel, rfl⟩ : ∃ f, fuel = f + 1 := ⟨fuel - 1, by omega⟩
    obtain ⟨hn, hdl, hdr⟩ := hd
    obtain ⟨hw, hk, hbl, hbr, hpart, hwl, hwr⟩ := hwf
    -- an entry of one kid cannot have the key when the other kid is the one to go to
    have hpast : ∀ s : Tree w V, Below k n s → WellFormed s → ¬ Leads key s →
        ∀ e ∈ s.entries, e.key ≠ key := by
      intro s hb hws hlead e he heq
      obtain ⟨_, _, _, hmask⟩ := entries_below hb hws e he
      refine not_matches_of_not_leads hb hws hlead e he ?_
      rw [← heq]
      exact hmask
    have hroot : ∀ s : Tree w V, Below k n s → Beyond key N s → n < N := by
      intro s hb hbey
      cases s with
      | nil => exact absurd hbey id
      | node a₁ k₁ n₁ v₁ l₁ r₁ =>
        have := hb.1
        have := hbey.2
        omega
    have hleads : ∀ s : Tree w V, Beyond key N s → Leads key s := by
      intro s hbey
      cases s with
      | nil => exact hbey
      | node a₁ k₁ n₁ v₁ l₁ r₁ => exact hbey.1
    rcases goesAfter_spec hdl hwl key hN with ⟨hl, hgl⟩ | ⟨hl, hgl⟩
    · have hother := hpast r hbr hwr (not_leads_both hbl hbr hpart (hleads l hl))
      have hlt := hroot l hbl hl
      cases l with
      | nil => exact absurd hl id
      | node a₁ k₁ n₁ v₁ l₁ r₁ =>
        simp only [ptr_node] at hgl
        have hfuel : N - n₁ < fuel := by
          have := hbl.1
          omega
        obtain ⟨b, hwalk, hlands⟩ := ihl hl.1 hl.2 hfuel rfl hdl hwl
        refine ⟨b, ?_, hlands.of_kid (i := false) hlt hother⟩
        simp only [Trie.walk, hn, bind_eq_bind, bind_some]
        simpa [hgl] using hwalk
    · rcases goesAfter_spec hdr hwr key hN with ⟨hr, hgr⟩ | ⟨hr, hgr⟩
      · have hlt := hroot r hbr hr
        have hother : ∀ e ∈ l.entries, e.key ≠ key := by
          refine hpast l hbl hwl fun hlead => ?_
          exact not_leads_both hbl hbr hpart hlead (hleads r hr)
        cases r with
        | nil => exact absurd hr id
        | node a₁ k₁ n₁ v₁ l₁ r₁ =>
          simp only [ptr_node] at hgr
          have hfuel : N - n₁ < fuel := by
            have := hbr.1
            omega
          obtain ⟨b, hwalk, hlands⟩ := ihr hr.1 hr.2 hfuel rfl hdr hwr
          refine ⟨b, ?_, hlands.of_kid (i := true) hlt hother⟩
          simp only [Trie.walk, hn, bind_eq_bind, bind_some]
          simpa [hgl, hgr] using hwalk
      · exact ⟨a, by simp [Trie.walk, hn, hgl, hgr], .top, k, n, v, l, r, rfl, hkey, hnN, hl, hr,
          fun e he _ _ => he⟩

/-- `extendMask` adds the next bit. -/
theorem extendMask_maskOf (hw : 0 < w) : Trie.extendMask (maskOf w n) = maskOf w (n + 1) := by
  apply BitVec.eq_of_getMsbD_eq
  intro i hi
  have hone : (1#w <<< (w - 1)).getMsbD i = decide (i = 0) := by
    by_cases h0 : i = 0
    · subst h0
      simp [hw]
    · have : ¬ i + (w - 1) = w - 1 := by omega
      simp [h0]
  unfold Trie.extendMask
  rw [BitVec.getMsbD_or, BitVec.getMsbD_or, hone, BitVec.getMsbD_ushiftRight, getMsbD_maskOf,
    getMsbD_maskOf, getMsbD_maskOf]
  by_cases h0 : i = 0
  · simp [h0, hw]
  · by_cases hn : i < n
    · have h1 : i < n + 1 := by omega
      simp [hi, hn, h1]
    · by_cases h1 : i < n + 1
      · have h2 : i - 1 < n := by omega
        have h3 : i - 1 < w := by omega
        have h4 : ¬ i < 1 := by omega
        simp [hi, h1, h2, h3, h4]
      · have h2 : ¬ i - 1 < n := by omega
        simp [hn, h0, h1, h2]

/-- Down a leg: the longest common prefix, at most the new width. -/
theorem legMask_spec (hw : 0 < w) {key kidKey : BitVec w} (hnN : n ≤ N) (hN : N ≤ w)
    (hag : Agree n key kidKey) (hf : N - n < fuel) :
    ∃ c, Trie.legMask key kidKey (maskOf w N) fuel (maskOf w n) = some (maskOf w c) ∧ n ≤ c ∧
      c ≤ N ∧ Agree c key kidKey ∧ (c < N → key.getMsbD c ≠ kidKey.getMsbD c) := by
  induction fuel generalizing n with
  | zero => omega
  | succ fuel ih =>
    unfold Trie.legMask
    rw [extendMask_maskOf hw]
    by_cases hmore : Agree (n + 1) key kidKey ∧ n < N
    · have hstep : ¬ (key &&& maskOf w (n + 1) ≠ kidKey &&& maskOf w (n + 1) ∨
          maskOf w n = maskOf w N) := by
        rintro (h | h)
        · exact h (and_maskOf_eq_iff.mpr hmore.1)
        · have := maskOf_inj (by omega) hN h
          omega
      obtain ⟨c, hc, hnc, hcN, hagc, hlast⟩ := ih hmore.2 hmore.1 (by omega)
      rw [if_neg hstep]
      exact ⟨c, hc, by omega, hcN, hagc, hlast⟩
    · have hstop : key &&& maskOf w (n + 1) ≠ kidKey &&& maskOf w (n + 1) ∨
          maskOf w n = maskOf w N := by
        by_cases heq : n = N
        · exact .inr (by rw [heq])
        · exact .inl fun h => hmore ⟨and_maskOf_eq_iff.mp h, by omega⟩
      refine ⟨n, by rw [if_pos hstop], Nat.le_refl n, hnN, hag, fun hlt hbit => ?_⟩
      exact hmore ⟨agree_succ_iff.mpr ⟨hag, hbit⟩, hlt⟩

/-! ## Insertion -/

@[simp] theorem modify_some {t : Trie w V} {n : Node w V} (h : t.heap a = some n)
    (f : Node w V → Node w V) :
    t.modify a f = some ⟨update t.heap a (some (f n)), t.fresh⟩ := by
  simp [Trie.modify, h]

/-- A change to the memory of one subtree: no older node outside it is touched, and the nodes it has
    afterwards were its own or are new. -/
structure Change (t t' : Trie w V) (old new : Tree w V) : Prop where
  frame : ∀ x, x < t.fresh → x ∉ old.addrs → t'.heap x = t.heap x
  grow : t.fresh ≤ t'.fresh
  own : ∀ x ∈ new.addrs, x ∈ old.addrs ∨ t.fresh ≤ x ∧ x < t'.fresh
  nodup : new.addrs.Nodup

/-- The memory draws the tree, whose nodes are different and old. -/
structure Stands (t : Trie w V) (p : Option Nat) (s : Tree w V) : Prop where
  draws : Draws t.heap p s
  wf : WellFormed s
  nodup : s.addrs.Nodup
  fresh : ∀ x ∈ s.addrs, x < t.fresh

/-- The tree takes the way of the key at bit `n`. -/
def Turns (key : BitVec w) (n : Nat) : Tree w V → Prop
  | .nil => True
  | .node _ k _ _ _ _ => k.getMsbD n = key.getMsbD n

section Kid

variable {t t' : Trie w V} {p : Option Nat} {b : Nat} {k : BitVec w} {n : Nat} {v : Option V}
  {i : Bool} {kid kid' sib : Tree w V} {key : BitVec w} {N : Nat} {val : V}

/-- What the addresses of a node with two kids being different and old says of each part. -/
theorem join_apart (hnd : (join b k n v i kid sib).addrs.Nodup) :
    b ∉ kid.addrs ∧ b ∉ sib.addrs ∧ kid.addrs.Nodup ∧ sib.addrs.Nodup ∧
      ∀ x ∈ kid.addrs, x ∉ sib.addrs := by
  obtain ⟨hb, hnd'⟩ := nodup_cons.mp ((addrs_join b k n v i kid sib).nodup_iff.mp hnd)
  obtain ⟨hk, hs, hdis⟩ := nodup_append.mp hnd'
  exact ⟨fun h => hb (mem_append_left _ h), fun h => hb (mem_append_right _ h), hk, hs,
    fun x hx hx' => hdis x hx x hx' rfl⟩

theorem mem_addrs_join {x : Nat} :
    x ∈ (join b k n v i kid sib).addrs ↔ x = b ∨ x ∈ kid.addrs ∨ x ∈ sib.addrs := by
  rw [(addrs_join b k n v i kid sib).mem_iff, mem_cons, mem_append]

/-- Giving a node another kid `i`. -/
theorem change_kid (hs : Stands t p (join b k n v i kid sib)) (hb : t'.heap b =
      some ⟨k, maskOf w n, v, p, (if i then sib else kid').ptr, (if i then kid' else sib).ptr⟩)
    (hkid : Draws t'.heap (some b) kid')
    (hown : ∀ x ∈ kid'.addrs, x ∈ kid.addrs ∨ t.fresh ≤ x ∧ x < t'.fresh)
    (hnodup : kid'.addrs.Nodup)
    (hframe : ∀ x, x < t.fresh → x ≠ b → x ∉ kid.addrs → t'.heap x = t.heap x)
    (hgrow : t.fresh ≤ t'.fresh) :
    Draws t'.heap p (join b k n v i kid' sib) ∧
      Change t t' (join b k n v i kid sib) (join b k n v i kid' sib) := by
  obtain ⟨hbk, hbs, _, hsn, hks⟩ := join_apart hs.nodup
  obtain ⟨_, _, hsib⟩ := draws_join.mp hs.draws
  have hold : ∀ x ∈ sib.addrs, x < t.fresh ∧ x ≠ b ∧ x ∉ kid.addrs := fun x hx =>
    ⟨hs.fresh x (mem_addrs_join.mpr (.inr (.inr hx))), fun h => hbs (h ▸ hx), fun h => hks x h hx⟩
  refine ⟨draws_join.mpr ⟨hb, hkid, draws_congr hsib fun x hx => ?_⟩, ?_, hgrow, fun x hx => ?_, ?_⟩
  · obtain ⟨h1, h2, h3⟩ := hold x hx
    exact hframe x h1 h2 h3
  · intro x hx hnot
    rw [mem_addrs_join] at hnot
    exact hframe x hx (fun h => hnot (.inl h)) fun h => hnot (.inr (.inl h))
  · rcases mem_addrs_join.mp hx with rfl | hx | hx
    · exact .inl (mem_addrs_join.mpr (.inl rfl))
    · exact (hown x hx).imp (fun h => mem_addrs_join.mpr (.inr (.inl h))) id
    · exact .inl (mem_addrs_join.mpr (.inr (.inr hx)))
  · refine (addrs_join b k n v i kid' sib).nodup_iff.mpr (nodup_cons.mpr ⟨fun h => ?_, ?_⟩)
    · have hbf := hs.fresh b (mem_addrs_join.mpr (.inl rfl))
      rcases mem_append.mp h with h | h
      · rcases hown b h with h | h
        · exact hbk h
        · omega
      · exact hbs h
    · refine nodup_append.mpr ⟨hnodup, hsn, ?_⟩
      rintro x hx y hy rfl
      rcases hown x hx with h | h
      · exact hks x h hy
      · have := (hold x hy).1
        omega

/-- No kid: the new node becomes it. -/
theorem insertKid_nil (hs : Stands t p (join b k n v i .nil sib))
    (hkm : key &&& maskOf w N = key) (val : V) :
    ∃ t', t.insertKid b i key (maskOf w N) val = some (some (t', t.fresh)) ∧
      Draws t'.heap p (join b k n v i (.node t.fresh key N (some val) .nil .nil) sib) ∧
      Change t t' (join b k n v i .nil sib)
        (join b k n v i (.node t.fresh key N (some val) .nil .nil) sib) := by
  obtain ⟨hb, _, _⟩ := draws_join.mp hs.draws
  have hbne : b ≠ t.fresh := by
    have := hs.fresh b (mem_addrs_join.mpr (.inl rfl))
    omega
  let leaf : Node w V := .make key (maskOf w N) (some val) (some b)
  let heap₁ := update t.heap t.fresh (some leaf)
  let bnode : Node w V := Node.setKid ⟨k, maskOf w n, v, p, (if i then sib else .nil).ptr,
    (if i then .nil else sib).ptr⟩ i (some t.fresh)
  have hb₁ : heap₁ b = some ⟨k, maskOf w n, v, p, (if i then sib else .nil).ptr,
      (if i then .nil else sib).ptr⟩ := by
    show update t.heap t.fresh (some leaf) b = _
    rw [update_of_ne hbne, hb]
  have hrun : t.insertKid b i key (maskOf w N) val =
      some (some (⟨update heap₁ b (some bnode), t.fresh + 1⟩, t.fresh)) := by
    have hkid : Node.kid ⟨k, maskOf w n, v, p, (if i then sib else .nil).ptr,
        (if i then .nil else sib).ptr⟩ i = none := by
      cases i <;> rfl
    simp only [Trie.insertKid, hb, bind_eq_bind, bind_some, hkid, Trie.alloc]
    rw [modify_some (t := ⟨heap₁, t.fresh + 1⟩) hb₁]
    rfl
  refine ⟨_, hrun, change_kid hs ?_ ⟨?_, trivial, trivial⟩ ?_ (by simp [Tree.addrs]) ?_
    (Nat.le_succ _)⟩
  · show update heap₁ b (some bnode) b = _
    rw [update_self]
    cases i <;> rfl
  · show update heap₁ b (some bnode) t.fresh = _
    rw [update_of_ne hbne.symm]
    show update t.heap t.fresh (some leaf) t.fresh = _
    rw [update_self]
    show some (Node.mk (key &&& maskOf w N) (maskOf w N) (some val) (some b) none none) = _
    rw [hkm]
    rfl
  · intro x hx
    obtain rfl : x = t.fresh := by simpa [Tree.addrs] using hx
    exact .inr ⟨Nat.le_refl _, Nat.lt_succ_self _⟩
  · intro x hx hxb _
    show update heap₁ b (some bnode) x = t.heap x
    rw [update_of_ne hxb]
    show update t.heap t.fresh (some leaf) x = t.heap x
    rw [update_of_ne (by omega)]

/-- A subtree under another parent. -/
theorem draws_reparent {heap heap' : Nat → Option (Node w V)} {q q' : Option Nat} {c : Nat}
    {k₁ : BitVec w} {n₁ : Nat} {v₁ : Option V} {l r : Tree w V}
    (hd : Draws heap q (.node c k₁ n₁ v₁ l r))
    (hc : heap' c = some ⟨k₁, maskOf w n₁, v₁, q', l.ptr, r.ptr⟩)
    (hnd : (Tree.node c k₁ n₁ v₁ l r).addrs.Nodup)
    (hsame : ∀ x ∈ (Tree.node c k₁ n₁ v₁ l r).addrs, x ≠ c → heap' x = heap x) :
    Draws heap' q' (.node c k₁ n₁ v₁ l r) := by
  obtain ⟨hcn, _⟩ := nodup_cons.mp hnd
  obtain ⟨_, hl, hr⟩ := hd
  have hne : ∀ x ∈ l.addrs ++ r.addrs, heap' x = heap x := fun x hx =>
    hsame x (mem_cons_of_mem c hx) fun h => hcn (h ▸ hx)
  exact ⟨hc, draws_congr hl fun x hx => hne x (mem_append_left _ hx),
    draws_congr hr fun x hx => hne x (mem_append_right _ hx)⟩

/-- The memory once a new node has been put between a node and its kid `i`. -/
def spliced (t : Trie w V) (b c : Nat) (bn cn above : Node w V) (i : Bool) :
    Nat → Option (Node w V) :=
  update (update (update t.heap c
    (some { cn with parent := some t.fresh })) t.fresh (some (above.setKid false (some c))))
    b (some (bn.setKid i (some t.fresh)))

/-- The iteration when the leg and the key part past the node: a new node at the common prefix,
    which takes the value or gets a second kid for it. -/
theorem insertKid_splice {bn cn : Node w V} {c : Nat} (hb : t.heap b = some bn)
    (hc : t.heap c = some cn) (hkid : bn.kid i = some c) (hbf : b < t.fresh) (hcf : c < t.fresh)
    (hbc : b ≠ c) {key new_mask cur_mask : BitVec w}
    (hleg : Trie.legMask key cn.key new_mask (w + 1) bn.mask = some cur_mask)
    (hcur : cur_mask ≠ bn.mask) (val : V) {above : Node w V}
    (habove : above = .make key cur_mask none (some b)) :
    t.insertKid b i key new_mask val = some (some (
      if cur_mask = new_mask then
        (⟨update (spliced t b c bn cn above i) t.fresh
          (some { above.setKid false (some c) with value := some val }), t.fresh + 1⟩, t.fresh)
      else
        (⟨update (update (spliced t b c bn cn above i) (t.fresh + 1)
            (some (.make key new_mask (some val) (some t.fresh)))) t.fresh
          (some ((above.setKid false (some c)).setKid true (some (t.fresh + 1)))), t.fresh + 2⟩,
          t.fresh + 1))) := by
  have hbne : b ≠ t.fresh := by omega
  have hcne : c ≠ t.fresh := by omega
  let h₁ := update t.heap t.fresh (some above)
  let h₂ := update h₁ c (some { cn with parent := some t.fresh })
  let h₃ := update h₂ t.fresh (some (above.setKid false (some c)))
  have e₁ : h₁ c = some cn := by
    show update t.heap t.fresh (some above) c = some cn
    rw [update_of_ne hcne, hc]
  have e₂ : h₂ t.fresh = some above := by
    show update h₁ c _ t.fresh = some above
    rw [update_of_ne hcne.symm]
    exact update_self ..
  have e₃ : h₃ b = some bn := by
    show update h₂ t.fresh _ b = some bn
    rw [update_of_ne hbne]
    show update h₁ c _ b = some bn
    rw [update_of_ne hbc]
    show update t.heap t.fresh (some above) b = some bn
    rw [update_of_ne hbne, hb]
  -- the first write of the new node is overwritten
  have hheap : update h₃ b (some (bn.setKid i (some t.fresh))) =
      spliced t b c bn cn above i := by
    have hswap : h₃ = update (update t.heap c (some { cn with parent := some t.fresh })) t.fresh
          (some (above.setKid false (some c))) := by
      show update (update (update t.heap t.fresh (some above)) c _) t.fresh _ = _
      rw [update_comm hcne.symm, update_idem]
    rw [hswap]
    rfl
  have hnew : spliced t b c bn cn above i t.fresh = some (above.setKid false (some c)) := by
    unfold spliced
    rw [update_of_ne hbne.symm, update_self]
  simp only [Trie.insertKid, hb, bind_eq_bind, bind_some, hkid, hc, hleg]
  rw [if_neg hcur, ← habove]
  simp only [Trie.alloc]
  rw [modify_some (t := ⟨h₁, t.fresh + 1⟩) e₁, bind_some,
    modify_some (t := ⟨h₂, t.fresh + 1⟩) e₂, bind_some,
    modify_some (t := ⟨h₃, t.fresh + 1⟩) e₃, bind_some, hheap]
  by_cases heq : cur_mask = new_mask
  · rw [if_pos heq, if_pos heq, modify_some (t := ⟨spliced t b c bn cn above i, t.fresh + 1⟩) hnew]
    rfl
  · have hnew' : update (spliced t b c bn cn above i) (t.fresh + 1)
        (some (.make key new_mask (some val) (some t.fresh))) t.fresh =
          some (above.setKid false (some c)) := by
      rw [update_of_ne (by omega), hnew]
    rw [if_neg heq, if_neg heq, modify_some (t := ⟨_, t.fresh + 2⟩) hnew']
    rfl

/-- What the splice leaves of the old nodes: the node above points to the new one, the kid has it
    for parent, the others are as they were. -/
structure Above (t t' : Trie w V) (p : Option Nat) (b : Nat) (k : BitVec w) (n : Nat) (v : Option V)
    (i : Bool) (c : Nat) (k₁ : BitVec w) (n₁ : Nat) (v₁ : Option V) (l₁ r₁ sib : Tree w V) :
    Prop where
  node : t'.heap b = some ⟨k, maskOf w n, v, p, if i then sib.ptr else some t.fresh,
    if i then some t.fresh else sib.ptr⟩
  kid : t'.heap c = some ⟨k₁, maskOf w n₁, v₁, some t.fresh, l₁.ptr, r₁.ptr⟩
  frame : ∀ x, x < t.fresh → x ≠ b → x ≠ c → t'.heap x = t.heap x

variable {c : Nat} {k₁ : BitVec w} {n₁ : Nat} {v₁ : Option V} {l₁ r₁ : Tree w V}

theorem kid_join (t : Tree w V) :
    Node.kid ⟨k, maskOf w n, v, p, (if i then sib else t).ptr, (if i then t else sib).ptr⟩ i =
      t.ptr := by
  cases i <;> rfl

theorem above_of_spliced (hbf : b < t.fresh) (hcf : c < t.fresh) (hbc : b ≠ c)
    (above : Node w V) (hsame : ∀ x, x < t.fresh → t'.heap x =
      spliced t b c ⟨k, maskOf w n, v, p, (if i then sib else .node c k₁ n₁ v₁ l₁ r₁).ptr,
        (if i then .node c k₁ n₁ v₁ l₁ r₁ else sib).ptr⟩
        ⟨k₁, maskOf w n₁, v₁, some b, l₁.ptr, r₁.ptr⟩ above i x) :
    Above t t' p b k n v i c k₁ n₁ v₁ l₁ r₁ sib := by
  constructor
  · rw [hsame b hbf, spliced, update_self]
    cases i <;> rfl
  · rw [hsame c hcf, spliced, update_of_ne hbc.symm, update_of_ne (by omega), update_self]
  · intro x hx hxb hxc
    rw [hsame x hx, spliced, update_of_ne hxb, update_of_ne (by omega), update_of_ne hxc]

/-- The kid, under its new parent. -/
theorem Above.moved (ha : Above t t' p b k n v i c k₁ n₁ v₁ l₁ r₁ sib)
    (hs : Stands t p (join b k n v i (.node c k₁ n₁ v₁ l₁ r₁) sib)) :
    Draws t'.heap (some t.fresh) (.node c k₁ n₁ v₁ l₁ r₁) := by
  obtain ⟨hbk, _, hkn, _⟩ := join_apart hs.nodup
  refine draws_reparent (draws_join.mp hs.draws).2.1 ha.kid hkn fun x hx hxc => ?_
  have hxb : x ≠ b := by
    rintro rfl
    exact hbk hx
  exact ha.frame x (hs.fresh x (mem_addrs_join.mpr (.inr (.inl hx)))) hxb hxc

/-- Any tree at the new address may be the kid. -/
theorem Above.put (ha : Above t t' p b k n v i c k₁ n₁ v₁ l₁ r₁ sib)
    (hs : Stands t p (join b k n v i (.node c k₁ n₁ v₁ l₁ r₁) sib))
    (hptr : kid'.ptr = some t.fresh) (hdraw : Draws t'.heap (some b) kid')
    (hown : ∀ x ∈ kid'.addrs, x ∈ (Tree.node c k₁ n₁ v₁ l₁ r₁).addrs ∨ t.fresh ≤ x ∧ x < t'.fresh)
    (hnodup : kid'.addrs.Nodup) (hgrow : t.fresh ≤ t'.fresh) :
    Draws t'.heap p (join b k n v i kid' sib) ∧
      Change t t' (join b k n v i (.node c k₁ n₁ v₁ l₁ r₁) sib) (join b k n v i kid' sib) := by
  refine change_kid hs ?_ hdraw hown hnodup (fun x hx hxb hxk => ?_) hgrow
  · rw [ha.node]
    cases i
    · show _ = some (Node.mk k _ v p kid'.ptr sib.ptr)
      rw [hptr]
      rfl
    · show _ = some (Node.mk k _ v p sib.ptr kid'.ptr)
      rw [hptr]
      rfl
  · have hxc : x ≠ c := by
      rintro rfl
      exact hxk mem_cons_self
    exact ha.frame x hx hxb hxc

/-- What an iteration that inserts leaves for kid `i`. -/
structure Inserted (key : BitVec w) (N : Nat) (val : V) (k : BitVec w) (n : Nat) (h : Nat)
    (kid kid' : Tree w V) : Prop where
  wf : WellFormed kid'
  ne_nil : kid' ≠ .nil
  below : Below k n kid'
  turns : Turns key n kid
  turns' : Turns key n kid'
  entries : kid'.entries.Perm (⟨h, key, N, val⟩ :: kid.entries)

theorem wellFormed_leaf (hkm : key &&& maskOf w N = key) (hN : N ≤ w)
    (a : Nat) (val : V) : WellFormed (Tree.node a key N (some val) .nil .nil) :=
  ⟨hN, hkm, trivial, trivial, trivial, trivial, trivial⟩

/-- The new node takes the value: it stands where the key ends, above the kid. -/
theorem insertKid_here (ha : Above t t' p b k n v i c k₁ n₁ v₁ l₁ r₁ sib)
    (hs : Stands t p (join b k n v i (.node c k₁ n₁ v₁ l₁ r₁) sib))
    (hkey : Agree n key k) (hkm : key &&& maskOf w N = key) (hnN : n < N) (hN : N ≤ w)
    (hagm : Agree N key k₁) (hmn : N < n₁)
    (hnew : t'.heap t.fresh = some ⟨key, maskOf w N, some val, some b, some c, none⟩)
    (hgrow : t'.fresh = t.fresh + 1) :
    ∃ kid', Draws t'.heap p (join b k n v i kid' sib) ∧
      Change t t' (join b k n v i (.node c k₁ n₁ v₁ l₁ r₁) sib) (join b k n v i kid' sib) ∧
      Inserted key N val k n t.fresh (.node c k₁ n₁ v₁ l₁ r₁) kid' := by
  obtain ⟨_, _, hkn, _⟩ := join_apart hs.nodup
  obtain ⟨_, _, ⟨_, _, hfull₁⟩, _, _, hwk, _⟩ := wellFormed_join.mp hs.wf
  have hfk : t.fresh ∉ (Tree.node c k₁ n₁ v₁ l₁ r₁).addrs := by
    intro h
    have := hs.fresh _ (mem_addrs_join.mpr (.inr (.inl h)))
    omega
  let kid' : Tree w V := .node t.fresh key N (some val) (.node c k₁ n₁ v₁ l₁ r₁) .nil
  have haddrs : kid'.addrs = t.fresh :: (Tree.node c k₁ n₁ v₁ l₁ r₁).addrs := by
    show t.fresh :: ((Tree.node c k₁ n₁ v₁ l₁ r₁).addrs ++ []) = _
    rw [append_nil]
  have hown : ∀ x ∈ kid'.addrs,
      x ∈ (Tree.node c k₁ n₁ v₁ l₁ r₁).addrs ∨ t.fresh ≤ x ∧ x < t'.fresh := by
    intro x hx
    rw [haddrs] at hx
    rcases mem_cons.mp hx with rfl | hx
    · exact .inr ⟨Nat.le_refl _, by omega⟩
    · exact .inl hx
  have hnodup : kid'.addrs.Nodup := by
    rw [haddrs]
    exact nodup_cons.mpr ⟨hfk, hkn⟩
  have hptr : kid'.ptr = some t.fresh := rfl
  obtain ⟨hdraw, hchange⟩ := ha.put hs hptr ⟨hnew, ha.moved hs, trivial⟩ hown hnodup (by omega)
  refine ⟨kid', hdraw, hchange, ?_, nofun, ⟨hnN, hkey, nofun⟩, (hagm n hnN).symm, rfl, ?_⟩
  · exact ⟨hN, hkm, ⟨hmn, hagm.symm, hfull₁⟩, trivial, trivial, hwk, trivial⟩
  · show ([(⟨t.fresh, key, N, val⟩ : Entry w V)] ++ (_ ++ [])).Perm _
    rw [append_nil]
    exact Perm.refl _

/-- The new node is internal: the kid stands to one side of it, the value to the other. -/
theorem insertKid_path (ha : Above t t' p b k n v i c k₁ n₁ v₁ l₁ r₁ sib)
    (hs : Stands t p (join b k n v i (.node c k₁ n₁ v₁ l₁ r₁) sib))
    {m : Nat} (hkey : Agree n key k) (hkm : key &&& maskOf w N = key) (hnm : n < m) (hmN : m < N)
    (hN : N ≤ w) (hagm : Agree m key k₁) (hmn : m < n₁) (hbit : key.getMsbD m ≠ k₁.getMsbD m)
    (hnew : t'.heap t.fresh =
      some ⟨key &&& maskOf w m, maskOf w m, none, some b, some c, some (t.fresh + 1)⟩)
    (hleaf : t'.heap (t.fresh + 1) = some ⟨key, maskOf w N, some val, some t.fresh, none, none⟩)
    (hgrow : t'.fresh = t.fresh + 2) :
    ∃ kid', Draws t'.heap p (join b k n v i kid' sib) ∧
      Change t t' (join b k n v i (.node c k₁ n₁ v₁ l₁ r₁) sib) (join b k n v i kid' sib) ∧
      Inserted key N val k n (t.fresh + 1) (.node c k₁ n₁ v₁ l₁ r₁) kid' := by
  obtain ⟨_, _, hkn, _⟩ := join_apart hs.nodup
  obtain ⟨_, _, ⟨_, _, hfull₁⟩, _, _, hwk, _⟩ := wellFormed_join.mp hs.wf
  have hkf : ∀ x ∈ (Tree.node c k₁ n₁ v₁ l₁ r₁).addrs, x < t.fresh := fun x hx =>
    hs.fresh x (mem_addrs_join.mpr (.inr (.inl hx)))
  let leaf : Tree w V := .node (t.fresh + 1) key N (some val) .nil .nil
  let kid' : Tree w V := .node t.fresh (key &&& maskOf w m) m none (.node c k₁ n₁ v₁ l₁ r₁) leaf
  have hagk : Agree m (key &&& maskOf w m) key := agree_and_maskOf m key
  have haddrs : kid'.addrs = t.fresh :: ((Tree.node c k₁ n₁ v₁ l₁ r₁).addrs ++ [t.fresh + 1]) := rfl
  have hown : ∀ x ∈ kid'.addrs,
      x ∈ (Tree.node c k₁ n₁ v₁ l₁ r₁).addrs ∨ t.fresh ≤ x ∧ x < t'.fresh := by
    intro x hx
    rcases mem_cons.mp hx with rfl | hx
    · exact .inr ⟨Nat.le_refl _, by omega⟩
    · rcases mem_append.mp hx with hx | hx
      · exact .inl hx
      · obtain rfl := mem_singleton.mp hx
        exact .inr ⟨Nat.le_succ _, by omega⟩
  have hnodup : kid'.addrs.Nodup := by
    refine nodup_cons.mpr ⟨fun h => ?_, nodup_append.mpr ⟨hkn, nodup_singleton _, ?_⟩⟩
    · rcases mem_append.mp h with h | h
      · exact Nat.lt_irrefl _ (hkf _ h)
      · have := mem_singleton.mp h
        omega
    · rintro x hx y hy rfl
      obtain rfl := mem_singleton.mp hy
      have := hkf _ hx
      omega
  have hptr : kid'.ptr = some t.fresh := rfl
  obtain ⟨hdraw, hchange⟩ := ha.put hs hptr ⟨hnew, ha.moved hs, hleaf, trivial, trivial⟩ hown
    hnodup (by omega)
  refine ⟨kid', hdraw, hchange, ?_, nofun, ?_, (hagm n hnm).symm, hagk n hnm, ?_⟩
  · refine ⟨by omega, by rw [BitVec.and_assoc, BitVec.and_self],
      ⟨hmn, hagm.symm.trans hagk.symm, hfull₁⟩, ⟨hmN, hagk.symm, nofun⟩, fun h => hbit h.symm, hwk,
      wellFormed_leaf hkm hN _ val⟩
  · exact ⟨hnm, (hagk.mono (Nat.le_of_lt hnm)).trans hkey, fun _ => ⟨nofun, nofun⟩⟩
  · show ([] ++ (_ ++ ([(⟨t.fresh + 1, key, N, val⟩ : Entry w V)] ++ []))).Perm _
    rw [nil_append, append_nil]
    exact perm_append_comm

/-- One iteration over a kid that the new node does not go after: it passes, when the kid takes the
    other way at the next bit, or it inserts. -/
theorem insertKid_spec (hw : 0 < w) (hs : Stands t p (join b k n v i kid sib))
    (hkey : Agree n key k) (hkm : key &&& maskOf w N = key) (hnN : n < N) (hN : N ≤ w)
    (hno : ¬ Beyond key N kid) (val : V) :
    (¬ Turns key n kid ∧ t.insertKid b i key (maskOf w N) val = some none) ∨
    ∃ t' h, t.insertKid b i key (maskOf w N) val = some (some (t', h)) ∧ t.fresh ≤ h ∧
      ∃ kid', Draws t'.heap p (join b k n v i kid' sib) ∧
        Change t t' (join b k n v i kid sib) (join b k n v i kid' sib) ∧
        Inserted key N val k n h kid kid' := by
  obtain ⟨hb, hdk, _⟩ := draws_join.mp hs.draws
  obtain ⟨hbk, _⟩ := join_apart hs.nodup
  have hbf : b < t.fresh := hs.fresh b (mem_addrs_join.mpr (.inl rfl))
  obtain ⟨_, _, hbel, _⟩ := wellFormed_join.mp hs.wf
  cases kid with
  | nil =>
    obtain ⟨t', hrun, hdraw, hchange⟩ := insertKid_nil hs hkm val
    exact .inr ⟨t', t.fresh, hrun, Nat.le_refl _, _, hdraw, hchange, wellFormed_leaf hkm hN _ val,
      nofun, ⟨hnN, hkey, nofun⟩, trivial, rfl, Perm.refl _⟩
  | node c k₁ n₁ v₁ l₁ r₁ =>
    obtain ⟨hlt, hag₁, _⟩ := hbel
    have hc := hdk.1
    obtain ⟨m, hleg, hnm, hmN, hagm, hlast⟩ := legMask_spec hw (Nat.le_of_lt hnN) hN
      (hkey.trans hag₁.symm) (show N - n < w + 1 by omega)
    by_cases hpass : m = n
    · -- not the right leg to go down at all
      subst hpass
      refine .inl ⟨fun hturn => hlast hnN hturn.symm, ?_⟩
      simp only [Trie.insertKid, hb, bind_eq_bind, bind_some, kid_join, ptr_node, hc,
        hleg]
      exact if_pos trivial
    · have hnm' : n < m := by omega
      -- the common prefix is shorter than the kid's, or the new node would go after it
      have hmn : m < n₁ := by
        by_contra hge
        exact hno ⟨hagm.mono (by omega), by omega⟩
      have hcf : c < t.fresh := hs.fresh c (mem_addrs_join.mpr (.inr (.inl mem_cons_self)))
      have hbc : b ≠ c := by
        rintro rfl
        exact hbk mem_cons_self
      have hcur : maskOf w m ≠ maskOf w n := fun h => hpass (maskOf_inj (by omega) (by omega) h)
      have hrun := insertKid_splice hb hc (kid_join _) hbf hcf hbc hleg hcur val rfl
      by_cases hend : m = N
      · -- we ran out of bits, the value goes right here
        subst hend
        rw [if_pos rfl] at hrun
        refine .inr ⟨_, _, hrun, Nat.le_refl _, insertKid_here (above_of_spliced hbf hcf hbc _
          fun x hx => update_of_ne (by omega) ..) hs hkey hkm hnN hN hagm hmn ?_ rfl⟩
        show update _ t.fresh _ t.fresh = _
        rw [update_self, Node.make, hkm]
        rfl
      · -- still more bits to deal with, so a new node for that path
        have hmN' : m < N := by omega
        have hneq : maskOf w m ≠ maskOf w N := fun h => hend (maskOf_inj (by omega) hN h)
        rw [if_neg hneq] at hrun
        refine .inr ⟨_, _, hrun, Nat.le_succ _, insertKid_path (above_of_spliced hbf hcf hbc
          (.make key (maskOf w m) none (some b)) fun x hx => ?_) hs hkey hkm hnm' hmN' hN hagm
          hmn (hlast hmN') ?_ ?_ rfl⟩
        · show update (update _ (t.fresh + 1) _) t.fresh _ x = _
          rw [update_of_ne (by omega), update_of_ne (by omega)]
        · show update _ t.fresh _ t.fresh = _
          rw [update_self]
          rfl
        · show update (update _ (t.fresh + 1) _) t.fresh _ (t.fresh + 1) = _
          rw [update_of_ne (by omega), update_self, Node.make, hkm]

end Kid

/-- What `insert` leaves below the node the walk ended on. -/
structure Grown (t t' : Trie w V) (p : Option Nat) (h : Nat) (key : BitVec w) (N : Nat) (val : V)
    (old new : Tree w V) : Prop where
  draws : Draws t'.heap p new
  change : Change t t' old new
  site : new.site = old.site
  wf : WellFormed new
  fits : Fits old new
  entries : new.entries.Perm (⟨h, key, N, val⟩ :: old.entries)

/-- The new kid parts from its sibling as the old one did. -/
theorem Inserted.grown {t t' : Trie w V} {p : Option Nat} {h : Nat} {key : BitVec w} {N : Nat}
    {val : V}
    {b : Nat} {k : BitVec w} {n : Nat} {v : Option V} {i : Bool} {kid kid' sib : Tree w V}
    (hi : Inserted key N val k n h kid kid') (hwf : WellFormed (join b k n v i kid sib))
    (hsib : i = true → ¬ Turns key n sib) (hd : Draws t'.heap p (join b k n v i kid' sib))
    (hc : Change t t' (join b k n v i kid sib) (join b k n v i kid' sib)) :
    Grown t t' p h key N val (join b k n v i kid sib) (join b k n v i kid' sib) := by
  obtain ⟨hw, hk, _, hbs, hpart, _, hws⟩ := wellFormed_join.mp hwf
  have hturns := hi.turns
  have hturns' := hi.turns'
  refine ⟨hd, hc, by rw [site_join, site_join], ?_, fits_join hi.ne_nil, ?_⟩
  · refine wellFormed_join.mpr ⟨hw, hk, hi.below, hbs, ?_, hi.wf, hws⟩
    have hne := hi.ne_nil
    cases kid' with
    | nil => exact absurd rfl hne
    | node a₁ k₁ n₁ v₁ l₁ r₁ =>
      cases i with
      | true =>
        cases sib with
        | nil => exact absurd trivial (hsib rfl)
        | node a₂ k₂ n₂ v₂ l₂ r₂ => exact fun heq => hsib rfl (heq.trans hturns')
      | false =>
        cases sib with
        | nil => trivial
        | node a₂ k₂ n₂ v₂ l₂ r₂ =>
          cases kid with
          | nil => exact absurd hpart id
          | node a₃ k₃ n₃ v₃ l₃ r₃ =>
            exact fun heq => hpart (hturns.trans (hturns'.symm.trans heq))
  · refine (entries_join b k n v i kid' sib).trans ?_
    refine Perm.trans ?_ ((entries_join b k n v i kid sib).cons _).symm
    refine ((hi.entries.append_right sib.entries).append_left _).trans ?_
    exact perm_middle

/-- At the node the walk ended on, `insert` fails on the value that is there or adds the new one. -/
theorem insertAt_spec (hw : 0 < w) {t : Trie w V} {p : Option Nat} {b : Nat} {k : BitVec w}
    {n : Nat} {v : Option V} {l r : Tree w V} (hs : Stands t p (.node b k n v l r))
    {key : BitVec w} {N : Nat} (hkey : Agree n key k) (hkm : key &&& maskOf w N = key)
    (hnN : n ≤ N) (hN : N ≤ w)
    (hl : ¬ Beyond key N l) (hr : ¬ Beyond key N r) (val : V) :
    (n = N ∧ k = key ∧ v.isSome ∧ t.insertAt b key (maskOf w N) val = none) ∨
    (n = N → v = none) ∧ ∃ t' h s', t.insertAt b key (maskOf w N) val = some (t', h) ∧
      Grown t t' p h key N val (.node b k n v l r) s' := by
  have hb := hs.draws.1
  obtain ⟨hnw, hk, hbl, hbr, hpart, hwl, hwr⟩ := id hs.wf
  by_cases heq : n = N
  · subst heq
    have hkk : k = key := by rw [← hk, ← hkm, and_maskOf_eq_iff]; exact hkey.symm
    cases v with
    | some x =>
      refine .inl ⟨rfl, hkk, rfl, ?_⟩
      simp [Trie.insertAt, hb]
    | none =>
      subst hkk
      refine .inr ⟨fun _ => rfl, ?_⟩
      let s' : Tree w V := .node b k n (some val) l r
      let t' : Trie w V := ⟨update t.heap b
        (some ⟨k, maskOf w n, some val, p, l.ptr, r.ptr⟩), t.fresh⟩
      have hrun : t.insertAt b k (maskOf w n) val = some (t', b) := by
        simp [Trie.insertAt, hb, t']
      have hsame : ∀ x ∈ l.addrs ++ r.addrs, t'.heap x = t.heap x := by
        intro x hx
        refine update_of_ne ?_ ..
        rintro rfl
        exact (nodup_cons.mp hs.nodup).1 hx
      refine ⟨t', b, s', hrun, ⟨update_self .., ?_, ?_⟩, ⟨?_, Nat.le_refl _, ?_, hs.nodup⟩,
        rfl, hs.wf, ⟨Nat.le_refl n, agree_refl n k, nofun⟩, Perm.refl _⟩
      · exact draws_congr hs.draws.2.1 fun x hx => hsame x (mem_append_left _ hx)
      · exact draws_congr hs.draws.2.2 fun x hx => hsame x (mem_append_right _ hx)
      · intro x _ hx
        refine update_of_ne ?_ ..
        rintro rfl
        exact hx mem_cons_self
      · exact fun x hx => .inl hx
  · refine .inr ⟨fun h => absurd h heq, ?_⟩
    have hmask : maskOf w n ≠ maskOf w N := fun h => heq (maskOf_inj hnw hN h)
    have hlt : n < N := by omega
    have hs₀ : Stands t p (join b k n v false l r) := hs
    have hs₁ : Stands t p (join b k n v true r l) := hs
    rcases insertKid_spec hw hs₀ hkey hkm hlt hN hl val with
      ⟨hturn, hpass⟩ | ⟨t', h, hrun, hle, kid', hdraw, hchange, hins⟩
    · rcases insertKid_spec hw hs₁ hkey hkm hlt hN hr val with
        ⟨hturn', _⟩ | ⟨t', h, hrun, hle, kid', hdraw, hchange, hins⟩
      · -- the two kids part at the bit, so the key takes the way of one of them
        exfalso
        cases l with
        | nil => exact hturn trivial
        | node a₁ k₁ n₁ v₁ l₁ r₁ =>
          cases r with
          | nil => exact hturn' trivial
          | node a₂ k₂ n₂ v₂ l₂ r₂ =>
            rcases agree_or_of_ne (c := key) hpart with h | h
            · exact hturn h.symm
            · exact hturn' h.symm
      · refine ⟨t', h, _, ?_, hins.grown hs₁.wf (fun _ => hturn) hdraw hchange⟩
        simp [Trie.insertAt, hb, hmask, hpass, hrun]
    · refine ⟨t', h, _, ?_, hins.grown hs₀.wf nofun hdraw hchange⟩
      simp [Trie.insertAt, hb, hmask, hrun]

end Gem5Dvr.PrefixTrie
