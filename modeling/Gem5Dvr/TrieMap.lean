/-
  The trie is an exact prefix map (`base/trie.hh`).

    1. Removal: a node with at most one kid is bypassed (`remove_once`), and its parent with it when
       that is left with one kid and no value (`remove_twice`).
    2. What the memory holds between two calls (`Holds`), and what each call makes of it.
    3. Runs, against the list of what has been inserted and not removed (`trie_is_prefix_map`).

  The crux is that a collapse stops after one more node: an internal node below the root has two
  kids, so the grandparent of what was removed keeps its second kid or its value.
-/
import Gem5Dvr.TrieInsert

namespace Gem5Dvr.PrefixTrie

open List Function

open BitPrefix PrefixTrie.Tree Ctx

variable {w : Nat} {V : Type}

/-! ## Removal -/

/-- The node with its only kid first. -/
def Tree.settle : Tree w V → Tree w V
  | .node a k n v .nil r => .node a k n v r .nil
  | t => t

theorem settle_site (t : Tree w V) : t.settle.site = t.site := by
  cases t with
  | nil => rfl
  | node a k n v l r => cases l <;> rfl

theorem settle_addrs (t : Tree w V) : t.settle.addrs = t.addrs := by
  cases t with
  | nil => rfl
  | node a k n v l r =>
    cases l with
    | nil => simp [Tree.settle, Tree.addrs]
    | node => rfl

theorem settle_entries (t : Tree w V) : t.settle.entries = t.entries := by
  cases t with
  | nil => rfl
  | node a k n v l r =>
    cases l with
    | nil => simp [Tree.settle, Tree.entries]
    | node => rfl

section Unhook

variable {t : Trie w V} {q : Option Nat} {p : Nat} {kp : BitVec w} {np : Nat} {vp : Option V}
  {i : Bool}
  {sib : Tree w V} {a : Nat} {k : BitVec w} {n : Nat} {v : Option V} {l : Tree w V} {c : Ctx w V}

/-- Once its kid has the other parent, a node drops out of the tree. -/
theorem draws_bypass {heap heap' : Nat → Option (Node w V)}
    (hd : Draws heap q (join p kp np vp i (.node a k n v l .nil) sib))
    (hnd : (join p kp np vp i (.node a k n v l .nil) sib).addrs.Nodup)
    (hp : heap' p = some ⟨kp, maskOf w np, vp, q, (if i then sib else l).ptr,
      (if i then l else sib).ptr⟩)
    (hl : Draws heap' (some p) l) (hsame : ∀ x, x ≠ p → x ∉ l.addrs → heap' x = heap x) :
    Draws heap' q (join p kp np vp i l sib) := by
  obtain ⟨_, _, hds⟩ := draws_join.mp hd
  obtain ⟨_, hps, _, _, hks⟩ := join_apart hnd
  refine draws_join.mpr ⟨hp, hl, draws_congr hds fun x hx => hsame x ?_ fun h => ?_⟩
  · rintro rfl
    exact hps hx
  · exact hks x (mem_cons_of_mem a (mem_append_left _ h)) hx

/-- The first step of the bypass: the kid's parent is fixed up. -/
theorem bypass_kid (hd : Draws t.heap (some a) l) (hln : l.addrs.Nodup) :
    ∃ t₁ : Trie w V, t.bypass a p l.ptr = ((t₁.heap p).bind fun n =>
        if n.kids0 = some a then t₁.modify p (·.setKid false l.ptr)
        else if n.kids1 = some a then t₁.modify p (·.setKid true l.ptr) else none) ∧
      t₁.fresh = t.fresh ∧ Draws t₁.heap (some p) l ∧ ∀ x, x ∉ l.addrs → t₁.heap x = t.heap x := by
  cases l with
  | nil => exact ⟨t, rfl, rfl, trivial, fun x _ => rfl⟩
  | node b k' n' v' l' r' =>
    let t₁ : Trie w V := ⟨update t.heap b
      (some ⟨k', maskOf w n', v', some p, l'.ptr, r'.ptr⟩), t.fresh⟩
    refine ⟨t₁, ?_, rfl, draws_reparent hd (update_self ..) hln
      fun x _ hxb => update_of_ne hxb .., fun x hx => update_of_ne ?_ ..⟩
    · simp only [Trie.bypass, ptr_node, modify_some hd.1, Option.bind_eq_bind, Option.bind_some]
      rfl
    · rintro rfl
      exact hx mem_cons_self

theorem bypass_spec (hd : Draws t.heap q (join p kp np vp i (.node a k n v l .nil) sib))
    (hnd : (join p kp np vp i (.node a k n v l .nil) sib).addrs.Nodup) :
    ∃ t', t.bypass a p l.ptr = some t' ∧ t'.fresh = t.fresh ∧
      Draws t'.heap q (join p kp np vp i l sib) ∧
      ∀ x, x ≠ p → x ∉ l.addrs → t'.heap x = t.heap x := by
  obtain ⟨hp, ⟨ha, hdl, _⟩, hds⟩ := draws_join.mp hd
  obtain ⟨hpk, hps, hkn, _, hks⟩ := join_apart hnd
  have hpl : p ∉ l.addrs := fun h => hpk (mem_cons_of_mem a (mem_append_left _ h))
  have hln : l.addrs.Nodup := (nodup_append.mp (nodup_cons.mp hkn).2).1
  obtain ⟨t₁, hrun₁, hfresh₁, hdl₁, hsame₁⟩ := bypass_kid (t := t) (p := p) hdl hln
  have hp₁ : t₁.heap p = t.heap p := hsame₁ p hpl
  -- the kid that the node was
  have hother : i = true → sib.ptr ≠ some a := by
    intro _ h
    refine hks a mem_cons_self ?_
    cases sib with
    | nil => exact nomatch h
    | node b k' n' v' l' r' =>
      obtain rfl := Option.some.inj h
      exact mem_cons_self
  refine ⟨⟨update t₁.heap p (some (Node.setKid ⟨kp, maskOf w np, vp, q,
    (if i then sib else .node a k n v l .nil).ptr, (if i then .node a k n v l .nil else sib).ptr⟩ i
    l.ptr)), t₁.fresh⟩, ?_, hfresh₁, ?_, ?_⟩
  · rw [hrun₁, hp₁, hp, Option.bind_some]
    cases i with
    | false =>
      simp only [Bool.false_eq_true, if_false, ptr_node, if_true]
      exact modify_some (hp₁.trans hp) _
    | true =>
      simp only [if_true, ptr_node]
      rw [if_neg (hother rfl)]
      exact modify_some (hp₁.trans hp) _
  · refine draws_bypass hd hnd ?_ (draws_congr hdl₁ fun x hx => ?_) fun x hxp hxl => ?_
    · refine (update_self ..).trans ?_
      cases i <;> rfl
    · refine update_of_ne ?_ ..
      rintro rfl
      exact hpl hx
    · exact (update_of_ne hxp ..).trans (hsame₁ x hxl)
  · exact fun x hxp hxl => (update_of_ne hxp ..).trans (hsame₁ x hxl)

theorem normalize_spec {r : Tree w V} (hd : Draws t.heap q (.node p kp np vp l r))
    (hnd : (Tree.node p kp np vp l r).addrs.Nodup) :
    ∃ t', t.normalize p = some t' ∧ t'.fresh = t.fresh ∧
      Draws t'.heap q (Tree.node p kp np vp l r).settle ∧ ∀ x, x ≠ p → t'.heap x = t.heap x := by
  obtain ⟨hp, hdl, hdr⟩ := hd
  cases l with
  | node b k' n' v' l' r' =>
    refine ⟨t, ?_, rfl, ⟨hp, hdl, hdr⟩, fun x _ => rfl⟩
    simp [Trie.normalize, hp]
  | nil =>
    cases r with
    | nil =>
      refine ⟨t, ?_, rfl, ⟨hp, hdl, hdr⟩, fun x _ => rfl⟩
      simp [Trie.normalize, hp]
    | node b k' n' v' l' r' =>
      have hpb : p ∉ (Tree.node b k' n' v' l' r').addrs := (nodup_cons.mp hnd).1
      refine ⟨⟨update t.heap p (some ⟨kp, maskOf w np, vp, q, some b, none⟩), t.fresh⟩, ?_,
        rfl, ⟨update_self .., draws_congr hdr fun x hx => ?_, trivial⟩,
        fun x hx => update_of_ne hx ..⟩
      · simp [Trie.normalize, hp]
      · refine update_of_ne ?_ ..
        rintro rfl
        exact hpb hx

/-- What is left of the tree when a node is bypassed. -/
theorem addrs_unhook (p : Nat) (kp : BitVec w) (np : Nat) (vp : Option V) (i : Bool)
    (sib : Tree w V) (a : Nat) (k : BitVec w) (n : Nat) (v : Option V) (l : Tree w V)
    (c : Ctx w V) :
    ((Ctx.kid p kp np vp i sib c).plug (.node a k n v l .nil)).addrs.Perm
      (a :: (c.plug (join p kp np vp i l sib).settle).addrs) := by
  have hkid : (Tree.node a k n v l .nil).addrs = a :: l.addrs := by
    rw [Tree.addrs, Tree.addrs, append_nil]
  have hnode : (join p kp np vp i (.node a k n v l .nil) sib).addrs.Perm
      (a :: (join p kp np vp i l sib).settle.addrs) := by
    refine (addrs_join p kp np vp i _ sib).trans ?_
    rw [hkid, settle_addrs]
    exact (Perm.swap a p _).trans ((addrs_join p kp np vp i l sib).symm.cons a)
  exact (addrs_plug c _).trans ((hnode.append_right c.addrs).trans ((addrs_plug c _).symm.cons a))

theorem entries_unhook (p : Nat) (kp : BitVec w) (np : Nat) (vp : Option V) (i : Bool)
    (sib : Tree w V) (a : Nat) (k : BitVec w) (n : Nat) (v : Option V) (l : Tree w V)
    (c : Ctx w V) :
    ((Ctx.kid p kp np vp i sib c).plug (.node a k n v l .nil)).entries.Perm
      ((v.map fun x => Entry.mk a k n x).toList ++
        (c.plug (join p kp np vp i l sib).settle).entries) := by
  have hkid : (Tree.node a k n v l .nil).entries =
      (v.map fun x => Entry.mk a k n x).toList ++ l.entries := by
    rw [Tree.entries, Tree.entries, append_nil]
  have hnode : (join p kp np vp i (.node a k n v l .nil) sib).entries.Perm
      ((v.map fun x => Entry.mk a k n x).toList ++ (join p kp np vp i l sib).settle.entries) := by
    refine (entries_join p kp np vp i _ sib).trans ?_
    rw [hkid, settle_entries, append_assoc]
    refine (perm_append_comm_assoc _ _ _).trans ?_
    exact (entries_join p kp np vp i l sib).symm.append_left _
  refine (entries_plug c _).trans ((hnode.append_right c.entries).trans ?_)
  rw [append_assoc]
  exact (entries_plug c _).symm.append_left _

/-- Bypassing a node and settling its parent, in the whole tree. -/
theorem unhook_spec
    (hd : Draws t.heap none ((Ctx.kid p kp np vp i sib c).plug (.node a k n v l .nil)))
    (hnd : ((Ctx.kid p kp np vp i sib c).plug (.node a k n v l .nil)).addrs.Nodup) :
    ∃ t₁ t₂, t.bypass a p l.ptr = some t₁ ∧ t₁.normalize p = some t₂ ∧ t₂.fresh = t.fresh ∧
      Draws t₂.heap none (c.plug (join p kp np vp i l sib).settle) := by
  have hd₀ := draws_of_plug (c := c) hd
  have hnd₀ : (join p kp np vp i (.node a k n v l .nil) sib).addrs.Nodup ∧
      ∀ x ∈ (join p kp np vp i (.node a k n v l .nil) sib).addrs, x ∉ c.addrs := by
    obtain ⟨h1, _, h3⟩ := nodup_append.mp ((addrs_plug c _).nodup_iff.mp hnd)
    exact ⟨h1, fun x hx hx' => h3 x hx x hx' rfl⟩
  obtain ⟨t₁, hrun₁, hf₁, hd₁, hsame₁⟩ := bypass_spec hd₀ hnd₀.1
  have hnd₁ : (join p kp np vp i l sib).addrs.Nodup := by
    have h := ((addrs_unhook p kp np vp i sib a k n v l .top).nodup_iff.mp hnd₀.1).of_cons
    rwa [Ctx.plug, settle_addrs] at h
  obtain ⟨t₂, hrun₂, hf₂, hd₂, hsame₂⟩ : ∃ t₂, t₁.normalize p = some t₂ ∧ t₂.fresh = t₁.fresh ∧
      Draws t₂.heap c.parent (join p kp np vp i l sib).settle ∧
      ∀ x, x ≠ p → t₂.heap x = t₁.heap x := by
    cases i
    · exact normalize_spec hd₁ hnd₁
    · exact normalize_spec hd₁ hnd₁
  refine ⟨t₁, t₂, hrun₁, hrun₂, hf₂.trans hf₁, ?_⟩
  refine draws_plug (t := join p kp np vp i (.node a k n v l .nil) sib) hd hd₂
    (by rw [ptr_of_site (settle_site _), ptr_join, ptr_join]) fun x hx => ?_
  have hxp : x ≠ p := by
    rintro rfl
    exact hnd₀.2 x (mem_addrs_join.mpr (.inl rfl)) hx
  have hxl : x ∉ l.addrs := fun h => hnd₀.2 x
    (mem_addrs_join.mpr (.inr (.inl (mem_cons_of_mem a (mem_append_left _ h))))) hx
  exact (hsame₂ x hxp).trans (hsame₁ x hxp hxl)

theorem draws_delete {s : Tree w V} (hd : Draws t.heap none s) (ha : a ∉ s.addrs) :
    Draws (t.delete a).heap none s := by
  refine draws_congr hd fun x hx => update_of_ne ?_ ..
  rintro rfl
  exact ha hx

/-- The node a settled one is. -/
theorem settle_join (p : Nat) (kp : BitVec w) (np : Nat) (vp : Option V) (i : Bool)
    (l sib : Tree w V) :
    ∃ l' r', (join p kp np vp i l sib).settle = .node p kp np vp l' r' ∧
      (l ≠ .nil → sib ≠ .nil → r' ≠ .nil) := by
  cases i with
  | false =>
    cases l with
    | nil => exact ⟨sib, .nil, rfl, fun h _ => absurd rfl h⟩
    | node => exact ⟨_, sib, rfl, fun _ h => h⟩
  | true =>
    cases sib with
    | nil => exact ⟨l, .nil, rfl, fun _ h => absurd rfl h⟩
    | node => exact ⟨_, l, rfl, fun h _ => h⟩

/-- `remove` of a node with at most one kid. -/
theorem remove_eq {fuel : Nat} {mask : BitVec w} {kid : Option Nat} {t₁ t₂ : Trie w V}
    {pn : Node w V}
    (ha : t.heap a = some ⟨k, mask, v, some p, kid, none⟩) (h₁ : t.bypass a p kid = some t₁)
    (h₂ : t₁.normalize p = some t₂) (hp : t₂.heap p = some pn) : t.remove (fuel + 1) a =
      (if pn.kids1.isNone && pn.value.isNone && pn.parent.isSome then
        (t₂.remove fuel p).map Prod.fst else some t₂).map fun t => (t.delete a, v) := by
  simp only [Trie.remove, ha, h₁, h₂, hp, Option.bind_eq_bind, Option.bind_some, Option.isSome_none,
    Bool.false_eq_true, if_false]
  split
  · cases t₂.remove fuel p <;> rfl
  · rfl

/-- The parent stays. -/
theorem remove_once (fuel : Nat)
    (hd : Draws t.heap none ((Ctx.kid p kp np vp i sib c).plug (.node a k n v l .nil)))
    (hnd : ((Ctx.kid p kp np vp i sib c).plug (.node a k n v l .nil)).addrs.Nodup)
    (hstay : vp = none → c.parent ≠ none → l ≠ .nil ∧ sib ≠ .nil) :
    ∃ t', t.remove (fuel + 1) a = some (t', v) ∧ t'.fresh = t.fresh ∧
      Draws t'.heap none (c.plug (join p kp np vp i l sib).settle) := by
  have ha : t.heap a = some ⟨k, maskOf w n, v, some p, l.ptr, none⟩ :=
    (draws_of_plug (c := .kid p kp np vp i sib c) hd).1
  obtain ⟨t₁, t₂, hrun₁, hrun₂, hf, hd₂⟩ := unhook_spec hd hnd
  have hnot : a ∉ (c.plug (join p kp np vp i l sib).settle).addrs :=
    (nodup_cons.mp ((addrs_unhook p kp np vp i sib a k n v l c).nodup_iff.mp hnd)).1
  obtain ⟨l', r', hsettle, hfull⟩ := settle_join p kp np vp i l sib
  have hp : t₂.heap p = some ⟨kp, maskOf w np, vp, c.parent, l'.ptr, r'.ptr⟩ := by
    have h := draws_of_plug (c := c) hd₂
    rw [hsettle] at h
    exact h.1
  refine ⟨t₂.delete a, ?_, hf, draws_delete hd₂ hnot⟩
  rw [remove_eq ha hrun₁ hrun₂ hp, if_neg]
  · rfl
  · intro h
    simp only [Bool.and_eq_true, Option.isNone_iff_eq_none] at h
    obtain ⟨⟨hr, hv⟩, hq⟩ := h
    obtain ⟨hl, hsib⟩ := hstay hv (fun hc => by rw [hc] at hq; exact nomatch hq)
    cases r' with
    | nil => exact hfull hl hsib rfl
    | node => exact nomatch hr

/-- The parent was internal, and goes too; the grandparent stays. -/
theorem remove_twice (fuel : Nat) {g : Nat} {kg : BitVec w} {ng : Nat} {vg : Option V} {j : Bool}
    {sib₂ : Tree w V}
    (hd : Draws t.heap none
      ((Ctx.kid p kp np none i sib (.kid g kg ng vg j sib₂ c)).plug (.node a k n v .nil .nil)))
    (hnd : ((Ctx.kid p kp np none i sib (.kid g kg ng vg j sib₂ c)).plug
      (.node a k n v .nil .nil)).addrs.Nodup)
    (hsib : sib ≠ .nil) (hstay : vg = none → c.parent ≠ none → sib₂ ≠ .nil) :
    ∃ t', t.remove (fuel + 2) a = some (t', v) ∧ t'.fresh = t.fresh ∧
      Draws t'.heap none (c.plug (join g kg ng vg j sib sib₂).settle) := by
  have ha : t.heap a = some ⟨k, maskOf w n, v, some p, none, none⟩ :=
    (draws_of_plug (c := .kid p kp np none i sib (.kid g kg ng vg j sib₂ c)) hd).1
  obtain ⟨t₁, t₂, hrun₁, hrun₂, hf, hd₂⟩ := unhook_spec hd hnd
  have hnd₂ := (nodup_cons.mp
    ((addrs_unhook p kp np none i sib a k n v .nil (.kid g kg ng vg j sib₂ c)).nodup_iff.mp hnd))
  have hsettle : (join p kp np none i .nil sib).settle = .node p kp np none sib .nil := by
    cases i with
    | false => rfl
    | true =>
      cases sib with
      | nil => exact absurd rfl hsib
      | node => rfl
  rw [hsettle] at hd₂ hnd₂
  have hp : t₂.heap p = some ⟨kp, maskOf w np, none, some g, sib.ptr, none⟩ :=
    (draws_of_plug (c := .kid g kg ng vg j sib₂ c) hd₂).1
  obtain ⟨t₃, hrun₃, hf₃, hd₃⟩ := remove_once fuel hd₂ hnd₂.2 fun hv hc => ⟨hsib, hstay hv hc⟩
  have hnot : a ∉ (c.plug (join g kg ng vg j sib sib₂).settle).addrs := fun h => hnd₂.1
    ((addrs_unhook g kg ng vg j sib₂ p kp np none sib c).mem_iff.mpr (mem_cons_of_mem p h))
  refine ⟨t₃.delete a, ?_, hf₃.trans hf, draws_delete hd₃ hnot⟩
  rw [remove_eq ha hrun₁ hrun₂ hp]
  show ((t₂.remove (fuel + 1) p).map Prod.fst).map _ = _
  rw [hrun₃]
  rfl

end Unhook

/-! ## Between two calls -/

/-- What the memory holds: the tree the pointers draw from `head` on. -/
structure Holds (t : Trie w V) (s : Tree w V) : Prop where
  draws : Draws t.heap none s
  site : s.site = some (head, 0, 0)
  nodup : s.addrs.Nodup
  below : ∀ x ∈ s.addrs, x < t.fresh
  wf : WellFormed s
  positive : ∀ e ∈ s.entries, 0 < e.width

theorem holds_empty : Holds (Trie.empty : Trie w V) (.node head 0 0 none .nil .nil) := by
  have hmask : maskOf w 0 = 0#w := by
    apply BitVec.eq_of_getMsbD_eq
    intro i hi
    rw [getMsbD_maskOf]
    simp
  refine ⟨⟨?_, trivial, trivial⟩, rfl, by simp [Tree.addrs], ?_, ?_, fun e he => ?_⟩
  · show some (Node.mk (0#w &&& 0#w) 0#w none none none none) =
      some (Node.mk 0#w (maskOf w 0) _ _ _ _)
    rw [hmask, BitVec.and_self]
    rfl
  · intro x hx
    obtain rfl : x = head := by simpa [Tree.addrs] using hx
    exact Nat.lt_succ_self _
  · refine ⟨Nat.zero_le w, ?_, trivial, trivial, trivial, trivial, trivial⟩
    exact BitVec.zero_and
  · exact absurd he not_mem_nil

/-- The root of what the memory holds. -/
theorem Holds.root {t : Trie w V} {s : Tree w V} (h : Holds t s) :
    ∃ v l r, s = .node head 0 0 v l r := by
  have hsite := h.site
  cases s with
  | nil => exact nomatch hsite
  | node a k n v l r =>
    obtain ⟨rfl, rfl, rfl⟩ : a = head ∧ k = 0 ∧ n = 0 := by simpa [Tree.site] using hsite
    exact ⟨v, l, r, rfl⟩

/-- Each stored value has its node. -/
theorem draws_entry {heap : Nat → Option (Node w V)} {p : Option Nat} {s : Tree w V}
    (hd : Draws heap p s) {e : Entry w V} (he : e ∈ s.entries) :
    ∃ n, heap e.handle = some n ∧ n.key = e.key ∧ n.mask = maskOf w e.width ∧
      n.value = some e.val := by
  induction s generalizing p with
  | nil => exact absurd he not_mem_nil
  | node a k n v l r ihl ihr =>
    obtain ⟨ha, hl, hr⟩ := hd
    rcases mem_entries.mp he with ⟨x, rfl, rfl⟩ | he | he
    · exact ⟨_, ha, rfl, rfl, rfl⟩
    · exact ihl hl he
    · exact ihr hr he

/-- Each value's handle is its own. -/
theorem handles_nodup {s : Tree w V} (hnd : s.addrs.Nodup) :
    (s.entries.map Entry.handle).Nodup := by
  refine Nodup.sublist ?_ hnd
  clear hnd
  induction s with
  | nil => exact Sublist.refl _
  | node a k n v l r ihl ihr =>
    have hkids := ihl.append ihr
    rw [← map_append] at hkids
    cases v with
    | none => exact hkids.cons a
    | some x => exact hkids.cons_cons a

/-- Where the node of a stored value stands. -/
theorem exists_ctx {s : Tree w V} {e : Entry w V} (he : e ∈ s.entries) :
    ∃ (c : Ctx w V) (l r : Tree w V),
      s = c.plug (.node e.handle e.key e.width (some e.val) l r) := by
  induction s with
  | nil => exact absurd he not_mem_nil
  | node a k n v l r ihl ihr =>
    rcases mem_entries.mp he with ⟨x, rfl, rfl⟩ | he | he
    · exact ⟨.top, l, r, rfl⟩
    · obtain ⟨c, l', r', h⟩ := ihl he
      refine ⟨c.append (.kid a k n v false r .top), l', r', ?_⟩
      rw [plug_append, ← h]
      rfl
    · obtain ⟨c, l', r', h⟩ := ihr he
      refine ⟨c.append (.kid a k n v true l .top), l', r', ?_⟩
      rw [plug_append, ← h]
      rfl

/-! ### Insertion -/

/-- The rest of the tree stays as it was around what `insert` changes. -/
theorem Holds.grow {t t' : Trie w V} {c : Ctx w V} {s s' : Tree w V} {h : Nat} {key : BitVec w}
    {N : Nat} {val : V} (hh : Holds t (c.plug s)) (hN : 0 < N)
    (hg : Grown t t' c.parent h key N val s s') :
    Holds t' (c.plug s') ∧ (c.plug s').entries.Perm (⟨h, key, N, val⟩ :: (c.plug s).entries) := by
  obtain ⟨_, hcn, hdis⟩ := nodup_append.mp ((addrs_plug c s).nodup_iff.mp hh.nodup)
  have hold : ∀ x, x ∈ s.addrs ∨ x ∈ c.addrs → x < t.fresh := fun x hx =>
    hh.below x ((addrs_plug c s).mem_iff.mpr (mem_append.mpr hx))
  have hentries : (c.plug s').entries.Perm (⟨h, key, N, val⟩ :: (c.plug s).entries) :=
    (entries_plug c s').trans ((hg.entries.append_right c.entries).trans
      ((entries_plug c s).symm.cons _))
  refine ⟨⟨?_, (site_plug c hg.site).trans hh.site, ?_, fun x hx => ?_, ?_, fun e he => ?_⟩,
    hentries⟩
  · refine draws_plug hh.draws hg.draws (ptr_of_site hg.site) fun x hx => ?_
    exact hg.change.frame x (hold x (.inr hx)) fun hx' => hdis x hx' x hx rfl
  · refine (addrs_plug c s').nodup_iff.mpr (nodup_append.mpr ⟨hg.change.nodup, hcn, ?_⟩)
    rintro x hx y hy rfl
    rcases hg.change.own x hx with hx | hx
    · exact hdis x hx x hy rfl
    · have := hold x (.inr hy)
      omega
  · have hgrow := hg.change.grow
    rcases mem_append.mp ((addrs_plug c s').mem_iff.mp hx) with hx | hx
    · rcases hg.change.own x hx with hx | hx
      · have := hold x (.inl hx)
        omega
      · exact hx.2
    · have := hold x (.inr hx)
      omega
  · exact wellFormed_plug hh.wf hg.wf hg.fits
  · rcases mem_cons.mp (hentries.mem_iff.mp he) with rfl | he
    · exact hN
    · exact hh.positive e he

/-- An entry of the key and the width is at the node that no kid goes after, if there is one. -/
theorem entry_at {b : Nat} {k : BitVec w} {n : Nat} {v : Option V} {l r : Tree w V}
    (hwf : WellFormed (.node b k n v l r)) {key : BitVec w} {N : Nat} (hl : ¬ Beyond key N l)
    (hr : ¬ Beyond key N r) {e : Entry w V} (he : e ∈ (Tree.node b k n v l r).entries)
    (hek : e.key = key) (hew : e.width = N) : n = N ∧ v.isSome := by
  have hbelow : ∀ s : Tree w V, WellFormed s → e ∈ s.entries → Beyond key N s := by
    intro s hws hes
    cases s with
    | nil => exact absurd hes not_mem_nil
    | node a' k' n' v' l' r' =>
      obtain ⟨hle, hag⟩ := entries_extend hws hes
      exact ⟨hek ▸ hag, hew ▸ hle⟩
  obtain ⟨_, _, _, _, _, hwl, hwr⟩ := hwf
  rcases mem_entries.mp he with ⟨x, rfl, rfl⟩ | he | he
  · exact ⟨hew, rfl⟩
  · exact absurd (hbelow l hwl he) hl
  · exact absurd (hbelow r hwr he) hr

/-- `insert` fails on an entry of the same masked key and width, and adds the value otherwise. -/
theorem insert_spec (hw : 0 < w) {t : Trie w V} {s : Tree w V} (hh : Holds t s) (key : BitVec w)
    {width : Nat} (hpos : 0 < width) (hle : width ≤ w) (val : V) :
    (t.insert key width val = none ∧
      ∃ e ∈ s.entries, e.key = key &&& maskOf w width ∧ e.width = width) ∨
    (∀ e ∈ s.entries, ¬ (e.key = key &&& maskOf w width ∧ e.width = width)) ∧
      ∃ t' h s', t.insert key width val = some (t', h) ∧ Holds t' s' ∧
        s'.entries.Perm (⟨h, key &&& maskOf w width, width, val⟩ :: s.entries) := by
  obtain ⟨v, l, r, rfl⟩ := hh.root
  have hmask : (if width < w then BitVec.allOnes w <<< (w - width) else BitVec.allOnes w) =
      maskOf w width := by
    split
    · rfl
    · exact (maskOf_of_le (by omega)).symm
  have hkm : key &&& maskOf w width &&& maskOf w width = key &&& maskOf w width := by
    rw [BitVec.and_assoc, BitVec.and_self]
  obtain ⟨b, hwalk, c, k', n', v', l', r', hplug, hag, hnN, hbl, hbr, hent⟩ :=
    walk_spec hh.draws hh.wf (agree_zero (key &&& maskOf w width) 0) (Nat.zero_le width) hle
      (show width - 0 < w + 1 by omega)
  have hrun : t.insert key width val =
      t.insertAt b (key &&& maskOf w width) (maskOf w width) val := by
    simp only [Trie.insert, hmask, hwalk, Option.bind_eq_bind, Option.bind_some]
  rw [hplug] at hh
  have hperm := addrs_plug c (.node b k' n' v' l' r')
  have hwf := wellFormed_of_plug hh.wf
  rcases insertAt_spec hw ⟨draws_of_plug hh.draws, hwf,
    (nodup_append.mp (hperm.nodup_iff.mp hh.nodup)).1,
    fun x hx => hh.below x (hperm.mem_iff.mpr (mem_append_left _ hx))⟩ hag hkm hnN hle hbl hbr
    val with ⟨hn, hk, hv, hnone⟩ | ⟨hfree, t', h, s', hsome, hg⟩
  · refine .inl ⟨hrun.trans hnone, ?_⟩
    obtain ⟨x, rfl⟩ := Option.isSome_iff_exists.mp hv
    refine ⟨⟨b, k', n', x⟩, ?_, hk, hn⟩
    rw [hplug]
    exact (entries_plug c _).mem_iff.mpr (mem_append_left _ (mem_entries.mpr (.inl ⟨x, rfl, rfl⟩)))
  · refine .inr ⟨?_, t', h, c.plug s', hrun.trans hsome, ?_⟩
    · rintro e he ⟨hek, hew⟩
      obtain ⟨hn, hv⟩ := entry_at hwf hbl hbr (hent e he hek hew) hek hew
      rw [hfree hn] at hv
      exact nomatch hv
    · rw [hplug]
      exact hh.grow hpos hg

/-! ### Removal -/

/-- A smaller tree in the same memory. -/
theorem Holds.shrink {t t' : Trie w V} {s s' : Tree w V} (hh : Holds t s)
    (hd : Draws t'.heap none s') (hf : t'.fresh = t.fresh) (hsite : s'.site = s.site)
    (hwf : WellFormed s') (gone : List Nat) (hperm : s.addrs.Perm (gone ++ s'.addrs))
    (hsub : ∀ e ∈ s'.entries, e ∈ s.entries) : Holds t' s' := by
  refine ⟨hd, hsite.trans hh.site, ?_, fun x hx => ?_, hwf, fun e he => hh.positive e (hsub e he)⟩
  · exact (nodup_append.mp (hperm.nodup_iff.mp hh.nodup)).2.1
  · rw [hf]
    exact hh.below x (hperm.mem_iff.mpr (mem_append_right _ hx))

variable {p np : Nat} {i : Bool}

/-- A node below the root that has no value has two kids. -/
theorem internal_full {kp : BitVec w} {s sib : Tree w V}
    {c : Ctx w V} (hwf : WellFormed (c.plug (join p kp np none i s sib))) (hc : c.parent ≠ none) :
    s ≠ .nil ∧ sib ≠ .nil := by
  cases c with
  | top => exact absurd rfl hc
  | kid g kg ng vg j sib₂ c =>
    obtain ⟨_, _, hb, _⟩ := wellFormed_join.mp (wellFormed_of_plug (c := c) hwf)
    cases i with
    | false => exact hb.2.2 rfl
    | true => exact (hb.2.2 rfl).symm

/-- A kid may stand where its parent does. -/
theorem fits_kid {a : Nat} {k : BitVec w} {n : Nat} {v : Option V} {l r s : Tree w V}
    (hb : Below k n s) (hs : s ≠ .nil) : Fits (.node a k n v l r) s := by
  cases s with
  | nil => exact absurd rfl hs
  | node a' k' n' v' l' r' => exact ⟨Nat.le_of_lt hb.1, hb.2.1, fun _ => hb.2.2⟩

/-- A node that keeps a first kid is settled. -/
theorem settle_of_ne {kp : BitVec w} {vp : Option V}
    {l s sib : Tree w V} (hwf : WellFormed (join p kp np vp i s sib)) (hs : s ≠ .nil)
    (hl : l ≠ .nil) : (join p kp np vp i l sib).settle = join p kp np vp i l sib := by
  obtain ⟨_, _, _, _, hpart, _⟩ := wellFormed_join.mp hwf
  cases i with
  | false =>
    cases l with
    | nil => exact absurd rfl hl
    | node => rfl
  | true =>
    cases sib with
    | nil =>
      cases s with
      | nil => exact absurd rfl hs
      | node => exact absurd hpart id
    | node => rfl

/-- A node that loses a leaf keeps its other kid as the first. -/
theorem settle_leaf {kp : BitVec w} {vp : Option V}
    {s sib : Tree w V} (hwf : WellFormed (join p kp np vp i s sib)) (hs : s ≠ .nil) :
    (join p kp np vp i .nil sib).settle = .node p kp np vp sib .nil := by
  obtain ⟨_, _, _, _, hpart, _⟩ := wellFormed_join.mp hwf
  cases i with
  | false => rfl
  | true =>
    cases sib with
    | nil =>
      cases s with
      | nil => exact absurd rfl hs
      | node => exact absurd hpart id
    | node => rfl

/-- What removing the value of an entry leaves. -/
structure Removed (t' : Trie w V) (e : Entry w V) (s s' : Tree w V) : Prop where
  holds : Holds t' s'
  entries : s.entries.Perm (e :: s'.entries)

section Remove

variable {t : Trie w V} {a : Nat} {k : BitVec w} {n : Nat} {x : V} {l r : Tree w V} {c : Ctx w V}

/-- Two kids: the node stays, without its value. -/
theorem remove_internal (hh : Holds t (c.plug (.node a k n (some x) l r))) (hr : r ≠ .nil)
    (fuel : Nat) : ∃ t', t.remove (fuel + 1) a = some (t', some x) ∧
      Removed t' ⟨a, k, n, x⟩ (c.plug (.node a k n (some x) l r))
        (c.plug (.node a k n none l r)) := by
  have hd := draws_of_plug hh.draws
  have hwf := wellFormed_of_plug hh.wf
  have haddrs : (c.plug (.node a k n (some x) l r)).addrs.Perm
      ([] ++ (c.plug (.node a k n none l r)).addrs) :=
    (addrs_plug c _).trans (addrs_plug c (.node a k n none l r)).symm
  have hentries : (c.plug (.node a k n (some x) l r)).entries.Perm
      (⟨a, k, n, x⟩ :: (c.plug (.node a k n none l r)).entries) :=
    (entries_plug c _).trans ((entries_plug c (.node a k n none l r)).symm.cons _)
  obtain ⟨hout, _, hdis⟩ := nodup_append.mp ((addrs_plug c _).nodup_iff.mp hh.nodup)
  have hal : a ∉ l.addrs ++ r.addrs := (nodup_cons.mp hout).1
  let t' : Trie w V :=
    ⟨update t.heap a (some ⟨k, maskOf w n, none, c.parent, l.ptr, r.ptr⟩), t.fresh⟩
  have hrun : t.remove (fuel + 1) a = some (t', some x) := by
    cases r with
    | nil => exact absurd rfl hr
    | node => simp [Trie.remove, hd.1, t']
  have hsame : ∀ y, y ≠ a → t'.heap y = t.heap y := fun y hy => update_of_ne hy ..
  have hd' : Draws t'.heap c.parent (.node a k n none l r) := by
    refine ⟨update_self .., draws_congr hd.2.1 fun y hy => hsame y ?_,
      draws_congr hd.2.2 fun y hy => hsame y ?_⟩
    · rintro rfl
      exact hal (mem_append_left _ hy)
    · rintro rfl
      exact hal (mem_append_right _ hy)
  have hfits : Fits (.node a k n (some x) l r) (.node a k n none l r) := by
    refine ⟨Nat.le_refl n, agree_refl n k, fun _ _ => ⟨?_, hr⟩⟩
    rintro rfl
    cases r with
    | nil => exact hr rfl
    | node => exact hwf.2.2.2.2.1
  refine ⟨t', hrun, hh.shrink ?_ rfl (site_plug c rfl) (wellFormed_plug hh.wf hwf hfits) [] haddrs
    fun e he => hentries.mem_iff.mpr (mem_cons_of_mem _ he), hentries⟩
  refine draws_plug hh.draws hd' rfl fun y hy => hsame y ?_
  rintro rfl
  exact hdis y mem_cons_self y hy rfl

variable {p : Nat} {kp : BitVec w} {np : Nat} {vp : Option V} {i : Bool} {sib : Tree w V}

/-- At most one kid, and the parent stays. -/
theorem remove_leaf (hh : Holds t ((Ctx.kid p kp np vp i sib c).plug (.node a k n (some x) l .nil)))
    (hstay : vp = none → c.parent ≠ none → l ≠ .nil ∧ sib ≠ .nil) (fuel : Nat) :
    ∃ t', t.remove (fuel + 1) a = some (t', some x) ∧
      Removed t' ⟨a, k, n, x⟩ ((Ctx.kid p kp np vp i sib c).plug (.node a k n (some x) l .nil))
        (c.plug (join p kp np vp i l sib).settle) := by
  obtain ⟨t', hrun, hf, hd⟩ := remove_once fuel hh.draws hh.nodup hstay
  have hentries := entries_unhook p kp np vp i sib a k n (some x) l c
  have hplug : WellFormed (c.plug (join p kp np vp i (.node a k n (some x) l .nil) sib)) := hh.wf
  have hwfp := wellFormed_of_plug hplug
  obtain ⟨hnw, hmask, hbk, hbs, _, hwk, hws⟩ := wellFormed_join.mp hwfp
  have hwf : WellFormed (c.plug (join p kp np vp i l sib).settle) := by
    cases l with
    | node b k' n' v' l' r' =>
      have hne : Tree.node b k' n' v' l' r' ≠ .nil := nofun
      rw [settle_of_ne hwfp nofun hne]
      exact wellFormed_plug (c := .kid p kp np vp i sib c) hh.wf hwk.2.2.2.2.2.1
        (fits_kid hwk.2.2.1 hne)
    | nil =>
      rw [settle_leaf hwfp nofun]
      have hnew : WellFormed (Tree.node p kp np vp sib .nil) :=
        ⟨hnw, hmask, hbs, trivial, by cases sib <;> trivial, hws, trivial⟩
      cases c with
      | top => exact hnew
      | kid g kg ng vg j sib₂ c =>
        have hvp : vp ≠ none := fun hv => (hstay hv nofun).1 rfl
        refine wellFormed_plug hplug hnew ?_
        cases i
        · exact ⟨Nat.le_refl np, agree_refl np kp, fun _ hv => absurd hv hvp⟩
        · exact ⟨Nat.le_refl np, agree_refl np kp, fun _ hv => absurd hv hvp⟩
  refine ⟨t', hrun, hh.shrink hd hf ?_ hwf [a] (addrs_unhook p kp np vp i sib a k n (some x) l c)
    fun e he => hentries.mem_iff.mpr (mem_cons_of_mem _ he), hentries⟩
  exact site_plug c (by rw [settle_site, site_join, site_join])

/-- A leaf whose parent is internal: the parent goes too. -/
theorem remove_collapse
    (hh : Holds t ((Ctx.kid p kp np none i sib c).plug (.node a k n (some x) .nil .nil)))
    (hc : c.parent ≠ none) (fuel : Nat) : ∃ t' s', t.remove (fuel + 2) a = some (t', some x) ∧
      Removed t' ⟨a, k, n, x⟩ ((Ctx.kid p kp np none i sib c).plug (.node a k n (some x) .nil .nil))
        s' := by
  have hplug : WellFormed (c.plug (join p kp np none i (.node a k n (some x) .nil .nil) sib)) :=
    hh.wf
  have hwfp := wellFormed_of_plug hplug
  have hsib := (internal_full hplug hc).2
  have hbs := (wellFormed_join.mp hwfp).2.2.2.1
  have hws := (wellFormed_join.mp hwfp).2.2.2.2.2.2
  cases c with
  | top => exact absurd rfl hc
  | kid g kg ng vg j sib₂ c =>
    have hplug₂ : WellFormed (c.plug (join g kg ng vg j
      (join p kp np none i (.node a k n (some x) .nil .nil) sib) sib₂)) := hplug
    have hwfg := wellFormed_of_plug hplug₂
    have hne : join p kp np none i (.node a k n (some x) .nil .nil) sib ≠ .nil := by
      cases i <;> nofun
    obtain ⟨t', hrun, hf, hd⟩ := remove_twice fuel hh.draws hh.nodup hsib fun hv hc' => by
      subst hv
      exact (internal_full hplug₂ hc').2
    rw [settle_of_ne hwfg hne hsib] at hd
    have hwf : WellFormed (c.plug (join g kg ng vg j sib sib₂)) := by
      refine wellFormed_plug (c := .kid g kg ng vg j sib₂ c) hplug hws ?_
      cases i
      · exact fits_kid hbs hsib
      · exact fits_kid hbs hsib
    have haddrs := addrs_unhook p kp np none i sib a k n (some x) .nil (.kid g kg ng vg j sib₂ c)
    have hentries := entries_unhook p kp np none i sib a k n (some x) .nil
      (.kid g kg ng vg j sib₂ c)
    have haddrs₂ := addrs_unhook g kg ng vg j sib₂ p kp np none sib c
    have hentries₂ := entries_unhook g kg ng vg j sib₂ p kp np none sib c
    rw [settle_of_ne hwfg hne hsib] at haddrs₂ hentries₂
    rw [settle_leaf hwfp nofun] at haddrs hentries
    have hentries' := hentries.trans (hentries₂.cons _)
    refine ⟨t', _, hrun, hh.shrink hd hf ?_ hwf [a, p] (haddrs.trans (haddrs₂.cons a))
      fun e he => hentries'.mem_iff.mpr (mem_cons_of_mem _ he), hentries'⟩
    have hsite : (join g kg ng vg j sib sib₂).site =
        (join g kg ng vg j (join p kp np none i (.node a k n (some x) .nil .nil) sib) sib₂).site :=
      (site_join ..).trans (site_join ..).symm
    exact site_plug c hsite

end Remove

/-- `remove` of a stored value returns it, and keeps the other entries. -/
theorem remove_spec (hw : 0 < w) {t : Trie w V} {s : Tree w V} (hh : Holds t s) {e : Entry w V}
    (he : e ∈ s.entries) :
    ∃ t' s', t.removeHandle e.handle = some (t', some e.val) ∧ Removed t' e s s' := by
  have hpos := hh.positive e he
  obtain ⟨c, l, r, rfl⟩ := exists_ctx he
  have hfuel : w + 1 = (w - 1) + 2 := by omega
  unfold Trie.removeHandle
  rw [hfuel]
  by_cases hr : r = .nil
  · subst hr
    cases c with
    | top =>
      -- the root has no bits
      have hsite := hh.site
      have hwidth : e.width = 0 := by
        simpa [Ctx.plug, Tree.site] using congrArg (Option.map (·.2.2)) hsite
      omega
    | kid p kp np vp i sib c =>
      by_cases hstay : vp = none → c.parent ≠ none → l ≠ .nil ∧ sib ≠ .nil
      · obtain ⟨t', hrun, hrem⟩ := remove_leaf hh hstay (w - 1 + 1)
        exact ⟨t', _, hrun, hrem⟩
      · obtain ⟨rfl, hc, hnot⟩ : vp = none ∧ c.parent ≠ none ∧ ¬ (l ≠ .nil ∧ sib ≠ .nil) := by
          by_contra h
          exact hstay fun hv hc => by_contra fun hn => h ⟨hv, hc, hn⟩
        have hsib := (internal_full (c := c) hh.wf hc).2
        obtain rfl : l = .nil := by_contra fun hl => hnot ⟨hl, hsib⟩
        exact remove_collapse hh hc (w - 1)
  · obtain ⟨t', hrun, hrem⟩ := remove_internal hh hr (w - 1 + 1)
    exact ⟨t', _, hrun, hrem⟩

/-! ### Clearing -/

theorem clearNode_eq {t : Trie w V} {a : Nat} {n : Node w V} (ha : t.heap a = some n) (fuel : Nat) :
    t.clearNode (fuel + 1) a = ((match n.kids1 with
      | none => some t
      | some k => (t.clearNode fuel k).bind fun t =>
          (t.delete k).modify a (·.setKid true none)).bind
        fun t => (t.heap a).bind fun n => match n.kids0 with
          | none => some t
          | some k => (t.clearNode fuel k).bind fun t =>
              (t.delete k).modify a (·.setKid false none)) := by
  simp only [Trie.clearNode, ha, Option.bind_eq_bind, Option.bind_some]
  cases n.kids1 with
  | none =>
    show _ = (t.heap a).bind _
    exact Eq.symm (congrFun (congrArg Option.bind ha) _)
  | some k => exact (Option.bind_assoc _ _ _).symm

/-- Clearing and deleting kid `i`, given what clearing does to it. -/
theorem clear_kid {t : Trie w V} {a : Nat} {n : Node w V} {i : Bool} {s : Tree w V} {fuel : Nat}
    (ha : t.heap a = some n) (hkid : n.kid i = s.ptr) (hnot : a ∉ s.addrs)
    (hclear : ∀ b, s.ptr = some b → ∃ t', t.clearNode fuel b = some t' ∧ t'.fresh = t.fresh ∧
      ∀ x, x ∉ s.addrs → t'.heap x = t.heap x) :
    ∃ t', (match s.ptr with
        | none => some t
        | some k => (t.clearNode fuel k).bind fun t => (t.delete k).modify a (·.setKid i none)) =
          some t' ∧ t'.fresh = t.fresh ∧ t'.heap a = some (n.setKid i none) ∧
      ∀ x, x ≠ a → x ∉ s.addrs → t'.heap x = t.heap x := by
  cases s with
  | nil =>
    refine ⟨t, rfl, rfl, ha.trans ?_, fun x _ _ => rfl⟩
    cases i
    · exact congrArg (fun o => some { n with kids0 := o }) hkid
    · exact congrArg (fun o => some { n with kids1 := o }) hkid
  | node b k' n' v' l' r' =>
    obtain ⟨t₁, hrun, hf, hsame⟩ := hclear b rfl
    have hab : a ≠ b := by
      rintro rfl
      exact hnot mem_cons_self
    have ha₁ : (t₁.delete b).heap a = some n :=
      (update_of_ne hab ..).trans ((hsame a hnot).trans ha)
    refine ⟨⟨update (t₁.delete b).heap a (some (n.setKid i none)), t₁.fresh⟩, ?_, hf,
      update_self .., fun x hxa hxs => ?_⟩
    · simp only [ptr_node, hrun, Option.bind_some]
      exact modify_some ha₁ _
    · have hxb : x ≠ b := by
        rintro rfl
        exact hxs mem_cons_self
      exact (update_of_ne hxa ..).trans ((update_of_ne hxb ..).trans (hsame x hxs))

theorem clearNode_spec {t : Trie w V} {q : Option Nat} {a : Nat} {k : BitVec w} {n : Nat}
    {v : Option V} {l r : Tree w V} (hd : Draws t.heap q (.node a k n v l r))
    (hwf : WellFormed (.node a k n v l r)) (hnd : (Tree.node a k n v l r).addrs.Nodup) {fuel : Nat}
    (hf : w - n < fuel) : ∃ t', t.clearNode fuel a = some t' ∧ t'.fresh = t.fresh ∧
      t'.heap a = some ⟨k, maskOf w n, v, q, none, none⟩ ∧
      ∀ x, x ∉ (Tree.node a k n v l r).addrs → t'.heap x = t.heap x := by
  generalize hs : Tree.node a k n v l r = s at hd hwf hnd ⊢
  induction s generalizing t q a k n v l r fuel with
  | nil => exact nomatch hs
  | node a' k' n' v' l' r' ihl ihr =>
    obtain ⟨rfl, rfl, rfl, rfl, rfl, rfl⟩ := Tree.node.inj hs
    obtain ⟨fuel, rfl⟩ : ∃ f, fuel = f + 1 := ⟨fuel - 1, by omega⟩
    obtain ⟨ha, hdl, hdr⟩ := hd
    obtain ⟨_, _, hbl, hbr, _, hwl, hwr⟩ := hwf
    have hjoin : (join a k n v false l r).addrs.Nodup := hnd
    obtain ⟨hal, har, hln, hrn, hdis⟩ := join_apart hjoin
    have hless : ∀ s : Tree w V, Below k n s → WellFormed s → ∀ b k₁ n₁ v₁ l₁ r₁,
        s = .node b k₁ n₁ v₁ l₁ r₁ → w - n₁ < fuel := by
      rintro s hb hw b k₁ n₁ v₁ l₁ r₁ rfl
      have := hb.1
      have := hw.1
      omega
    obtain ⟨t₁, hrun₁, hf₁, ha₁, hsame₁⟩ := clear_kid (i := true) (s := r) ha rfl har fun b hb => by
      cases r with
      | nil => exact nomatch hb
      | node b' k₁ n₁ v₁ l₁ r₁ =>
        obtain rfl := Option.some.inj hb
        obtain ⟨t', h1, h2, _, h4⟩ := ihr (hless _ hbr hwr _ _ _ _ _ _ rfl) rfl hdr hwr hrn
        exact ⟨t', h1, h2, h4⟩
    have hdl₁ : Draws t₁.heap (some a) l := draws_congr hdl fun x hx => by
      refine hsame₁ x ?_ (hdis x hx)
      rintro rfl
      exact hal hx
    obtain ⟨t₂, hrun₂, hf₂, ha₂, hsame₂⟩ := clear_kid (i := false) (s := l) ha₁ rfl hal
        fun b hb => by
      cases l with
      | nil => exact nomatch hb
      | node b' k₁ n₁ v₁ l₁ r₁ =>
        obtain rfl := Option.some.inj hb
        obtain ⟨t', h1, h2, _, h4⟩ := ihl (hless _ hbl hwl _ _ _ _ _ _ rfl) rfl hdl₁ hwl hln
        exact ⟨t', h1, h2, h4⟩
    refine ⟨t₂, ?_, hf₂.trans hf₁, ha₂, fun x hx => ?_⟩
    · rw [clearNode_eq ha]
      show (Option.bind (match r.ptr with
        | none => some t
        | some k => (t.clearNode fuel k).bind fun t =>
            (t.delete k).modify a (·.setKid true none)) _) = _
      rw [hrun₁, Option.bind_some, ha₁, Option.bind_some]
      exact hrun₂
    · have hxa : x ≠ a := by
        rintro rfl
        exact hx mem_cons_self
      have hxl : x ∉ l.addrs := fun h => hx (mem_cons_of_mem a (mem_append_left _ h))
      have hxr : x ∉ r.addrs := fun h => hx (mem_cons_of_mem a (mem_append_right _ h))
      exact (hsame₂ x hxa hxl).trans (hsame₁ x hxa hxr)

/-- `clear` leaves the head alone. -/
theorem clear_spec {t : Trie w V} {s : Tree w V} (hh : Holds t s) :
    ∃ t', t.clear = some t' ∧ Holds t' (.node head 0 0 none .nil .nil) := by
  obtain ⟨v, l, r, rfl⟩ := hh.root
  obtain ⟨t', hrun, hf, hhead, _⟩ := clearNode_spec hh.draws hh.wf hh.nodup
    (show w - 0 < w + 1 by omega)
  have hv : v = none := by
    cases v with
    | none => rfl
    | some x =>
      have hpos : 0 < 0 := hh.positive ⟨head, 0, 0, x⟩ (mem_entries.mpr (.inl ⟨x, rfl, rfl⟩))
      exact absurd hpos (Nat.lt_irrefl 0)
  subst hv
  refine ⟨t', hrun, ⟨⟨hhead, trivial, trivial⟩, rfl, by simp [Tree.addrs], fun x hx => ?_, ?_,
    fun e he => absurd he not_mem_nil⟩⟩
  · obtain rfl : x = head := by simpa [Tree.addrs] using hx
    rw [hf]
    exact hh.below head mem_cons_self
  · exact ⟨hh.wf.1, hh.wf.2.1, trivial, trivial, trivial, trivial, trivial⟩

/-! ## Runs -/

/-- The calls a user makes, and what has been inserted and not removed since.  `lookup` changes
    nothing; a handle is removed that is still out. -/
inductive Run : Trie w V → List (Entry w V) → Prop
  | init : Run .empty []
  | insert {t t' : Trie w V} {es : List (Entry w V)} {key : BitVec w} {width : Nat} {val : V}
      {h : Nat} : Run t es → 1 ≤ width → width ≤ w → t.insert key width val = some (t', h) →
      Run t' (⟨h, key &&& maskOf w width, width, val⟩ :: es)
  | remove {t t' : Trie w V} {es : List (Entry w V)} {e : Entry w V} {val : Option V} : Run t es →
      e ∈ es → t.removeHandle e.handle = some (t', val) → Run t' (es.filter (·.handle ≠ e.handle))
  | clear {t t' : Trie w V} {es : List (Entry w V)} : Run t es → t.clear = some t' → Run t' []

/-- Removing by handle removes one entry. -/
theorem filter_handle {e : Entry w V} {es es' : List (Entry w V)} (h : es.Perm (e :: es'))
    (hnd : (es.map Entry.handle).Nodup) : (es.filter (·.handle ≠ e.handle)).Perm es' := by
  have hnd' := nodup_cons.mp ((h.map Entry.handle).nodup_iff.mp hnd)
  refine (h.filter _).trans ?_
  rw [filter_cons_of_neg (by simp), filter_eq_self.mpr fun e' he' => ?_]
  refine decide_eq_true fun heq => hnd'.1 ?_
  rw [← heq]
  exact mem_map_of_mem he'

theorem run_holds (hw : 0 < w) {t : Trie w V} {es : List (Entry w V)} (h : Run t es) :
    ∃ s, Holds t s ∧ s.entries.Perm es := by
  induction h with
  | init => exact ⟨_, holds_empty, Perm.refl _⟩
  | @insert t t' es key width val h hrun hpos hle hins ih =>
    obtain ⟨s, hh, hperm⟩ := ih
    rcases insert_spec hw hh key hpos hle val with ⟨hnone, _⟩ | ⟨_, t₁, h₁, s', hsome, hh', hperm'⟩
    · rw [hnone] at hins
      exact nomatch hins
    · rw [hsome] at hins
      obtain ⟨rfl, rfl⟩ := Prod.mk.inj (Option.some.inj hins)
      exact ⟨s', hh', hperm'.trans (hperm.cons _)⟩
  | @remove t t' es e val hrun he hrem ih =>
    obtain ⟨s, hh, hperm⟩ := ih
    obtain ⟨t₁, s', hsome, hgone⟩ := remove_spec hw hh (hperm.mem_iff.mpr he)
    rw [hsome] at hrem
    obtain ⟨rfl, _⟩ := Prod.mk.inj (Option.some.inj hrem)
    have hnd := (hperm.map Entry.handle).nodup_iff.mp (handles_nodup hh.nodup)
    exact ⟨s', hgone.holds, (filter_handle (hperm.symm.trans hgone.entries) hnd).symm⟩
  | @clear t t' es hrun hclear ih =>
    obtain ⟨s, hh, _⟩ := ih
    obtain ⟨t₁, hsome, hh'⟩ := clear_spec hh
    rw [hsome] at hclear
    obtain rfl := Option.some.inj hclear
    exact ⟨_, hh', Perm.refl _⟩

/-- `lookup` finds the value of the shortest stored prefix. -/
theorem lookup_spec {t : Trie w V} {s : Tree w V} (hh : Holds t s) (key : BitVec w) :
    (∃ e ∈ s.entries, e.Matches key ∧ (∀ e' ∈ s.entries, e'.Matches key → e.width ≤ e'.width) ∧
      t.lookup key = some (some e.val)) ∨
    (∀ e ∈ s.entries, ¬ e.Matches key) ∧ t.lookup key = some none := by
  obtain ⟨v, l, r, rfl⟩ := hh.root
  obtain ⟨res, hres, hsm⟩ := lookupFrom_spec hh.draws hh.wf (agree_zero key 0)
    (show w - 0 < w + 1 by omega)
  have hhandle : t.lookupHandle key = some res := hres
  cases res with
  | none => exact .inr ⟨hsm, by simp [Trie.lookup, hhandle]⟩
  | some h =>
    obtain ⟨e, he, rfl, hm, hmin⟩ := hsm
    obtain ⟨n, hn, _, _, hval⟩ := draws_entry hh.draws he
    exact .inl ⟨e, he, hm, hmin, by simp [Trie.lookup, hhandle, hn, hval]⟩

/-- The trie is an exact prefix map: after any calls, for the list of what has been inserted and not
    removed. -/
theorem trie_is_prefix_map (hw : 0 < w) {t : Trie w V} {es : List (Entry w V)} (h : Run t es) :
    (∀ (key : BitVec w) (width : Nat) (val : V), 1 ≤ width → width ≤ w →
      ((t.insert key width val).isSome ↔
        ∀ e ∈ es, ¬ (e.key = key &&& maskOf w width ∧ e.width = width))) ∧
    (∀ key : BitVec w, (∃ e ∈ es, e.Matches key ∧ (∀ e' ∈ es, e'.Matches key → e.width ≤ e'.width) ∧
        t.lookup key = some (some e.val)) ∨
      (∀ e ∈ es, ¬ e.Matches key) ∧ t.lookup key = some none) ∧
    (∀ e ∈ es, ∃ t', t.removeHandle e.handle = some (t', some e.val)) ∧
    (∃ t', t.clear = some t') ∧
    (∀ e ∈ es, ∃ n, t.heap e.handle = some n ∧ n.key = e.key ∧ n.mask = maskOf w e.width ∧
      n.value = some e.val) ∧
    (es.map Entry.handle).Nodup := by
  obtain ⟨s, hh, hperm⟩ := run_holds hw h
  refine ⟨fun key width val hpos hle => ?_, fun key => ?_, fun e he => ?_, ?_, fun e he => ?_, ?_⟩
  · rcases insert_spec hw hh key hpos hle val with
      ⟨hnone, e, he, hdup⟩ | ⟨hfree, t', h', s', hsome, _⟩
    · rw [hnone]
      exact ⟨nofun, fun hall => absurd hdup (hall e (hperm.mem_iff.mp he))⟩
    · rw [hsome]
      exact ⟨fun _ e he => hfree e (hperm.mem_iff.mpr he), fun _ => rfl⟩
  · rcases lookup_spec hh key with ⟨e, he, hm, hmin, hrun⟩ | ⟨hnone, hrun⟩
    · exact .inl ⟨e, hperm.mem_iff.mp he, hm, fun e' he' => hmin e' (hperm.mem_iff.mpr he'), hrun⟩
    · exact .inr ⟨fun e he => hnone e (hperm.mem_iff.mpr he), hrun⟩
  · obtain ⟨t', _, hrun, _⟩ := remove_spec hw hh (hperm.mem_iff.mpr he)
    exact ⟨t', hrun⟩
  · obtain ⟨t', hrun, _⟩ := clear_spec hh
    exact ⟨t', hrun⟩
  · exact draws_entry hh.draws (hperm.mem_iff.mpr he)
  · exact (hperm.map Entry.handle).nodup_iff.mp (handles_nodup hh.nodup)

/-- `0100` and `0110`, which share a node without a value, then all of `0...`, and `0110` removed: the
    trie and the three handles. -/
def grown : Option (Trie 4 Nat × Nat × Nat × Nat) :=
  ((Trie.empty : Trie 4 Nat).insert 0b0100#4 4 7).bind fun (t, a) =>
    (t.insert 0b0110#4 4 8).bind fun (t, b) => (t.insert 0b0000#4 1 9).bind fun (t, c) =>
      (t.removeHandle b).map fun (t, _) => (t, a, b, c)

theorem run_grown :
    ∃ t : Trie 4 Nat, Run t [⟨4, 0b0000#4, 1, 9⟩, ⟨1, 0b0100#4, 4, 7⟩] := by
  have hhandles : grown.map Prod.snd = some (1, 3, 4) := by decide
  obtain ⟨⟨t, a, b, c⟩, hgrown, hsnd⟩ := Option.map_eq_some_iff.mp hhandles
  cases hsnd
  obtain ⟨⟨t₁, _⟩, h₁, hgrown⟩ := Option.bind_eq_some_iff.mp hgrown
  obtain ⟨⟨t₂, _⟩, h₂, hgrown⟩ := Option.bind_eq_some_iff.mp hgrown
  obtain ⟨⟨t₃, _⟩, h₃, hgrown⟩ := Option.bind_eq_some_iff.mp hgrown
  obtain ⟨⟨t₄, _⟩, h₄, heq⟩ := Option.map_eq_some_iff.mp hgrown
  cases heq
  have hrun := ((Run.init.insert (by decide) (by decide) h₁).insert (by decide) (by decide) h₂).insert
    (by decide) (by decide) h₃
  exact ⟨t, hrun.remove (e := ⟨3, 0b0110#4, 4, 8⟩) (mem_cons_of_mem _ mem_cons_self) h₄⟩

/-- `0...` hides `0100`, cannot be inserted again, and the removed `0110` can. -/
theorem trie_is_prefix_map_four_bits : ∃ t : Trie 4 Nat,
    Run t [⟨4, 0b0000#4, 1, 9⟩, ⟨1, 0b0100#4, 4, 7⟩] ∧ t.lookup 0b0100#4 = some (some 9) ∧
      t.lookup 0b1000#4 = some none ∧ ¬ (t.insert 0b0111#4 1 5).isSome ∧
      (t.insert 0b0110#4 4 5).isSome ∧ ∃ t', t.removeHandle 1 = some (t', some 7) := by
  obtain ⟨t, hrun⟩ := run_grown
  obtain ⟨hinsert, hlookup, hremove, _, _, _⟩ := trie_is_prefix_map (by decide) hrun
  refine ⟨t, hrun, ?_, ?_, fun hdup => ?_, ?_, hremove _ (mem_cons_of_mem _ mem_cons_self)⟩
  · rcases hlookup 0b0100#4 with ⟨e, he, _, hmin, hfound⟩ | ⟨hnone, _⟩
    · rcases mem_pair.mp he with rfl | rfl
      · exact hfound
      · exact absurd (hmin _ mem_cons_self (by decide)) (by decide)
    · exact absurd (by decide) (hnone _ mem_cons_self)
  · rcases hlookup 0b1000#4 with ⟨e, he, hmatches, _⟩ | ⟨_, hnone⟩
    · rcases mem_pair.mp he with rfl | rfl <;> exact absurd hmatches (by decide)
    · exact hnone
  · exact (hinsert 0b0111#4 1 5 (by decide) (by decide)).mp hdup _ mem_cons_self ⟨by decide, rfl⟩
  · refine (hinsert 0b0110#4 4 5 (by decide) (by decide)).mpr fun e he => ?_
    rcases mem_pair.mp he with rfl | rfl <;> decide

/-! ## Size -/

theorem addrs_pos {s : Tree w V} (h : s ≠ .nil) : 0 < s.addrs.length := by
  cases s with
  | nil => exact absurd rfl h
  | node => exact Nat.succ_pos _

/-- Below the root there are fewer nodes without a value than with one. -/
theorem Below.compact {k : BitVec w} {n : Nat} {s : Tree w V} (hb : Below k n s)
    (hwf : WellFormed s) : s.addrs.length + min 1 s.addrs.length ≤ 2 * s.entries.length := by
  induction s generalizing k n with
  | nil => exact Nat.le_refl 0
  | node a k' n' v l r ihl ihr =>
    obtain ⟨_, _, hfull⟩ := hb
    obtain ⟨_, _, hbl, hbr, _, hwl, hwr⟩ := hwf
    have hl := ihl hbl hwl
    have hr := ihr hbr hwr
    cases v with
    | none =>
      have hlpos := addrs_pos (hfull rfl).1
      have hrpos := addrs_pos (hfull rfl).2
      simp [Tree.addrs, Tree.entries]
      omega
    | some x =>
      simp [Tree.addrs, Tree.entries]
      omega

/-- After any calls the trie has at most two nodes for each stored value, and the root. -/
theorem trie_is_compact (hw : 0 < w) {t : Trie w V} {es : List (Entry w V)} (h : Run t es) :
    ∃ s, Holds t s ∧ s.entries.Perm es ∧ s.addrs.length ≤ 2 * es.length + 1 := by
  obtain ⟨s, hh, hperm⟩ := run_holds hw h
  refine ⟨s, hh, hperm, ?_⟩
  obtain ⟨v, l, r, rfl⟩ := hh.root
  obtain ⟨_, _, hbl, hbr, _, hwl, hwr⟩ := hh.wf
  have hl := hbl.compact hwl
  have hr := hbr.compact hwr
  rw [← hperm.length_eq]
  simp [Tree.addrs, Tree.entries]
  omega

/-- The two entries of the example, in at most five nodes. -/
theorem trie_is_compact_grown : ∃ (t : Trie 4 Nat) (s : Tree 4 Nat),
    Run t [⟨4, 0b0000#4, 1, 9⟩, ⟨1, 0b0100#4, 4, 7⟩] ∧ Holds t s ∧ s.entries.length = 2 ∧
      s.addrs.length ≤ 5 := by
  obtain ⟨t, hrun⟩ := run_grown
  obtain ⟨s, hh, hperm, hle⟩ := trie_is_compact (by decide) hrun
  exact ⟨t, s, hrun, hh, hperm.length_eq, hle⟩

end Gem5Dvr.PrefixTrie
