/-
  The prefix trie of `base/trie.hh`.

    1. The nodes in memory and the operations on them, pointer by pointer.  A key is `MaxBits` bits
       wide; a null or freed pointer that is followed, an assertion and a panic leave no result.
    2. The tree the pointers draw (`Tree`, `Draws`) and where a node stands in it (`Ctx`).  A change
       below one node leaves the rest drawn as it was (`draws_plug`).
    3. `WellFormed`: below a node the keys extend its prefix, its two kids part at the next bit, and
       a node without a value has two kids, the root apart.

  The loops are run with as much fuel as a key has bits, and one; `Gem5Dvr.TrieMap` shows that they
  never use it up.
-/
import Mathlib.Logic.Function.Basic
import Mathlib.Data.List.Perm.Basic
import Mathlib.Data.List.Nodup
import Gem5Dvr.Lib.BitPrefix

namespace Gem5Dvr.PrefixTrie

open List

open BitPrefix

variable {w : Nat} {V : Type}

/-- `Trie::Node`.  `value` is `none` for the NULL that marks an internal node. -/
structure Node (w : Nat) (V : Type) where
  key : BitVec w
  mask : BitVec w
  value : Option V
  parent : Option Nat
  kids0 : Option Nat
  kids1 : Option Nat

/-- The memory of a `Trie`: its nodes by address, and the next address `new` returns. -/
structure Trie (w : Nat) (V : Type) where
  heap : Nat → Option (Node w V)
  fresh : Nat

namespace Node

/-- `Node(_key, _mask, _val)`. -/
def make (key mask : BitVec w) (val : Option V) (parent : Option Nat) : Node w V :=
  ⟨key &&& mask, mask, val, parent, none, none⟩

/-- `matches(test)`. -/
def «matches» (n : Node w V) (test : BitVec w) : Bool := test &&& n.mask == n.key

/-- `kids[i]`. -/
def kid (n : Node w V) (i : Bool) : Option Nat := if i then n.kids1 else n.kids0

def setKid (n : Node w V) (i : Bool) (a : Option Nat) : Node w V :=
  if i then { n with kids1 := a } else { n with kids0 := a }

end Node

/-- The address of the member `head`. -/
def head : Nat := 0

namespace Trie

/-- `Trie()`. -/
def empty : Trie w V :=
  ⟨Function.update (fun _ => none) head (some (Node.make 0 0 none none)), head + 1⟩

/-- Change the node at an address, if there is one. -/
def modify (t : Trie w V) (a : Nat) (f : Node w V → Node w V) : Option (Trie w V) :=
  (t.heap a).map fun n => { t with heap := Function.update t.heap a (some (f n)) }

/-- `new Node(...)`. -/
def alloc (t : Trie w V) (n : Node w V) : Trie w V × Nat :=
  (⟨Function.update t.heap t.fresh (some n), t.fresh + 1⟩, t.fresh)

/-- `delete node`. -/
def delete (t : Trie w V) (a : Nat) : Trie w V := { t with heap := Function.update t.heap a none }

/-! ## Lookup -/

/-- `kids[i] && kids[i]->matches(key)`: the kid, if so. -/
def kidMatching (t : Trie w V) (kid : Option Nat) (key : BitVec w) : Option (Option Nat) :=
  match kid with
  | none => some none
  | some a => do
    let k ← t.heap a
    return if k.matches key then some a else none

/-- `lookupHandle` from a node on. -/
def lookupFrom (t : Trie w V) (key : BitVec w) : Nat → Nat → Option (Option Nat)
  | 0, _ => none
  | fuel + 1, node => do
    let n ← t.heap node
    if n.value.isSome then return some node
    match ← t.kidMatching n.kids0 key with
    | some a => lookupFrom t key fuel a
    | none =>
      match ← t.kidMatching n.kids1 key with
      | some a => lookupFrom t key fuel a
      | none => return none

def lookupHandle (t : Trie w V) (key : BitVec w) : Option (Option Nat) :=
  t.lookupFrom key (w + 1) head

def lookup (t : Trie w V) (key : BitVec w) : Option (Option V) := do
  match ← t.lookupHandle key with
  | some node => do
    let n ← t.heap node
    return n.value
  | none => return none

/-! ## Insertion -/

/-- `goesAfter`: the kid to advance to, if the key lies at or beyond it. -/
def goesAfter (t : Trie w V) (kid : Option Nat) (key new_mask : BitVec w) : Option (Option Nat) :=
  match kid with
  | none => some none
  | some a => do
    let k ← t.heap a
    return if k.matches key && (k.mask &&& new_mask == k.mask) then some a else none

def extendMask (orig : BitVec w) : BitVec w := orig ||| orig >>> 1 ||| 1#w <<< (w - 1)

/-- The loop of `insert` past all the nodes the new one goes after. -/
def walk (t : Trie w V) (key new_mask : BitVec w) : Nat → Nat → Option Nat
  | 0, _ => none
  | fuel + 1, node => do
    let n ← t.heap node
    match ← t.goesAfter n.kids0 key new_mask with
    | some a => walk t key new_mask fuel a
    | none =>
      match ← t.goesAfter n.kids1 key new_mask with
      | some a => walk t key new_mask fuel a
      | none => return node

/-- The loop of `insert` down a leg, until something doesn't match or the bits run out; the mask
    before that. -/
def legMask (key kidKey new_mask : BitVec w) : Nat → BitVec w → Option (BitVec w)
  | 0, _ => none
  | fuel + 1, cur_mask =>
    let next := extendMask cur_mask
    if key &&& next ≠ kidKey &&& next ∨ cur_mask = new_mask then some cur_mask
    else legMask key kidKey new_mask fuel next

/-- One iteration of the loop of `insert` over the two kids; an inner `none` is `continue`. -/
def insertKid (t : Trie w V) (node : Nat) (i : Bool) (key new_mask : BitVec w) (val : V) :
    Option (Option (Trie w V × Nat)) := do
  let n ← t.heap node
  match n.kid i with
  | none =>
    let (t, new_node) := t.alloc (.make key new_mask (some val) (some node))
    let t ← t.modify node (·.setKid i (some new_node))
    return some (t, new_node)
  | some kid => do
    let k ← t.heap kid
    let cur_mask ← legMask key k.key new_mask (w + 1) n.mask
    if cur_mask = n.mask then return none
    let (t, new_node) := t.alloc (.make key cur_mask none (some node))
    let t ← t.modify kid fun k => { k with parent := some new_node }
    let t ← t.modify new_node (·.setKid false (some kid))
    let t ← t.modify node (·.setKid i (some new_node))
    if cur_mask = new_mask then
      let t ← t.modify new_node fun n => { n with value := some val }
      return some (t, new_node)
    let (t, leaf) := t.alloc (.make key new_mask (some val) (some new_node))
    let t ← t.modify new_node (·.setKid true (some leaf))
    return some (t, leaf)

/-- The rest of `insert`, at the node the walk ended on. -/
def insertAt (t : Trie w V) (node : Nat) (key new_mask : BitVec w) (val : V) :
    Option (Trie w V × Nat) := do
  let n ← t.heap node
  if n.mask = new_mask then
    -- `assert(!node->value)`
    if n.value.isSome then none
    let t ← t.modify node fun n => { n with value := some val }
    return (t, node)
  match ← t.insertKid node false key new_mask val with
  | some r => return r
  | none =>
    match ← t.insertKid node true key new_mask val with
    | some r => return r
    | none => none

def insert (t : Trie w V) (key : BitVec w) (width : Nat) (val : V) : Option (Trie w V × Nat) := do
  let new_mask := if width < w then BitVec.allOnes w <<< (w - width) else BitVec.allOnes w
  let key := key &&& new_mask
  let node ← t.walk key new_mask (w + 1) head
  t.insertAt node key new_mask val

/-! ## Removal -/

/-- The pointers that bypass `node`: its kid's parent and its parent's kid. -/
def bypass (t : Trie w V) (node parent : Nat) (kid : Option Nat) : Option (Trie w V) := do
  let t ← match kid with
    | some k => t.modify k fun k => { k with parent := some parent }
    | none => some t
  let p ← t.heap parent
  if p.kids0 = some node then t.modify parent (·.setKid false kid)
  else if p.kids1 = some node then t.modify parent (·.setKid true kid)
  else none

/-- Make sure if the parent only has one kid, it's `kids[0]`. -/
def normalize (t : Trie w V) (parent : Nat) : Option (Trie w V) := do
  let p ← t.heap parent
  if p.kids1.isSome && p.kids0.isNone then
    t.modify parent fun p => { p with kids0 := p.kids1, kids1 := none }
  else some t

/-- `remove(handle)`. -/
def remove (t : Trie w V) : Nat → Nat → Option (Trie w V × Option V)
  | 0, _ => none
  | fuel + 1, node => do
    let n ← t.heap node
    if n.kids1.isSome then
      if n.value.isNone then none
      let t ← t.modify node fun n => { n with value := none }
      return (t, n.value)
    let parent ← n.parent
    let t ← t.bypass node parent n.kids0
    let t ← t.normalize parent
    let p ← t.heap parent
    let t ← if p.kids1.isNone && p.value.isNone && p.parent.isSome then
        (t.remove fuel parent).map Prod.fst
      else some t
    return (t.delete node, n.value)

/-- `remove(handle)` as it is called from outside. -/
def removeHandle (t : Trie w V) (handle : Nat) : Option (Trie w V × Option V) :=
  t.remove (w + 1) handle

/-! ## Clearing -/

/-- `Node::clear`: clear and delete the second kid, then the first. -/
def clearNode (t : Trie w V) : Nat → Nat → Option (Trie w V)
  | 0, _ => none
  | fuel + 1, node => do
    let n ← t.heap node
    let t ← match n.kids1 with
      | none => some t
      | some k => do
        let t ← clearNode t fuel k
        (t.delete k).modify node (·.setKid true none)
    let n ← t.heap node
    match n.kids0 with
      | none => some t
      | some k => do
        let t ← clearNode t fuel k
        (t.delete k).modify node (·.setKid false none)

def clear (t : Trie w V) : Option (Trie w V) := t.clearNode (w + 1) head

end Trie

/-! ## The tree the pointers draw -/

/-- A node with its address, its key, the width of its mask and its value, and its two kids. -/
inductive Tree (w : Nat) (V : Type)
  | nil
  | node (a : Nat) (key : BitVec w) (width : Nat) (value : Option V) (kid0 kid1 : Tree w V)

/-- What a caller knows of a stored value: its handle, the masked key, the width, the value. -/
structure Entry (w : Nat) (V : Type) where
  handle : Nat
  key : BitVec w
  width : Nat
  val : V

namespace Tree

/-- The pointer to a tree. -/
def ptr : Tree w V → Option Nat
  | nil => none
  | node a .. => some a

/-- The address, the key and the width of the root. -/
def site : Tree w V → Option (Nat × BitVec w × Nat)
  | nil => none
  | node a k n .. => some (a, k, n)

def addrs : Tree w V → List Nat
  | nil => []
  | node a _ _ _ l r => a :: (l.addrs ++ r.addrs)

/-- The values stored in a tree. -/
def entries : Tree w V → List (Entry w V)
  | nil => []
  | node a k n v l r => (v.map fun x => ⟨a, k, n, x⟩).toList ++ (l.entries ++ r.entries)

/-- The node with `t` for kid `i` and `sib` for the other. -/
def join (a : Nat) (k : BitVec w) (n : Nat) (v : Option V) (i : Bool) (t sib : Tree w V) :
    Tree w V :=
  if i then node a k n v sib t else node a k n v t sib

end Tree

open PrefixTrie.Tree

/-- The memory holds the tree, under the given parent. -/
def Draws (heap : Nat → Option (Node w V)) : Option Nat → Tree w V → Prop
  | _, .nil => True
  | p, .node a k n v l r => heap a = some ⟨k, maskOf w n, v, p, l.ptr, r.ptr⟩ ∧
      Draws heap (some a) l ∧ Draws heap (some a) r

/-- Where a subtree stands: the nodes above it, each with its other kid. -/
inductive Ctx (w : Nat) (V : Type)
  | top
  | kid (a : Nat) (key : BitVec w) (width : Nat) (value : Option V) (i : Bool) (sib : Tree w V)
      (above : Ctx w V)

namespace Ctx

def plug : Ctx w V → Tree w V → Tree w V
  | top, t => t
  | kid a k n v i sib c, t => c.plug (join a k n v i t sib)

/-- The node above the hole. -/
def parent : Ctx w V → Option Nat
  | top => none
  | kid a .. => some a

def addrs : Ctx w V → List Nat
  | top => []
  | kid a _ _ _ _ sib c => a :: (sib.addrs ++ c.addrs)

def entries : Ctx w V → List (Entry w V)
  | top => []
  | kid a k n v _ sib c => (v.map fun x => ⟨a, k, n, x⟩).toList ++ (sib.entries ++ c.entries)

/-- A context within a context. -/
def append : Ctx w V → Ctx w V → Ctx w V
  | top, c => c
  | kid a k n v i sib b, c => kid a k n v i sib (b.append c)

end Ctx

open Ctx

/-! ### Reading it -/

@[simp] theorem ptr_nil : (Tree.nil : Tree w V).ptr = none := rfl

@[simp] theorem ptr_node (a : Nat) (k : BitVec w) (n : Nat) (v : Option V) (l r : Tree w V) :
    (Tree.node a k n v l r).ptr = some a := rfl

theorem ptr_join (a : Nat) (k : BitVec w) (n : Nat) (v : Option V) (i : Bool) (t sib : Tree w V) :
    (join a k n v i t sib).ptr = some a := by
  cases i <;> rfl

theorem site_join (a : Nat) (k : BitVec w) (n : Nat) (v : Option V) (i : Bool) (t sib : Tree w V) :
    (join a k n v i t sib).site = some (a, k, n) := by
  cases i <;> rfl

theorem ptr_of_site {t t' : Tree w V} (h : t'.site = t.site) : t'.ptr = t.ptr := by
  cases t with
  | nil =>
    cases t' with
    | nil => rfl
    | node a k n v l r => exact nomatch h
  | node a k n v l r =>
    cases t' with
    | nil => exact nomatch h
    | node a' k' n' v' l' r' => exact congrArg (Option.map Prod.fst) h

theorem addrs_join (a : Nat) (k : BitVec w) (n : Nat) (v : Option V) (i : Bool) (t sib : Tree w V) :
    (join a k n v i t sib).addrs.Perm (a :: (t.addrs ++ sib.addrs)) := by
  cases i with
  | false => exact Perm.refl _
  | true => exact perm_append_comm.cons a

theorem entries_join (a : Nat) (k : BitVec w) (n : Nat) (v : Option V) (i : Bool)
    (t sib : Tree w V) :
    (join a k n v i t sib).entries.Perm
      ((v.map fun x => ⟨a, k, n, x⟩).toList ++ (t.entries ++ sib.entries)) := by
  cases i with
  | false => exact Perm.refl _
  | true => exact perm_append_comm.append_left _

variable {a n : Nat} {i : Bool}

theorem draws_join {heap : Nat → Option (Node w V)} {p : Option Nat} {k : BitVec w}
    {v : Option V} {t sib : Tree w V} :
    Draws heap p (join a k n v i t sib) ↔
      heap a = some ⟨k, maskOf w n, v, p, (if i then sib else t).ptr, (if i then t else sib).ptr⟩ ∧
      Draws heap (some a) t ∧ Draws heap (some a) sib := by
  cases i with
  | false => exact Iff.rfl
  | true =>
    constructor
    · rintro ⟨h, hs, ht⟩
      exact ⟨h, ht, hs⟩
    · rintro ⟨h, ht, hs⟩
      exact ⟨h, hs, ht⟩

theorem addrs_plug (c : Ctx w V) (t : Tree w V) : (c.plug t).addrs.Perm (t.addrs ++ c.addrs) := by
  induction c generalizing t with
  | top =>
    rw [Ctx.addrs, append_nil]
    exact Perm.refl _
  | kid a k n v i sib c ih =>
    refine (ih _).trans (((addrs_join a k n v i t sib).append_right _).trans ?_)
    show (a :: (t.addrs ++ sib.addrs) ++ c.addrs).Perm (t.addrs ++ a :: (sib.addrs ++ c.addrs))
    rw [cons_append, append_assoc]
    exact perm_middle.symm

theorem entries_plug (c : Ctx w V) (t : Tree w V) :
    (c.plug t).entries.Perm (t.entries ++ c.entries) := by
  induction c generalizing t with
  | top =>
    rw [Ctx.entries, append_nil]
    exact Perm.refl _
  | kid a k n v i sib c ih =>
    refine (ih _).trans (((entries_join a k n v i t sib).append_right _).trans ?_)
    show ((v.map fun x => Entry.mk a k n x).toList ++ (t.entries ++ sib.entries) ++ c.entries).Perm
      (t.entries ++ ((v.map fun x => Entry.mk a k n x).toList ++ (sib.entries ++ c.entries)))
    rw [append_assoc, append_assoc]
    exact perm_append_comm_assoc _ _ _

theorem plug_append (b c : Ctx w V) (t : Tree w V) : (b.append c).plug t = c.plug (b.plug t) := by
  induction b generalizing t with
  | top => rfl
  | kid a k n v i sib b ih => exact ih _

theorem site_plug (c : Ctx w V) {t t' : Tree w V} (h : t'.site = t.site) :
    (c.plug t').site = (c.plug t).site := by
  induction c generalizing t t' with
  | top => exact h
  | kid a k n v i sib c ih => exact ih (by rw [site_join, site_join])

/-- Memory that has not changed at the nodes of a tree still holds it. -/
theorem draws_congr {heap heap' : Nat → Option (Node w V)} {p : Option Nat} {t : Tree w V}
    (h : Draws heap p t) (hsame : ∀ b ∈ t.addrs, heap' b = heap b) : Draws heap' p t := by
  induction t generalizing p with
  | nil => trivial
  | node a k n v l r ihl ihr =>
    obtain ⟨hn, hl, hr⟩ := h
    refine ⟨?_, ihl hl fun b hb => ?_, ihr hr fun b hb => ?_⟩
    · rw [hsame a mem_cons_self, hn]
    · exact hsame b (mem_cons_of_mem a (mem_append_left _ hb))
    · exact hsame b (mem_cons_of_mem a (mem_append_right _ hb))

/-- The memory of the whole holds the part. -/
theorem draws_of_plug {heap : Nat → Option (Node w V)} {c : Ctx w V} {t : Tree w V}
    (h : Draws heap none (c.plug t)) : Draws heap c.parent t := by
  induction c generalizing t with
  | top => exact h
  | kid a k n v i sib c ih => exact (draws_join.mp (ih h)).2.1

/-- A change below one node leaves the rest drawn as it was. -/
theorem draws_plug {heap heap' : Nat → Option (Node w V)} {c : Ctx w V} {t t' : Tree w V}
    (h : Draws heap none (c.plug t)) (ht' : Draws heap' c.parent t') (hptr : t'.ptr = t.ptr)
    (hsame : ∀ b ∈ c.addrs, heap' b = heap b) : Draws heap' none (c.plug t') := by
  induction c generalizing t t' with
  | top => exact ht'
  | kid a k n v i sib c ih =>
    obtain ⟨hn, _, hsib⟩ := draws_join.mp (draws_of_plug (c := c) h)
    refine ih (t := join a k n v i t sib) h (draws_join.mpr ⟨?_, ht', ?_⟩) ?_ fun b hb => ?_
    · rw [hsame a mem_cons_self, hn]
      cases i
      · show some (Node.mk k _ v c.parent t.ptr sib.ptr) =
          some (Node.mk k _ v c.parent t'.ptr sib.ptr)
        rw [hptr]
      · show some (Node.mk k _ v c.parent sib.ptr t.ptr) =
          some (Node.mk k _ v c.parent sib.ptr t'.ptr)
        rw [hptr]
    · exact draws_congr hsib fun b hb =>
        hsame b (mem_cons_of_mem a (mem_append_left _ hb))
    · rw [ptr_join, ptr_join]
    · exact hsame b (mem_cons_of_mem a (mem_append_right _ hb))

/-! ## Well-formed trees -/

/-- Below a node of key `k` and width `n`: a longer key that extends it, and no internal node with a
    kid missing. -/
def Below (k : BitVec w) (n : Nat) : Tree w V → Prop
  | .nil => True
  | .node _ k' n' v l r => n < n' ∧ Agree n k' k ∧ (v = none → l ≠ .nil ∧ r ≠ .nil)

/-- Two kids part at the next bit, and a single kid is the first. -/
def Parted (n : Nat) : Tree w V → Tree w V → Prop
  | _, .nil => True
  | .nil, .node .. => False
  | .node _ k₀ .., .node _ k₁ .. => k₀.getMsbD n ≠ k₁.getMsbD n

def WellFormed : Tree w V → Prop
  | .nil => True
  | .node _ k n _ l r => n ≤ w ∧ k &&& maskOf w n = k ∧ Below k n l ∧ Below k n r ∧
      Parted n l r ∧ WellFormed l ∧ WellFormed r

/-- `t'` may stand where `t` does: the same prefix or one that extends it, and no kid lost. -/
def Fits : Tree w V → Tree w V → Prop
  | .node _ k n v l r, .node _ k' n' v' l' r' => n ≤ n' ∧ Agree n k' k ∧
      ((v = none → l ≠ .nil ∧ r ≠ .nil) → v' = none → l' ≠ .nil ∧ r' ≠ .nil)
  | _, _ => False

theorem wellFormed_join {k : BitVec w} {v : Option V}
    {t sib : Tree w V} : WellFormed (join a k n v i t sib) ↔ n ≤ w ∧ k &&& maskOf w n = k ∧
      Below k n t ∧ Below k n sib ∧ (if i then Parted n sib t else Parted n t sib) ∧
      WellFormed t ∧ WellFormed sib := by
  cases i with
  | false => exact Iff.rfl
  | true =>
    constructor
    · rintro ⟨h1, h2, h3, h4, h5, h6, h7⟩
      exact ⟨h1, h2, h4, h3, h5, h7, h6⟩
    · rintro ⟨h1, h2, h3, h4, h5, h6, h7⟩
      exact ⟨h1, h2, h4, h3, h5, h7, h6⟩

theorem Fits.below {k : BitVec w} {t t' : Tree w V} (hf : Fits t t') (h : Below k n t) :
    Below k n t' := by
  cases t with
  | nil => exact absurd hf id
  | node a k₁ n₁ v l r =>
    cases t' with
    | nil => exact absurd hf id
    | node a' k₂ n₂ v' l' r' =>
      obtain ⟨hle, hag, hfull⟩ := hf
      obtain ⟨hlt, hag', hfull'⟩ := h
      exact ⟨by omega, (hag.mono (by omega)).trans hag', hfull hfull'⟩

/-- What stands in for a kid parts from the other kid at the same bit. -/
theorem Fits.parted {k : BitVec w} {t t' sib : Tree w V} (hf : Fits t t')
    (hb : Below k n t) (h : if i then Parted n sib t else Parted n t sib) :
    if i then Parted n sib t' else Parted n t' sib := by
  cases t with
  | nil => exact absurd hf id
  | node a k₁ n₁ v l r =>
    cases t' with
    | nil => exact absurd hf id
    | node a' k₂ n₂ v' l' r' =>
      obtain ⟨hle, hag, _⟩ := hf
      have hbit : k₂.getMsbD n = k₁.getMsbD n := hag n hb.1
      cases sib with
      | nil =>
        cases i
        · trivial
        · exact h
      | node a'' k'' n'' v'' l'' r'' =>
        cases i
        · show k₂.getMsbD n ≠ k''.getMsbD n
          rw [hbit]
          exact h
        · show k''.getMsbD n ≠ k₂.getMsbD n
          rw [hbit]
          exact h

theorem Fits.ne_nil {t t' : Tree w V} (hf : Fits t t') : t' ≠ .nil := by
  cases t with
  | nil => exact absurd hf id
  | node a k₁ n₁ v l r =>
    cases t' with
    | nil => exact absurd hf id
    | node a' k₂ n₂ v' l' r' => nofun

theorem fits_join {k : BitVec w} {v : Option V} {t t' sib : Tree w V}
    (ht' : t' ≠ .nil) : Fits (join a k n v i t sib) (join a k n v i t' sib) := by
  cases i with
  | false => exact ⟨Nat.le_refl n, agree_refl n k, fun hfull hv => ⟨ht', (hfull hv).2⟩⟩
  | true => exact ⟨Nat.le_refl n, agree_refl n k, fun hfull hv => ⟨(hfull hv).1, ht'⟩⟩

theorem wellFormed_of_plug {c : Ctx w V} {t : Tree w V} (h : WellFormed (c.plug t)) :
    WellFormed t := by
  induction c generalizing t with
  | top => exact h
  | kid a k n v i sib c ih => exact (wellFormed_join.mp (ih h)).2.2.2.2.2.1

/-- A subtree may be replaced by a well-formed one that fits. -/
theorem wellFormed_plug {c : Ctx w V} {t t' : Tree w V} (h : WellFormed (c.plug t))
    (hwf : WellFormed t') (hf : Fits t t') : WellFormed (c.plug t') := by
  induction c generalizing t t' with
  | top => exact hwf
  | kid a k n v i sib c ih =>
    obtain ⟨h1, h2, h3, h4, h5, _, h7⟩ := wellFormed_join.mp (wellFormed_of_plug (c := c) h)
    exact ih h (wellFormed_join.mpr ⟨h1, h2, hf.below h3, h4, hf.parted h3 h5, hwf, h7⟩)
      (fits_join hf.ne_nil)

theorem mem_entries {k : BitVec w} {v : Option V} {l r : Tree w V}
    {e : Entry w V} : e ∈ (Tree.node a k n v l r).entries ↔
      (∃ x, v = some x ∧ e = ⟨a, k, n, x⟩) ∨ e ∈ l.entries ∨ e ∈ r.entries := by
  rw [Tree.entries, mem_append, mem_append]
  cases v with
  | none => simp
  | some x => simp

/-- Every value stored below a node has a longer key that extends the node's. -/
theorem entries_below {k : BitVec w} {t : Tree w V} (hb : Below k n t)
    (h : WellFormed t) : ∀ e ∈ t.entries, n < e.width ∧ e.width ≤ w ∧ Agree n e.key k ∧
      e.key &&& maskOf w e.width = e.key := by
  induction t generalizing k n with
  | nil => exact fun e he => absurd he not_mem_nil
  | node a k' n' v l r ihl ihr =>
    obtain ⟨hlt, hag, _⟩ := hb
    obtain ⟨hw, hk, hl, hr, _, hwl, hwr⟩ := h
    have hkid : ∀ e : Entry w V, n' < e.width → Agree n' e.key k' → n < e.width ∧ Agree n e.key k :=
      fun e h1 h2 => ⟨by omega, (h2.mono (Nat.le_of_lt hlt)).trans hag⟩
    intro e he
    rcases mem_entries.mp he with ⟨x, _, rfl⟩ | he | he
    · exact ⟨hlt, hw, hag, hk⟩
    · obtain ⟨h1, h2, h3, h4⟩ := ihl hl hwl e he
      exact ⟨(hkid e h1 h3).1, h2, (hkid e h1 h3).2, h4⟩
    · obtain ⟨h1, h2, h3, h4⟩ := ihr hr hwr e he
      exact ⟨(hkid e h1 h3).1, h2, (hkid e h1 h3).2, h4⟩

/-- The values of a node and below it. -/
theorem entries_extend {k : BitVec w} {v : Option V} {l r : Tree w V}
    (h : WellFormed (.node a k n v l r)) {e : Entry w V}
    (he : e ∈ (Tree.node a k n v l r).entries) : n ≤ e.width ∧ Agree n e.key k := by
  obtain ⟨_, _, hl, hr, _, hwl, hwr⟩ := h
  rcases mem_entries.mp he with ⟨x, _, rfl⟩ | he | he
  · exact ⟨Nat.le_refl n, agree_refl n k⟩
  · obtain ⟨h1, _, h3, _⟩ := entries_below hl hwl e he
    exact ⟨Nat.le_of_lt h1, h3⟩
  · obtain ⟨h1, _, h3, _⟩ := entries_below hr hwr e he
    exact ⟨Nat.le_of_lt h1, h3⟩

end Gem5Dvr.PrefixTrie
