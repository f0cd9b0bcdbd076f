/-
  The address map with its lookup cache (`base/addr_range_map.hh`).

    1. `AddrRangeMap`: a red-black tree of ranges ordered by start, and a most-recently-used list of
       iterators into it, at most `max_cache_size` long.  An iterator is the node it points at; one
       whose node is gone may not be dereferenced, and a step that does has no result.
    2. The tree search.  Stored ranges are disjoint, so it has two candidates: the first range that
       starts after the wanted one, and the last that does not (`treeSearch_eq`).
    3. `Inv`: disjoint ranges in order, every cached iterator live, the cache within its size.  Each
       operation keeps it, and with it the cache answers as the tree would (`find_spec`).
    4. A run with a cache against the run without one (`run_agrees`).

  The crux is `erase(p, q)`: its loop removes `p` from the cache once for every entry erased, and
  the other entries' iterators never.  `StepOk` is the condition under which no step leaves one
  behind.

  Reading of the C++ types: `end()` is `none`; the outer `Option` of a result is `none` where the
  code panics or follows a dead iterator.
-/
import Mathlib.Data.List.TakeWhile
import Gem5Dvr.AddrRange

namespace Gem5Dvr

/-- `operator<`: by start, then interleaved ranges first and by their match value. -/
def AddrRange.lt (s r : AddrRange) : Bool :=
  if s._start ≠ r._start then decide (s._start.toNat < r._start.toNat)
  else if s.interleaved && r.interleaved then decide (s.intlvMatch.toNat < r.intlvMatch.toNat)
  else s.interleaved

namespace AddrMap

/-- A node of the tree: the key, the value, and the node itself, which is what an iterator names. -/
structure Entry (V : Type) where
  node : Nat
  first : AddrRange
  second : V

/-- `AddrRangeMap`, the tree in its order.  `fresh` numbers the next node. -/
structure AddrRangeMap (V : Type) where
  tree : List (Entry V)
  cache : List Nat
  fresh : Nat

/-- The calls of the interface. -/
inductive Op (V : Type)
  | insert (r : AddrRange) (d : V)
  | erase (p : Nat)
  | eraseRange (p q : Option Nat)
  | clear
  | contains (r : AddrRange)
  | intersects (r : AddrRange)

variable {V : Type}

namespace AddrRangeMap

def empty : AddrRangeMap V := ⟨[], [], 0⟩

/-! ## The operations -/

/-- The node an iterator points at, if it is still there. -/
def deref (m : AddrRangeMap V) (it : Nat) : Option (Entry V) := m.tree.find? (·.node == it)

/-- `addNewEntryToCache`: a full cache overwrites its last element and moves it to the front. -/
def addNewEntryToCache (max_cache_size : Nat) (m : AddrRangeMap V) (it : Nat) : AddrRangeMap V :=
  if max_cache_size ≠ 0 then
    if max_cache_size ≤ m.cache.length then
      let overwritten := m.cache.dropLast
      if 1 < max_cache_size then { m with cache := it :: overwritten }
      else { m with cache := overwritten ++ [it] }
    else { m with cache := it :: m.cache }
  else m

/-- The first loop of `find`: the cached entry that satisfies the condition, and the cache with it
    promoted to the front.  `seen` are the iterators passed, latest first. -/
def findCached (cond : AddrRange → Option Bool) (m : AddrRangeMap V) :
    List Nat → List Nat → Option (Option (Nat × List Nat))
  | _, [] => some none
  | seen, it :: rest => do
    let e ← m.deref it
    if ← cond e.first then return some (it, it :: (seen.reverse ++ rest))
    findCached cond m (it :: seen) rest

/-- The second loop of `find`, over the entries before the upper bound, nearest first: keep looking
    while the next range merges with the current one. -/
def walkBack (cond : AddrRange → Option Bool) : List (Entry V) → Option (Option (Entry V))
  | [] => some none
  | i :: before => do
    if ← cond i.first then return some i
    match before with
    | [] => return none
    | next :: _ => if next.first.mergesWith i.first then walkBack cond before else return none

/-- `tree.upper_bound(r)`: the entries before it and the entries from it on. -/
def upperBound (m : AddrRangeMap V) (r : AddrRange) : List (Entry V) × List (Entry V) :=
  m.tree.span fun e => !r.lt e.first

/-- The search of `find` once the cache has been passed. -/
def treeSearch (m : AddrRangeMap V) (r : AddrRange) (cond : AddrRange → Option Bool) :
    Option (Option (Entry V)) := do
  let (before, from_) := m.upperBound r
  match from_ with
  | [] => walkBack cond before.reverse
  | next :: _ => if ← cond next.first then return some next else walkBack cond before.reverse

def find (max_cache_size : Nat) (m : AddrRangeMap V) (r : AddrRange)
    (cond : AddrRange → Option Bool) : Option (AddrRangeMap V × Option Nat) := do
  match ← findCached cond m [] m.cache with
  | some (it, cache) => return ({ m with cache := cache }, some it)
  | none =>
    match ← m.treeSearch r cond with
    | some e => return (addNewEntryToCache max_cache_size m e.node, some e.node)
    | none => return (m, none)

def contains (max_cache_size : Nat) (m : AddrRangeMap V) (r : AddrRange) :=
  m.find max_cache_size r fun r1 => r.isSubset r1

def intersects (max_cache_size : Nat) (m : AddrRangeMap V) (r : AddrRange) :=
  m.find max_cache_size r fun r1 => r.intersects r1

/-- `tree.insert(std::make_pair(r, d)).first`: an entry with an equal key stays as it is. -/
def treeInsert (m : AddrRangeMap V) (r : AddrRange) (d : V) : AddrRangeMap V × Nat :=
  let (before, from_) := m.tree.span fun e => e.first.lt r
  let new := ({ m with tree := before ++ ⟨m.fresh, r, d⟩ :: from_, fresh := m.fresh + 1 }, m.fresh)
  match from_ with
  | [] => new
  | e :: _ => if r.lt e.first then new else (m, e.node)

def insert (max_cache_size : Nat) (m : AddrRangeMap V) (r : AddrRange) (d : V) :
    Option (AddrRangeMap V × Option Nat) := do
  let (m, found) ← m.intersects max_cache_size r
  if found.isSome then return (m, none)
  let (m, it) := m.treeInsert r d
  return (m, some it)

/-- `erase(p)`. -/
def erase (m : AddrRangeMap V) (p : Nat) : Option (AddrRangeMap V) := do
  let _ ← m.deref p
  return { m with cache := m.cache.filter (· != p), tree := m.tree.filter (·.node != p) }

/-- The entries before an iterator and those from it on, for an iterator that is among them. -/
def splitAt : Option Nat → List (Entry V) → Option (List (Entry V) × List (Entry V))
  | none, l => some (l, [])
  | some _, [] => none
  | some p, e :: l =>
    if e.node = p then some ([], e :: l) else (splitAt (some p) l).map fun (b, f) => (e :: b, f)

/-- `erase(p, q)`: the loop runs `it` from `p` to `q` and removes `p` each time. -/
def eraseRange (m : AddrRangeMap V) (p q : Option Nat) : Option (AddrRangeMap V) := do
  let (before, rest) ← splitAt p m.tree
  let (erased, after) ← splitAt q rest
  return { m with
    cache := erased.foldl (fun cache _ => cache.filter fun it => some it != p) m.cache
    tree := before ++ after }

def clear (m : AddrRangeMap V) : AddrRangeMap V := { m with cache := [], tree := [] }

/-- One call and its answer; the calls that return nothing answer `none`. -/
def step (max_cache_size : Nat) (m : AddrRangeMap V) : Op V → Option (AddrRangeMap V × Option Nat)
  | .insert r d => m.insert max_cache_size r d
  | .erase p => (m.erase p).map fun m => (m, none)
  | .eraseRange p q => (m.eraseRange p q).map fun m => (m, none)
  | .clear => some (m.clear, none)
  | .contains r => m.contains max_cache_size r
  | .intersects r => m.intersects max_cache_size r

/-- A run and its answers. -/
def run (max_cache_size : Nat) (m : AddrRangeMap V) :
    List (Op V) → Option (AddrRangeMap V × List (Option Nat))
  | [] => some (m, [])
  | op :: ops => do
    let (m, a) ← m.step max_cache_size op
    let (m, as) ← m.run max_cache_size ops
    return (m, a :: as)

end AddrRangeMap

/-! ## Ranges that do not interleave -/

/-- A valid, non-empty range without interleaving. -/
structure Plain (r : AddrRange) : Prop where
  nonempty : r._start.toNat < r._end.toNat
  masks : r.masks = []

/-- Some address is in both. -/
def Overlaps (r e : AddrRange) : Prop :=
  e._start.toNat < r._end.toNat ∧ r._start.toNat < e._end.toNat

/-- Every address of `r` is in `e`. -/
def Includes (r e : AddrRange) : Prop :=
  e._start.toNat ≤ r._start.toNat ∧ r._end.toNat ≤ e._end.toNat

instance (r e : AddrRange) : Decidable (Overlaps r e) := inferInstanceAs (Decidable (_ ∧ _))

instance (r e : AddrRange) : Decidable (Includes r e) := inferInstanceAs (Decidable (_ ∧ _))

variable {r e : AddrRange}

theorem Plain.interleaved (h : Plain r) : r.interleaved = false := by
  unfold AddrRange.interleaved
  rw [h.masks]
  rfl

theorem intersects_eq (hr : Plain r) (he : Plain e) :
    r.intersects e = some (decide (Overlaps r e)) := by
  unfold AddrRange.intersects
  rw [hr.interleaved, he.interleaved]
  by_cases h : e._end.toNat ≤ r._start.toNat ∨ r._end.toNat ≤ e._start.toNat
  · have hnot : ¬ Overlaps r e := by
      rintro ⟨h1, h2⟩
      omega
    rw [if_pos h, decide_eq_false hnot]
  · have hyes : Overlaps r e := ⟨by omega, by omega⟩
    rw [if_neg h, decide_eq_true hyes]
    rfl

theorem isSubset_eq (hr : Plain r) (he : Plain e) :
    r.isSubset e = some (decide (Includes r e)) := by
  unfold AddrRange.isSubset
  rw [hr.interleaved, he.interleaved, if_neg (by decide), if_neg (by decide), Option.some.injEq,
    ← Bool.decide_and]
  rfl

/-- Between such ranges the key order is the order of the starts. -/
theorem lt_iff (hr : Plain r) : r.lt e = true ↔ r._start.toNat < e._start.toNat := by
  unfold AddrRange.lt
  by_cases h : r._start = e._start
  · rw [if_neg (by simpa using h), hr.interleaved, h]
    simp
  · rw [if_pos h, decide_eq_true_eq]

/-- Two of them that merge start together, so one cannot end before the other starts. -/
theorem not_mergesWith {a b : AddrRange} (ha : Plain a) (h : a._end.toNat ≤ b._start.toNat) :
    a.mergesWith b = false := by
  rw [Bool.eq_false_iff]
  intro hm
  have heq : b._start = a._start := by
    unfold AddrRange.mergesWith at hm
    simp only [Bool.and_eq_true, beq_iff_eq] at hm
    exact hm.1.1
  have := ha.nonempty
  rw [heq] at h
  omega

/-! ## The tree search -/

/-- What the map keeps: plain ranges in order and apart, nodes told apart, every cached iterator
    live, the cache within its size. -/
structure Inv (max_cache_size : Nat) (m : AddrRangeMap V) : Prop where
  plain : ∀ e ∈ m.tree, Plain e.first
  apart : m.tree.Pairwise fun a b => a.first._end.toNat ≤ b.first._start.toNat
  nodes : m.tree.Pairwise fun a b => a.node ≠ b.node
  old : ∀ e ∈ m.tree, e.node < m.fresh
  live : ∀ it ∈ m.cache, ∃ e ∈ m.tree, e.node = it
  room : m.cache.length ≤ max_cache_size

/-- A condition that the neighbours of the upper bound decide: what satisfies it overlaps `r`, and
    past the start of `r` the nearer of two ranges satisfies it if the farther does. -/
structure Local (r : AddrRange) (P : AddrRange → Prop) : Prop where
  overlaps : ∀ {e}, P e → Overlaps r e
  nearer : ∀ {a b}, Plain a → r._start.toNat < a._start.toNat →
    a._end.toNat ≤ b._start.toNat → P b → P a

theorem local_overlaps (r : AddrRange) : Local r (Overlaps r) where
  overlaps := id
  nearer := by
    intro a b ha hstart hab hb
    have := ha.nonempty
    have := hb.1
    constructor <;> omega

theorem local_includes (hr : Plain r) : Local r (Includes r) where
  overlaps := by
    intro e he
    have := hr.nonempty
    have := he.1
    have := he.2
    constructor <;> omega
  nearer := by
    intro a b ha hstart hab hb
    have := ha.nonempty
    have := hb.1
    omega

section Search

variable {n : Nat} {m : AddrRangeMap V} {r : AddrRange} {P : AddrRange → Prop} [DecidablePred P]
  {c : AddrRange → Option Bool}

open AddrRangeMap

/-- Before the upper bound only the nearest entry can satisfy the condition, and no entry merges
    with the one before it. -/
theorem walkBack_spec (hP : Local r P) {l : List (Entry V)} (hplain : ∀ e ∈ l, Plain e.first)
    (hcond : ∀ e ∈ l, c e.first = some (decide (P e.first)))
    (hapart : l.Pairwise fun a b => b.first._end.toNat ≤ a.first._start.toNat)
    (hstart : ∀ e ∈ l, e.first._start.toNat ≤ r._start.toNat) :
    ∃ res, walkBack c l = some res ∧ (∀ e, res = some e → e ∈ l ∧ P e.first) ∧
      (res = none → ∀ e ∈ l, ¬ P e.first) := by
  cases l with
  | nil => exact ⟨none, rfl, fun e he => by simp at he, fun _ e he => by simp at he⟩
  | cons i before =>
    obtain ⟨hi, _⟩ := List.pairwise_cons.mp hapart
    by_cases hPi : P i.first
    · refine ⟨some i, ?_, fun e he => ?_, fun hn => by simp at hn⟩
      · simp [walkBack, hcond i List.mem_cons_self, hPi]
      · obtain rfl : i = e := by simpa using he
        exact ⟨List.mem_cons_self, hPi⟩
    · refine ⟨none, ?_, fun e he => by simp at he, fun _ e he => ?_⟩
      · cases before with
        | nil => simp [walkBack, hcond i List.mem_cons_self, hPi]
        | cons next rest =>
          have hm : next.first.mergesWith i.first = false :=
            not_mergesWith (hplain next (by simp)) (hi next List.mem_cons_self)
          simp [walkBack, hcond i List.mem_cons_self, hPi, hm]
      · rcases List.mem_cons.mp he with rfl | he
        · exact hPi
        · -- an earlier entry ends where this one starts, at the latest at the start of `r`
          intro hPe
          have := (hP.overlaps hPe).2
          have := hi e he
          have := hstart i List.mem_cons_self
          omega

/-- The split of a list at the first element that fails a test. -/
theorem span_spec {α : Type} (p : α → Bool) (l : List α) :
    l = (l.span p).1 ++ (l.span p).2 ∧ (∀ x ∈ (l.span p).1, p x = true) ∧
      ∀ y ys, (l.span p).2 = y :: ys → p y = false := by
  rw [List.span_eq_takeWhile_dropWhile]
  refine ⟨List.takeWhile_append_dropWhile.symm, fun x hx => List.mem_takeWhile_imp hx, ?_⟩
  intro y ys heq
  have hne : l.dropWhile p ≠ [] := by
    intro h
    have heq : l.dropWhile p = y :: ys := heq
    rw [h] at heq
    exact absurd heq (by simp)
  have hhead := List.head_dropWhile_not p hne
  have heq : l.dropWhile p = y :: ys := heq
  simpa [heq] using hhead

theorem treeSearch_spec (h : Inv n m) (hr : Plain r) (hP : Local r P)
    (hcond : ∀ e ∈ m.tree, c e.first = some (decide (P e.first))) :
    ∃ res, m.treeSearch r c = some res ∧ (∀ e, res = some e → e ∈ m.tree ∧ P e.first) ∧
      (res = none → ∀ e ∈ m.tree, ¬ P e.first) := by
  obtain ⟨hsplit, hle, hgt⟩ := span_spec (fun e : Entry V => !r.lt e.first) m.tree
  unfold treeSearch upperBound
  generalize m.tree.span (fun e => !r.lt e.first) = s at hsplit hle hgt
  obtain ⟨before, from_⟩ := s
  have hbefore : ∀ e ∈ before, e.first._start.toNat ≤ r._start.toNat := by
    intro e he
    by_contra hlt
    have := hle e he
    rw [(lt_iff hr).mpr (by omega)] at this
    exact absurd this (by decide)
  have hmem : ∀ e, e ∈ m.tree ↔ e ∈ before ∨ e ∈ from_ := by
    intro e
    rw [hsplit, List.mem_append]
  have hap := h.apart
  rw [hsplit] at hap
  obtain ⟨hap1, hap2, _⟩ := List.pairwise_append.mp hap
  obtain ⟨res, hres, hsome, hnone⟩ := walkBack_spec hP
    (fun e he => h.plain e ((hmem e).mpr (.inl (List.mem_reverse.mp he))))
    (fun e he => hcond e ((hmem e).mpr (.inl (List.mem_reverse.mp he))))
    (List.pairwise_reverse.mpr hap1) (fun e he => hbefore e (List.mem_reverse.mp he))
  have hsome' : ∀ e, res = some e → e ∈ m.tree ∧ P e.first := by
    intro e he
    obtain ⟨hin, hPe⟩ := hsome e he
    exact ⟨(hmem e).mpr (.inl (List.mem_reverse.mp hin)), hPe⟩
  have hnone' : res = none → ∀ e ∈ before, ¬ P e.first := fun hn e he =>
    hnone hn e (List.mem_reverse.mpr he)
  cases from_ with
  | nil =>
    refine ⟨res, hres, hsome', fun hn e he => ?_⟩
    rcases (hmem e).mp he with hb | hf
    · exact hnone' hn e hb
    · simp at hf
  | cons next rest =>
    have hnext : next ∈ m.tree := (hmem next).mpr (.inr List.mem_cons_self)
    by_cases hPn : P next.first
    · refine ⟨some next, ?_, fun e he => ?_, fun hn => by simp at hn⟩
      · simp [hcond next hnext, hPn]
      · obtain rfl : next = e := by simpa using he
        exact ⟨hnext, hPn⟩
    · refine ⟨res, ?_, hsome', fun hn e he => ?_⟩
      · simp [hcond next hnext, hPn, hres]
      · rcases (hmem e).mp he with hb | hf
        · exact hnone' hn e hb
        · rcases List.mem_cons.mp hf with rfl | hf
          · exact hPn
          · -- the next range starts past the start of `r`: a farther one cannot do better
            have hstart : r._start.toNat < next.first._start.toNat := by
              have := hgt next rest rfl
              exact (lt_iff hr).mp (by simpa using this)
            exact fun hPe => hPn (hP.nearer (h.plain next hnext) hstart
              ((List.pairwise_cons.mp hap2).1 e hf) hPe)

/-! ## The cache -/

theorem deref_of_mem (h : Inv n m) {e : Entry V} (he : e ∈ m.tree) : m.deref e.node = some e := by
  unfold deref
  have hnodes := h.nodes
  generalize m.tree = l at he hnodes
  induction l with
  | nil => simp at he
  | cons a l ih =>
    obtain ⟨ha, hl⟩ := List.pairwise_cons.mp hnodes
    rcases List.mem_cons.mp he with rfl | he
    · simp
    · have hne : (a.node == e.node) = false := by simpa using ha e he
      rw [List.find?_cons, hne]
      exact ih he hl

/-- The first cached entry that satisfies the condition comes to the front; the others keep their
    order. -/
theorem findCached_spec (h : Inv n m)
    (hcond : ∀ e ∈ m.tree, c e.first = some (decide (P e.first))) {l : List Nat}
    (hlive : ∀ it ∈ l, ∃ e ∈ m.tree, e.node = it) (seen : List Nat) :
    ∃ res, findCached c m seen l = some res ∧
      (∀ it cache, res = some (it, cache) → it ∈ l ∧ (∃ e ∈ m.tree, e.node = it ∧ P e.first) ∧
        cache.Perm (seen ++ l)) ∧
      (res = none → ∀ it ∈ l, ∀ e ∈ m.tree, e.node = it → ¬ P e.first) := by
  induction l generalizing seen with
  | nil => exact ⟨none, rfl, fun _ _ he => by simp at he, fun _ _ hit => by simp at hit⟩
  | cons it rest ih =>
    obtain ⟨e, he, rfl⟩ := hlive it List.mem_cons_self
    have hderef := deref_of_mem h he
    by_cases hPe : P e.first
    · refine ⟨some (e.node, e.node :: (seen.reverse ++ rest)), ?_, fun it cache hc => ?_,
        fun hn => by simp at hn⟩
      · simp [findCached, hderef, hcond e he, hPe]
      · obtain ⟨rfl, rfl⟩ : e.node = it ∧ e.node :: (seen.reverse ++ rest) = cache := by
          simpa using hc
        refine ⟨List.mem_cons_self, ⟨e, he, rfl, hPe⟩, ?_⟩
        have hrev : (seen.reverse ++ rest).Perm (seen ++ rest) :=
          (List.reverse_perm seen).append_right rest
        exact (hrev.cons e.node).trans List.perm_middle.symm
    · obtain ⟨res, hres, hsome, hnone⟩ := ih (fun it hit => hlive it (List.mem_cons_of_mem _ hit))
        (e.node :: seen)
      refine ⟨res, ?_, fun it cache hc => ?_, fun hn it hit => ?_⟩
      · simp [findCached, hderef, hcond e he, hPe, hres]
      · obtain ⟨hin, hex, hperm⟩ := hsome it cache hc
        exact ⟨List.mem_cons_of_mem _ hin, hex, hperm.trans List.perm_middle.symm⟩
      · rcases List.mem_cons.mp hit with rfl | hit
        · intro e' he' heq
          have := deref_of_mem h he'
          rw [heq, hderef, Option.some.injEq] at this
          rw [← this]
          exact hPe
        · exact hnone hn it hit

/-- Adding a live entry keeps the cache live and within its size. -/
theorem addNewEntryToCache_spec (h : Inv n m) {e : Entry V} (he : e ∈ m.tree) :
    Inv n (addNewEntryToCache n m e.node) ∧ (addNewEntryToCache n m e.node).tree = m.tree ∧
      (addNewEntryToCache n m e.node).fresh = m.fresh := by
  have hkeep : ∀ cache : List Nat, (∀ it ∈ cache, it = e.node ∨ it ∈ m.cache) →
      cache.length ≤ n → Inv n { m with cache := cache } := by
    intro cache hsub hlen
    refine { h with live := fun it hit => ?_, room := hlen }
    rcases hsub it hit with rfl | hit
    · exact ⟨e, he, rfl⟩
    · exact h.live it hit
  have hdrop : ∀ it ∈ m.cache.dropLast, it ∈ m.cache := fun it hit => List.dropLast_subset _ hit
  have hroom := h.room
  unfold addNewEntryToCache
  by_cases hn : n ≠ 0
  · rw [if_pos hn]
    by_cases hfull : n ≤ m.cache.length
    · have hlen : m.cache.dropLast.length = n - 1 := by
        rw [List.length_dropLast]
        omega
      rw [if_pos hfull]
      by_cases hone : 1 < n
      · dsimp only
        rw [if_pos hone]
        refine ⟨hkeep _ (fun it hit => ?_) (by rw [List.length_cons]; omega), rfl, rfl⟩
        rcases List.mem_cons.mp hit with rfl | hit
        · exact .inl rfl
        · exact .inr (hdrop it hit)
      · dsimp only
        rw [if_neg hone]
        refine ⟨hkeep _ (fun it hit => ?_) ?_, rfl, rfl⟩
        · rcases List.mem_append.mp hit with hit | hit
          · exact .inr (hdrop it hit)
          · exact .inl (List.mem_singleton.mp hit)
        · rw [List.length_append, List.length_singleton]
          omega
    · rw [if_neg hfull]
      refine ⟨hkeep _ (fun it hit => ?_) (by rw [List.length_cons]; omega), rfl, rfl⟩
      exact (List.mem_cons.mp hit).imp id id
  · rw [if_neg hn]
    exact ⟨h, rfl, rfl⟩

/-- `find`: the answer is an entry that satisfies the condition, or `end()` when none does; the tree
    stays and the cache stays live. -/
theorem find_spec (h : Inv n m) (hr : Plain r) (hP : Local r P)
    (hcond : ∀ e ∈ m.tree, c e.first = some (decide (P e.first))) :
    ∃ m' a, m.find n r c = some (m', a) ∧ Inv n m' ∧ m'.tree = m.tree ∧ m'.fresh = m.fresh ∧
      (∀ it, a = some it → ∃ e ∈ m.tree, e.node = it ∧ P e.first) ∧
      (a = none → ∀ e ∈ m.tree, ¬ P e.first) := by
  obtain ⟨res, hres, hsome, _⟩ := findCached_spec h hcond h.live []
  unfold AddrRangeMap.find
  cases res with
  | some hit =>
    obtain ⟨it, cache⟩ := hit
    obtain ⟨_, hex, hperm⟩ := hsome it cache rfl
    refine ⟨{ m with cache := cache }, some it, ?_, ?_, rfl, rfl, fun it' hit' => ?_,
      fun hn => by simp at hn⟩
    · simp [hres]
    · refine { h with live := fun i hi => h.live i (hperm.mem_iff.mp hi), room := ?_ }
      show cache.length ≤ n
      rw [hperm.length_eq]
      exact h.room
    · obtain rfl : it = it' := by simpa using hit'
      exact hex
  | none =>
    obtain ⟨found, hfound, hin, hnone⟩ := treeSearch_spec h hr hP hcond
    cases found with
    | some e =>
      obtain ⟨he, hPe⟩ := hin e rfl
      obtain ⟨hinv, htree, hfresh⟩ := addNewEntryToCache_spec h he
      refine ⟨addNewEntryToCache n m e.node, some e.node, ?_, hinv, htree, hfresh,
        fun it hit => ?_, fun hn => by simp at hn⟩
      · simp [hres, hfound]
      · obtain rfl : e.node = it := by simpa using hit
        exact ⟨e, he, rfl, hPe⟩
    | none =>
      refine ⟨m, none, ?_, h, rfl, rfl, fun it hit => by simp at hit, fun _ => hnone rfl⟩
      simp [hres, hfound]

/-- When a cached entry satisfies the condition it is the only one: then the cache answers as the
    tree. -/
def CacheDecides (m : AddrRangeMap V) (P : AddrRange → Prop) : Prop :=
  ∀ it ∈ m.cache, ∀ e ∈ m.tree, e.node = it → P e.first → ∀ e' ∈ m.tree, P e'.first → e'.node = it

/-- Then the answer is the one of a map without cache. -/
theorem find_agrees (h : Inv n m) (hr : Plain r) (hP : Local r P)
    (hcond : ∀ e ∈ m.tree, c e.first = some (decide (P e.first))) (hone : CacheDecides m P)
    {m₀ : AddrRangeMap V} (h₀ : Inv 0 m₀) (htree : m₀.tree = m.tree)
    {m' m₀' : AddrRangeMap V} {a a₀ : Option Nat} (hf : m.find n r c = some (m', a))
    (hf₀ : m₀.find 0 r c = some (m₀', a₀)) : a = a₀ := by
  have hempty : m₀.cache = [] := List.length_eq_zero_iff.mp (Nat.le_zero.mp h₀.room)
  have hsearch : m₀.treeSearch r c = m.treeSearch r c := by
    unfold treeSearch upperBound
    rw [htree]
  obtain ⟨res, hres, hsome, hnone⟩ := findCached_spec h hcond h.live []
  obtain ⟨found, hfound, hin, hall⟩ := treeSearch_spec h hr hP hcond
  have ha₀ : a₀ = found.map (·.node) := by
    unfold AddrRangeMap.find at hf₀
    rw [hempty, hsearch, hfound] at hf₀
    cases found <;> simp [findCached] at hf₀ <;> simp [hf₀.2]
  unfold AddrRangeMap.find at hf
  rw [hres] at hf
  cases res with
  | none =>
    rw [ha₀]
    cases found <;> simp [hfound] at hf <;> simp [hf.2]
  | some hit =>
    obtain ⟨it, cache⟩ := hit
    have ha : a = some it := by
      simp at hf
      exact hf.2.symm
    obtain ⟨hmem, ⟨e, he, hnode, hPe⟩, _⟩ := hsome it cache rfl
    cases found with
    | none => exact absurd hPe (hall rfl e he)
    | some e' =>
      obtain ⟨he', hPe'⟩ := hin e' rfl
      rw [ha, ha₀, Option.map_some, hone it hmem e he hnode hPe e' he' hPe']

end Search

/-! ## The updates -/

section Updates

variable {n : Nat} {m : AddrRangeMap V}

open AddrRangeMap

/-- The tree with a new entry at its place. -/
def inserted (m : AddrRangeMap V) (r : AddrRange) (d : V) : List (Entry V) :=
  (m.tree.span fun e => e.first.lt r).1 ++ ⟨m.fresh, r, d⟩ :: (m.tree.span fun e => e.first.lt r).2

theorem inserted_perm (m : AddrRangeMap V) (r : AddrRange) (d : V) :
    (inserted m r d).Perm (⟨m.fresh, r, d⟩ :: m.tree) := by
  obtain ⟨hsplit, _, _⟩ := span_spec (fun e : Entry V => e.first.lt r) m.tree
  refine List.perm_middle.trans ?_
  rw [← hsplit]

/-- A range that overlaps nothing gets a new node between its neighbours. -/
theorem treeInsert_spec (h : Inv n m) {r : AddrRange} (hr : Plain r) (d : V)
    (hno : ∀ e ∈ m.tree, ¬ Overlaps r e.first) :
    m.treeInsert r d = ({ m with tree := inserted m r d, fresh := m.fresh + 1 }, m.fresh) ∧
      Inv n { m with tree := inserted m r d, fresh := m.fresh + 1 } := by
  have hperm := inserted_perm m r d
  obtain ⟨hsplit, hlt, hge⟩ := span_spec (fun e : Entry V => e.first.lt r) m.tree
  unfold treeInsert inserted at *
  generalize m.tree.span (fun e => e.first.lt r) = s at hsplit hlt hge hperm ⊢
  obtain ⟨before, from_⟩ := s
  have hmem : ∀ e, e ∈ m.tree ↔ e ∈ before ∨ e ∈ from_ := by
    intro e
    rw [hsplit, List.mem_append]
  have hap := h.apart
  rw [hsplit] at hap
  obtain ⟨hap1, hap2, hap12⟩ := List.pairwise_append.mp hap
  -- the neighbours start on the two sides of `r`, and do not reach into it
  have hleft : ∀ e ∈ before, e.first._end.toNat ≤ r._start.toNat := by
    intro e he
    have hmem' := (hmem e).mpr (.inl he)
    have hstart := (lt_iff (h.plain e hmem')).mp (hlt e he)
    by_contra hgt
    have := hr.nonempty
    exact hno e hmem' ⟨by omega, by omega⟩
  have hright : ∀ e ∈ from_, r._end.toNat ≤ e.first._start.toNat := by
    cases from_ with
    | nil => exact fun e he => by simp at he
    | cons next rest =>
      have hmem' := (hmem next).mpr (.inr List.mem_cons_self)
      have hnext : r._end.toNat ≤ next.first._start.toNat := by
        have hnot : ¬ next.first._start.toNat < r._start.toNat := by
          intro hlt'
          have := hge next rest rfl
          rw [(lt_iff (h.plain next hmem')).mpr hlt'] at this
          exact absurd this (by decide)
        by_contra hgt
        have := (h.plain next hmem').nonempty
        exact hno next hmem' ⟨by omega, by omega⟩
      intro e he
      rcases List.mem_cons.mp he with rfl | he
      · exact hnext
      · have h1 := (List.pairwise_cons.mp hap2).1 e he
        have h2 := (h.plain next hmem').nonempty
        omega
  constructor
  · cases from_ with
    | nil => rfl
    | cons next rest =>
      have hkey : r.lt next.first = true := by
        have h1 := hright next List.mem_cons_self
        have h2 := hr.nonempty
        exact (lt_iff hr).mpr (by omega)
      simp [hkey]
  · refine ⟨fun e he => ?_, ?_, ?_, fun e he => ?_, fun it hit => ?_, h.room⟩
    · rcases List.mem_cons.mp (hperm.mem_iff.mp he) with rfl | he
      · exact hr
      · exact h.plain e he
    · refine List.pairwise_append.mpr ⟨hap1, List.pairwise_cons.mpr ⟨hright, hap2⟩, ?_⟩
      intro a ha b hb
      rcases List.mem_cons.mp hb with rfl | hb
      · exact hleft a ha
      · exact hap12 a ha b hb
    · have hne : (⟨m.fresh, r, d⟩ :: m.tree : List (Entry V)).Pairwise fun a b =>
        a.node ≠ b.node := by
        refine List.pairwise_cons.mpr ⟨fun e he => ?_, h.nodes⟩
        have := h.old e he
        show m.fresh ≠ e.node
        omega
      exact hne.perm hperm.symm fun hab => hab.symm
    · rcases List.mem_cons.mp (hperm.mem_iff.mp he) with rfl | he
      · exact Nat.lt_succ_self _
      · have := h.old e he
        show e.node < m.fresh + 1
        omega
    · obtain ⟨e, he, hnode⟩ := h.live it hit
      exact ⟨e, hperm.mem_iff.mpr (List.mem_cons_of_mem _ he), hnode⟩

/-- `insert` fails exactly on an overlap; otherwise it adds the one entry.  What it leaves in the
    tree depends on the tree alone. -/
theorem insert_spec (h : Inv n m) {r : AddrRange} (hr : Plain r) (d : V) :
    ∃ m' a, m.insert n r d = some (m', a) ∧ Inv n m' ∧
      ((∃ e ∈ m.tree, Overlaps r e.first) → a = none ∧ m'.tree = m.tree ∧ m'.fresh = m.fresh) ∧
      ((∀ e ∈ m.tree, ¬ Overlaps r e.first) →
        a = some m.fresh ∧ m'.tree = inserted m r d ∧ m'.fresh = m.fresh + 1) := by
  obtain ⟨m₁, found, hf, hinv, htree, hfresh, hsome, hnone⟩ := find_spec (n := n) h hr
    (local_overlaps r) (c := fun r1 => r.intersects r1)
    fun e he => intersects_eq hr (h.plain e he)
  have hf' : m.intersects n r = some (m₁, found) := hf
  unfold AddrRangeMap.insert
  cases found with
  | some it =>
    obtain ⟨e, he, _, ho⟩ := hsome it rfl
    refine ⟨m₁, none, ?_, hinv, fun _ => ⟨rfl, htree, hfresh⟩, fun hno => absurd ho (hno e he)⟩
    simp [hf']
  | none =>
    have hno := hnone rfl
    obtain ⟨heq, hinv'⟩ := treeInsert_spec hinv hr d (by rw [htree]; exact hno)
    have hins : inserted m₁ r d = inserted m r d := by
      unfold inserted
      rw [htree, hfresh]
    rw [hfresh, hins] at heq hinv'
    refine ⟨_, some m.fresh, ?_, hinv', fun ⟨e, he, ho⟩ => absurd ho (hno e he),
      fun _ => ⟨rfl, rfl, rfl⟩⟩
    simp [hf', heq]

/-- An invariant that only loses entries, with the cache still live. -/
theorem Inv.sublist (h : Inv n m) {tree : List (Entry V)} {cache : List Nat}
    (hsub : tree.Sublist m.tree) (hlen : cache.length ≤ m.cache.length)
    (hlive : ∀ it ∈ cache, ∃ e ∈ tree, e.node = it) :
    Inv n { m with tree := tree, cache := cache } where
  plain := fun e he => h.plain e (hsub.subset he)
  apart := h.apart.sublist hsub
  nodes := h.nodes.sublist hsub
  old := fun e he => h.old e (hsub.subset he)
  live := hlive
  room := Nat.le_trans hlen h.room

theorem erase_spec (h : Inv n m) {p : Nat} (hp : ∃ e ∈ m.tree, e.node = p) :
    ∃ m', m.erase p = some m' ∧ Inv n m' ∧ m'.tree = m.tree.filter (·.node != p) ∧
      m'.fresh = m.fresh := by
  obtain ⟨e, he, rfl⟩ := hp
  have hderef := deref_of_mem h he
  refine ⟨{ m with cache := m.cache.filter (· != e.node),
                   tree := m.tree.filter (·.node != e.node) },
    by simp [AddrRangeMap.erase, hderef], ?_, rfl, rfl⟩
  refine h.sublist List.filter_sublist (List.length_filter_le _ _) fun it hit => ?_
  obtain ⟨hin, hne⟩ := List.mem_filter.mp hit
  obtain ⟨x, hx, rfl⟩ := h.live it hin
  exact ⟨x, List.mem_filter.mpr ⟨hx, hne⟩, rfl⟩

theorem splitAt_append {p : Option Nat} {l b f : List (Entry V)} (h : splitAt p l = some (b, f)) :
    l = b ++ f := by
  cases p with
  | none =>
    obtain ⟨rfl, rfl⟩ : l = b ∧ [] = f := by simpa [splitAt] using h
    rw [List.append_nil]
  | some p =>
    induction l generalizing b with
    | nil => simp [splitAt] at h
    | cons e l ih =>
      unfold splitAt at h
      split at h
      · obtain ⟨rfl, rfl⟩ : [] = b ∧ e :: l = f := by simpa using h
        rfl
      · obtain ⟨⟨b', f'⟩, hs, heq⟩ := Option.map_eq_some_iff.mp h
        obtain ⟨rfl, rfl⟩ : e :: b' = b ∧ f' = f := by simpa using heq
        rw [List.cons_append, ← ih hs]

/-- The loop of `erase(p, q)` filters `p` out of the cache, if it runs at all. -/
theorem mem_eraseLoop {p : Option Nat} (erased : List (Entry V)) {cache : List Nat} {it : Nat}
    (h : it ∈ erased.foldl (fun cache _ => cache.filter fun it => some it != p) cache) :
    it ∈ cache ∧ (erased ≠ [] → some it ≠ p) := by
  induction erased generalizing cache with
  | nil => exact ⟨h, fun hne => absurd rfl hne⟩
  | cons e es ih =>
    obtain ⟨hin, _⟩ := ih h
    obtain ⟨hmem, hne⟩ := List.mem_filter.mp hin
    exact ⟨hmem, fun _ => by simpa using hne⟩

theorem length_eraseLoop {p : Option Nat} (erased : List (Entry V)) (cache : List Nat) :
    (erased.foldl (fun cache _ => cache.filter fun it => some it != p) cache).length ≤
      cache.length := by
  induction erased generalizing cache with
  | nil => exact Nat.le_refl _
  | cons e es ih => exact Nat.le_trans (ih _) (List.length_filter_le _ _)

/-- `erase(p, q)` keeps the cache live when no cached entry but `p` is erased. -/
theorem eraseRange_spec (h : Inv n m) {p q : Option Nat} {b f e a : List (Entry V)}
    (hp : splitAt p m.tree = some (b, f)) (hq : splitAt q f = some (e, a))
    (hok : ∀ it ∈ m.cache, ∀ x ∈ e, x.node = it → some it = p) :
    ∃ m', m.eraseRange p q = some m' ∧ Inv n m' ∧ m'.tree = b ++ a ∧ m'.fresh = m.fresh := by
  have hsplit : m.tree = b ++ (e ++ a) := by rw [splitAt_append hp, splitAt_append hq]
  refine ⟨{ m with
    cache := e.foldl (fun cache _ => cache.filter fun it => some it != p) m.cache
    tree := b ++ a }, by simp [AddrRangeMap.eraseRange, hp, hq], ?_, rfl, rfl⟩
  refine h.sublist ?_ (length_eraseLoop e m.cache) fun it hit => ?_
  · rw [hsplit]
    exact (List.sublist_append_right e a).append_left b
  · obtain ⟨hin, hne⟩ := mem_eraseLoop e hit
    obtain ⟨x, hx, rfl⟩ := h.live it hin
    rw [hsplit] at hx
    rcases List.mem_append.mp hx with hx | hx
    · exact ⟨x, List.mem_append_left a hx, rfl⟩
    · rcases List.mem_append.mp hx with hx | hx
      · exact absurd (hok _ hin x hx rfl) (hne (List.ne_nil_of_mem hx))
      · exact ⟨x, List.mem_append_right b hx, rfl⟩

end Updates

/-! ## Runs -/

open AddrRangeMap

/-- A call the interface allows: plain ranges, and iterators of the map. -/
def Valid (m : AddrRangeMap V) : Op V → Prop
  | .insert r _ | .contains r | .intersects r => Plain r
  | .erase p => ∃ e ∈ m.tree, e.node = p
  | .eraseRange p q => ∃ b f, splitAt p m.tree = some (b, f) ∧ ∃ e a, splitAt q f = some (e, a)
  | .clear => True

/-- The state in which the call does what it should: `erase(p, q)` finds no cached iterator but `p`
    among those it erases, and `intersects` finds no cached range among several that overlap. -/
def StepOk (m : AddrRangeMap V) : Op V → Prop
  | .eraseRange p q => ∀ b f e a, splitAt p m.tree = some (b, f) → splitAt q f = some (e, a) →
      ∀ it ∈ m.cache, ∀ x ∈ e, x.node = it → some it = p
  | .intersects r => CacheDecides m (Overlaps r)
  | _ => True

/-- What a call answers, and what it does to the stored ranges. -/
def Answers (m : AddrRangeMap V) : Op V → Option Nat → AddrRangeMap V → Prop
  | .insert r d, a, m' => (a = none ↔ ∃ e ∈ m.tree, Overlaps r e.first) ∧
      (a = none → m'.tree = m.tree) ∧ ∀ it, a = some it → m'.tree.Perm (⟨it, r, d⟩ :: m.tree)
  | .erase p, _, m' => m'.tree = m.tree.filter (·.node != p)
  | .eraseRange p q, _, m' => ∃ b f e a, splitAt p m.tree = some (b, f) ∧
      splitAt q f = some (e, a) ∧ m'.tree = b ++ a
  | .clear, _, m' => m'.tree = []
  | .contains r, a, m' => m'.tree = m.tree ∧ (∀ e ∈ m.tree, Includes r e.first → a = some e.node) ∧
      ((∀ e ∈ m.tree, ¬ Includes r e.first) → a = none)
  | .intersects r, a, m' => m'.tree = m.tree ∧ (a = none ↔ ∀ e ∈ m.tree, ¬ Overlaps r e.first) ∧
      ∀ it, a = some it → ∃ e ∈ m.tree, e.node = it ∧ Overlaps r e.first

/-- The calls that change what is stored; the others only look. -/
def Op.updates : Op V → Bool
  | .contains _ | .intersects _ => false
  | _ => true

theorem inv_empty (n : Nat) : Inv n (empty : AddrRangeMap V) :=
  ⟨fun e he => by simp [empty] at he, List.Pairwise.nil, List.Pairwise.nil,
    fun e he => by simp [empty] at he, fun it hit => by simp [empty] at hit, Nat.zero_le n⟩

section Steps

variable {n : Nat} {m : AddrRangeMap V}

/-- A range that includes a plain one is the only one that does. -/
theorem includes_unique (h : Inv n m) {r : AddrRange} (hr : Plain r) {e e' : Entry V}
    (he : e ∈ m.tree) (he' : e' ∈ m.tree) (hi : Includes r e.first) (hi' : Includes r e'.first) :
    e' = e := by
  by_contra hne
  have hap : m.tree.Pairwise fun a b => a.first._end.toNat ≤ b.first._start.toNat ∨
      b.first._end.toNat ≤ a.first._start.toNat := h.apart.imp .inl
  have : Std.Symm fun a b : Entry V => a.first._end.toNat ≤ b.first._start.toNat ∨
      b.first._end.toNat ≤ a.first._start.toNat := ⟨fun a b hab => hab.symm⟩
  have hr' := hr.nonempty
  have h1 := hi.1
  have h2 := hi.2
  have h3 := hi'.1
  have h4 := hi'.2
  rcases hap.forall he' he hne with hlt | hlt <;> omega

/-- `contains` answers by its cache as by the tree. -/
theorem cacheDecides_includes (h : Inv n m) {r : AddrRange} (hr : Plain r) :
    CacheDecides m (Includes r) := by
  intro it _ e he hnode hi e' he' hi'
  rw [includes_unique h hr he he' hi hi', hnode]

/-- Without a cache a map is what it stores. -/
theorem eq_of_noCache {a b : AddrRangeMap V} (ha : Inv 0 a) (hb : Inv 0 b) (htree : a.tree = b.tree)
    (hfresh : a.fresh = b.fresh) : a = b := by
  have hca : a.cache = [] := List.length_eq_zero_iff.mp (Nat.le_zero.mp ha.room)
  have hcb : b.cache = [] := List.length_eq_zero_iff.mp (Nat.le_zero.mp hb.room)
  cases a
  cases b
  simp_all

/-- One lookup on both maps. -/
theorem lookup_spec (h : Inv n m) {m₀ : AddrRangeMap V} (h₀ : Inv 0 m₀) (htree : m₀.tree = m.tree)
    {r : AddrRange} {P : AddrRange → Prop} [DecidablePred P] {c : AddrRange → Option Bool}
    (hr : Plain r) (hP : Local r P)
    (hcond : ∀ e ∈ m.tree, c e.first = some (decide (P e.first))) (hone : CacheDecides m P) :
    ∃ m' a, m.find n r c = some (m', a) ∧ m₀.find 0 r c = some (m₀, a) ∧ Inv n m' ∧
      m'.tree = m.tree ∧ m'.fresh = m.fresh ∧
      (∀ it, a = some it → ∃ e ∈ m.tree, e.node = it ∧ P e.first) ∧
      (a = none → ∀ e ∈ m.tree, ¬ P e.first) := by
  obtain ⟨m', a, hf, hinv, ht, hfr, hsome, hnone⟩ := find_spec h hr hP hcond
  obtain ⟨m₀', a₀, hf₀, hinv₀, ht₀, hfr₀, _, _⟩ := find_spec h₀ hr hP (by rw [htree]; exact hcond)
  have ha : a = a₀ := find_agrees h hr hP hcond hone h₀ htree hf hf₀
  have hm : m₀' = m₀ := eq_of_noCache hinv₀ h₀ ht₀ hfr₀
  subst hm ha
  exact ⟨m', a, hf, hf₀, hinv, ht, hfr, hsome, hnone⟩

/-- One call, on a map with a cache and on one without that stores the same. -/
theorem step_spec (h : Inv n m) {m₀ : AddrRangeMap V} (h₀ : Inv 0 m₀) (htree : m₀.tree = m.tree)
    (hfresh : m₀.fresh = m.fresh) {op : Op V} (hv : Valid m op) (hok : StepOk m op) :
    ∃ m' m₀' a, m.step n op = some (m', a) ∧ m₀.step 0 op = some (m₀', a) ∧ Inv n m' ∧ Inv 0 m₀' ∧
      m₀'.tree = m'.tree ∧ m₀'.fresh = m'.fresh ∧ Answers m op a m' ∧
      (op.updates = false → m₀' = m₀) := by
  cases op with
  | insert r d =>
    obtain ⟨m', a, hs, hinv, hyes, hno⟩ := insert_spec h hv d
    obtain ⟨m₀', a₀, hs₀, hinv₀, hyes₀, hno₀⟩ := insert_spec h₀ hv d
    rw [htree] at hyes₀ hno₀
    by_cases hov : ∃ e ∈ m.tree, Overlaps r e.first
    · obtain ⟨rfl, ht, hf⟩ := hyes hov
      obtain ⟨rfl, ht₀, hf₀⟩ := hyes₀ hov
      refine ⟨m', m₀', none, hs, hs₀, hinv, hinv₀, ht₀.trans ht.symm, ?_,
        ⟨⟨fun _ => hov, fun _ => rfl⟩, fun _ => ht, fun it hit => by simp at hit⟩,
        fun hu => by simp [Op.updates] at hu⟩
      rw [hf₀, hf, hfresh]
    · have hall : ∀ e ∈ m.tree, ¬ Overlaps r e.first := fun e he ho => hov ⟨e, he, ho⟩
      obtain ⟨rfl, ht, hf⟩ := hno hall
      obtain ⟨rfl, ht₀, hf₀⟩ := hno₀ hall
      have hins : inserted m₀ r d = inserted m r d := by
        unfold inserted
        rw [htree, hfresh]
      refine ⟨m', m₀', some m.fresh, hs, by rw [← hfresh]; exact hs₀, hinv, hinv₀, ?_, ?_,
        ⟨⟨fun hn => by simp at hn, fun ho => absurd ho hov⟩, fun hn => by simp at hn,
          fun it hit => ?_⟩, fun hu => by simp [Op.updates] at hu⟩
      · rw [ht₀, ht, hins]
      · rw [hf₀, hf, hfresh]
      · obtain rfl : m.fresh = it := by simpa using hit
        rw [ht]
        exact inserted_perm m r d
  | erase p =>
    obtain ⟨m', hs, hinv, ht, hf⟩ := erase_spec h hv
    obtain ⟨m₀', hs₀, hinv₀, ht₀, hf₀⟩ := erase_spec h₀ (p := p) (by rw [htree]; exact hv)
    refine ⟨m', m₀', none, by simp [AddrRangeMap.step, hs], by simp [AddrRangeMap.step, hs₀],
      hinv, hinv₀, ?_, ?_, ht, fun hu => by simp [Op.updates] at hu⟩
    · rw [ht₀, ht, htree]
    · rw [hf₀, hf, hfresh]
  | eraseRange p q =>
    obtain ⟨b, f, hp, e, a, hq⟩ := hv
    have hempty : m₀.cache = [] := List.length_eq_zero_iff.mp (Nat.le_zero.mp h₀.room)
    obtain ⟨m', hs, hinv, ht, hf⟩ := eraseRange_spec h hp hq (hok b f e a hp hq)
    obtain ⟨m₀', hs₀, hinv₀, ht₀, hf₀⟩ := eraseRange_spec h₀ (p := p) (q := q)
      (by rw [htree]; exact hp) hq (by rw [hempty]; exact fun it hit => by simp at hit)
    refine ⟨m', m₀', none, by simp [AddrRangeMap.step, hs], by simp [AddrRangeMap.step, hs₀],
      hinv, hinv₀, ?_, ?_, ⟨b, f, e, a, hp, hq, ht⟩, fun hu => by simp [Op.updates] at hu⟩
    · rw [ht₀, ht]
    · rw [hf₀, hf, hfresh]
  | clear =>
    refine ⟨m.clear, m₀.clear, none, rfl, rfl, ?_, ?_, rfl, hfresh, rfl,
      fun hu => by simp [Op.updates] at hu⟩
    · exact h.sublist (List.nil_sublist _) (Nat.zero_le _) fun it hit => by simp at hit
    · exact h₀.sublist (List.nil_sublist _) (Nat.zero_le _) fun it hit => by simp at hit
  | contains r =>
    have hr : Plain r := hv
    obtain ⟨m', a, hs, hs₀, hinv, ht, hf, hsome, hnone⟩ := lookup_spec h h₀ htree hr
      (local_includes hr) (c := fun r1 => r.isSubset r1)
      (fun e he => isSubset_eq hr (h.plain e he)) (cacheDecides_includes h hr)
    refine ⟨m', m₀, a, hs, hs₀, hinv, h₀, by rw [ht, htree], by rw [hf, hfresh],
      ⟨ht, fun e he hi => ?_, fun hno => ?_⟩, fun _ => rfl⟩
    · cases a with
      | none => exact absurd hi (hnone rfl e he)
      | some it =>
        obtain ⟨e', he', hnode, hi'⟩ := hsome it rfl
        rw [← hnode, includes_unique h hr he he' hi hi']
    · cases a with
      | none => rfl
      | some it =>
        obtain ⟨e', he', _, hi'⟩ := hsome it rfl
        exact absurd hi' (hno e' he')
  | intersects r =>
    have hr : Plain r := hv
    obtain ⟨m', a, hs, hs₀, hinv, ht, hf, hsome, hnone⟩ := lookup_spec h h₀ htree hr
      (local_overlaps r) (c := fun r1 => r.intersects r1)
      (fun e he => intersects_eq hr (h.plain e he)) hok
    refine ⟨m', m₀, a, hs, hs₀, hinv, h₀, by rw [ht, htree], by rw [hf, hfresh],
      ⟨ht, ⟨hnone, fun hno => ?_⟩, hsome⟩, fun _ => rfl⟩
    cases a with
    | none => rfl
    | some it =>
      obtain ⟨e', he', _, ho⟩ := hsome it rfl
      exact absurd ho (hno e' he')

/-- Every call of the run satisfies `C` in the state where it is made. -/
def Calls (C : AddrRangeMap V → Op V → Prop) (n : Nat) (m : AddrRangeMap V) : List (Op V) → Prop
  | [] => True
  | op :: ops => C m op ∧ ∀ m' a, m.step n op = some (m', a) → Calls C n m' ops

theorem Calls.cons {C : AddrRangeMap V → Op V → Prop} {op : Op V} {ops : List (Op V)}
    {m' : AddrRangeMap V} {a : Option Nat} (h : C m op) (hstep : m.step n op = some (m', a))
    (hrest : Calls C n m' ops) : Calls C n m (op :: ops) := by
  refine ⟨h, fun m₁ a₁ h₁ => ?_⟩
  rw [hstep, Option.some.injEq, Prod.mk.injEq] at h₁
  rw [← h₁.1]
  exact hrest

/-- Every call is allowed and made in a state where it does what it should. -/
def RunOk (n : Nat) (m : AddrRangeMap V) (ops : List (Op V)) : Prop :=
  Calls (fun m op => Valid m op ∧ StepOk m op) n m ops

/-- A run with a cache, against the run without one that leaves the lookups out. -/
theorem run_agrees (h : Inv n m) {m₀ : AddrRangeMap V} (h₀ : Inv 0 m₀) (htree : m₀.tree = m.tree)
    (hfresh : m₀.fresh = m.fresh) {ops : List (Op V)} (hok : RunOk n m ops) :
    ∃ m' as m₀' as₀, m.run n ops = some (m', as) ∧
      m₀.run 0 (ops.filter Op.updates) = some (m₀', as₀) ∧ Inv n m' ∧ Inv 0 m₀' ∧
      m₀'.tree = m'.tree ∧ m₀'.fresh = m'.fresh := by
  induction ops generalizing m m₀ with
  | nil => exact ⟨m, [], m₀, [], rfl, rfl, h, h₀, htree, hfresh⟩
  | cons op ops ih =>
    obtain ⟨⟨hv, hs⟩, hrest⟩ := hok
    obtain ⟨m₁, m₀₁, a, hstep, hstep₀, hinv, hinv₀, ht, hf, _, hlook⟩ :=
      step_spec h h₀ htree hfresh hv hs
    obtain ⟨m', as, m₀', as₀, hrun, hrun₀, hend⟩ := ih hinv hinv₀ ht hf (hrest m₁ a hstep)
    cases hu : op.updates with
    | true =>
      refine ⟨m', a :: as, m₀', a :: as₀, by simp [AddrRangeMap.run, hstep, hrun], ?_, hend⟩
      simp [hu, AddrRangeMap.run, hstep₀, hrun₀]
    | false =>
      obtain rfl := hlook hu
      refine ⟨m', a :: as, m₀', as₀, by simp [AddrRangeMap.run, hstep, hrun], ?_, hend⟩
      simpa [List.filter_cons, hu] using hrun₀

end Steps

/-- After every run: the stored ranges are disjoint; the cached iterators are live and at most
    `max_cache_size`; each next call is answered as it should be, and as by a map without a cache
    that made the same updates and no lookup. -/
theorem cache_transparent (max_cache_size : Nat) (ops : List (Op V))
    (h : RunOk max_cache_size (empty : AddrRangeMap V) ops) :
    ∃ m as m₀ as₀, (empty : AddrRangeMap V).run max_cache_size ops = some (m, as) ∧
      (empty : AddrRangeMap V).run 0 (ops.filter Op.updates) = some (m₀, as₀) ∧
      (m.tree.Pairwise fun a b => ¬ Overlaps a.first b.first) ∧
      (∀ it ∈ m.cache, ∃ e ∈ m.tree, e.node = it) ∧ m.cache.length ≤ max_cache_size ∧
      ∀ op, Valid m op → StepOk m op → ∃ m' m₀' a, m.step max_cache_size op = some (m', a) ∧
        m₀.step 0 op = some (m₀', a) ∧ Answers m op a m' := by
  obtain ⟨m, as, m₀, as₀, hrun, hrun₀, hinv, hinv₀, htree, hfresh⟩ :=
    run_agrees (inv_empty max_cache_size) (inv_empty 0) rfl rfl h
  refine ⟨m, as, m₀, as₀, hrun, hrun₀, ?_, hinv.live, hinv.room, fun op hv hs => ?_⟩
  · refine hinv.apart.imp fun {a b} hab ho => ?_
    have := ho.1
    omega
  · obtain ⟨m', m₀', a, hstep, hstep₀, _, _, _, _, hans, _⟩ :=
      step_spec hinv hinv₀ htree hfresh hv hs
    exact ⟨m', m₀', a, hstep, hstep₀, hans⟩

/-- `RangeSize(start, 10)`. -/
def tenBytes (start : Nat) : AddrRange where
  _start := BitVec.ofNat 64 start
  _end := BitVec.ofNat 64 (start + 10)
  masks := []
  intlvMatch := 0
  match_fits := AddrRange.fits_nil

/-- With a cache of one, erasing the first of two ranges while the second is cached. -/
theorem cache_transparent_erase : ∃ m as m₀ as₀, (empty : AddrRangeMap Nat).run 1
        [.insert (tenBytes 0) 0, .insert (tenBytes 10) 1, .contains (tenBytes 10),
          .eraseRange (some 0) (some 1)] = some (m, as) ∧
      (empty : AddrRangeMap Nat).run 0
        [.insert (tenBytes 0) 0, .insert (tenBytes 10) 1, .eraseRange (some 0) (some 1)] =
          some (m₀, as₀) ∧
      (m.tree.Pairwise fun a b => ¬ Overlaps a.first b.first) ∧
      (∀ it ∈ m.cache, ∃ e ∈ m.tree, e.node = it) ∧ m.cache.length ≤ 1 ∧
      ∀ op, Valid m op → StepOk m op → ∃ m' m₀' a, m.step 1 op = some (m', a) ∧
        m₀.step 0 op = some (m₀', a) ∧ Answers m op a m' := by
  have hplain : ∀ k, k < 100 → Plain (tenBytes k) := by
    intro k hk
    refine ⟨?_, rfl⟩
    simp only [tenBytes, BitVec.toNat_ofNat]
    omega
  refine cache_transparent 1 [.insert (tenBytes 0) 0, .insert (tenBytes 10) 1,
    .contains (tenBytes 10), .eraseRange (some 0) (some 1)] ?_
  refine Calls.cons ⟨hplain 0 (by omega), trivial⟩ rfl ?_
  refine Calls.cons ⟨hplain 10 (by omega), trivial⟩ rfl ?_
  refine Calls.cons ⟨hplain 10 (by omega), trivial⟩ rfl ?_
  refine Calls.cons ⟨⟨_, _, rfl, _, _, rfl⟩, ?_⟩ rfl trivial
  intro b f e a hp hq it hit x hx hnode
  cases hp
  cases hq
  rw [List.mem_singleton.mp hx] at hnode
  exact congrArg some hnode.symm

/-- With the second range cached, `erase(begin(), end())` leaves its iterator in the cache of an
    empty map, and the next lookup follows it. -/
theorem eraseRange_leaves_cached : Calls Valid 1 (empty : AddrRangeMap Nat)
      [.insert (tenBytes 0) 0, .insert (tenBytes 10) 1, .contains (tenBytes 10),
        .eraseRange (some 0) none, .contains (tenBytes 0)] ∧
    ∃ m as, (empty : AddrRangeMap Nat).run 1
        [.insert (tenBytes 0) 0, .insert (tenBytes 10) 1, .contains (tenBytes 10),
          .eraseRange (some 0) none] = some (m, as) ∧
      m.cache = [1] ∧ m.tree = [] ∧ m.step 1 (.contains (tenBytes 0)) = none := by
  have hplain : ∀ k, k < 100 → Plain (tenBytes k) := by
    intro k hk
    refine ⟨?_, rfl⟩
    simp only [tenBytes, BitVec.toNat_ofNat]
    omega
  refine ⟨?_, _, _, rfl, rfl, rfl, rfl⟩
  refine Calls.cons (hplain 0 (by omega)) rfl ?_
  refine Calls.cons (hplain 10 (by omega)) rfl ?_
  refine Calls.cons (hplain 10 (by omega)) rfl ?_
  refine Calls.cons ⟨_, _, rfl, _, _, rfl⟩ rfl ?_
  exact ⟨hplain 0 (by omega), fun _ _ _ => trivial⟩

/- Two stored ranges overlap `[5, 15)`; which of them `intersects` returns depends on the cache. -/
example : ((empty : AddrRangeMap Nat).run 1 [.insert (tenBytes 0) 0, .insert (tenBytes 10) 1,
      .contains (tenBytes 0), .intersects (tenBytes 5)]).map Prod.snd =
        some [some 0, some 1, some 0, some 0] ∧
    ((empty : AddrRangeMap Nat).run 0 [.insert (tenBytes 0) 0, .insert (tenBytes 10) 1,
      .contains (tenBytes 0), .intersects (tenBytes 5)]).map Prod.snd =
        some [some 0, some 1, some 0, some 1] :=
  ⟨rfl, rfl⟩

end AddrMap

end Gem5Dvr
