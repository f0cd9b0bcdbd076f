/-
  The stalling slice table (`SST`, `cpu/o3/pre.hh`, `pre.cc`).

  1. **Program** — the recency list `L` and the map `M` from an address to its list node.  A list node
     keeps its identity when it is spliced, so `L` lists NODES and `value` says what each holds: an
     iterator is a node.  The constructor's assertion is a field of `Params`.

  2. **Specification** — `Watched` keeps the uses beside the table, last first: an address is used
     when it is added and when it is looked up with a hit.  `hasInst` is to answer by stack distance.

  3. **The crux (`Agree`)** — with the addresses `keys` in the table, the first `|M|` nodes of `L` hold
     `keys` in order and are the mapped ones; the nodes behind them are the ones not used yet, whose
     dummy zero is nobody's.  `M.erase(L.back())` erases only when all the nodes are mapped, so it
     never mistakes that zero for the address 0.

  The program counter of a `DynInst` is the address here.
-/
import Gem5Dvr.Lib.Recency
import Gem5Dvr.Lib.Table
import Mathlib.Data.BitVec
import Mathlib.Logic.Function.Basic

namespace Gem5Dvr.Sst

open List

/-! ## The program -/

abbrev Addr := BitVec 64

/-- A node of the list `L`. -/
abbrev Node := Nat

/-- `numSSTEntries`, which the constructor asserts to be positive. -/
structure Params where
  numEntries : Nat
  numEntries_pos : 0 < numEntries

/-- The stalling slice table. -/
structure SST (p : Params) where
  L : List Node := List.range p.numEntries
  value : Node → Addr := fun _ => 0
  M : AList (fun _ : Addr => Node) := ∅

namespace SST

variable {p : Params}

/-- `M.size()`. -/
def size (s : SST p) : Nat := s.M.entries.length

/-- `L.splice(L.begin(), L, node)`. -/
def splice (s : SST p) (node : Node) : SST p := { s with L := node :: s.L.erase node }

/-- The map entry of the last node goes when every node is in use. -/
def makeRoom (s : SST p) (back : Node) : SST p :=
  if s.size = p.numEntries then { s with M := s.M.erase (s.value back) } else s

/-- The last node takes the address and comes to the front. -/
def place (s : SST p) (back : Node) (addr : Addr) : SST p :=
  { L := back :: s.L.erase back
    value := Function.update s.value back addr
    M := s.M.insert addr back }

/-- A known address comes to the front, another one takes the last node. -/
def addInst (s : SST p) (addr : Addr) : SST p :=
  match s.M.lookup addr with
  | some node => s.splice node
  | none =>
      match s.L.getLast? with
      | none => s
      | some back => (s.makeRoom back).place back addr

/-- The value returned is whether the address was found. -/
def hasInst (s : SST p) (addr : Addr) : SST p × Bool :=
  match s.M.lookup addr with
  | some node => (s.splice node, true)
  | none => (s, false)

end SST

/-! ## Uses -/

/-- The calls. -/
inductive Event
  | addInst (addr : Addr)
  | hasInst (addr : Addr)
  deriving DecidableEq, Repr

/-- A table, with the addresses used so far, the last one first. -/
structure Watched (p : Params) where
  table : SST p := {}
  uses : List Addr := []

variable {p : Params}

/-- A call; a lookup is a use when it hits. -/
def step (w : Watched p) : Event → Watched p
  | .addInst addr => ⟨w.table.addInst addr, addr :: w.uses⟩
  | .hasInst addr =>
      let (table, found) := w.table.hasInst addr
      ⟨table, if found then addr :: w.uses else w.uses⟩

/-- A fresh table after a sequence of calls. -/
def run (p : Params) (es : List Event) : Watched p := es.foldl step {}

/-! ## List and map agree -/

/-- The table holds `keys`, the most recent one first: in its first nodes, which are the mapped
    ones. -/
structure Agree (s : SST p) (keys : List Addr) : Prop where
  nodup : s.L.Nodup
  length : s.L.length = p.numEntries
  values : (s.L.take s.size).map s.value = keys
  lookup : ∀ addr node, s.M.lookup addr = some node ↔ node ∈ s.L.take s.size ∧ s.value node = addr

namespace Agree

variable {s : SST p} {keys : List Addr}

theorem mem_keys (h : Agree s keys) (addr : Addr) : (s.M.lookup addr).isSome = true ↔ addr ∈ keys := by
  rw [← h.values, Option.isSome_iff_exists, mem_map]
  exact exists_congr (h.lookup addr)

/-- The map has no more entries than the list has nodes: distinct addresses, distinct nodes. -/
theorem size_le (h : Agree s keys) : s.size ≤ p.numEntries := by
  have hnodes : (s.M.entries.map Sigma.snd).Nodup := by
    apply (nodup_map_iff_inj_on s.M.nodupKeys.nodup).mpr
    intro e he e' he' heq
    have hin : ∀ e ∈ s.M.entries, s.value e.2 = e.1 := fun e he =>
      ((h.lookup e.1 e.2).mp (mem_dlookup s.M.nodupKeys he)).2
    have hkey : e.1 = e'.1 := by rw [← hin e he, ← hin e' he', heq]
    exact Sigma.ext hkey (heq_of_eq heq)
  have hsub : (s.M.entries.map Sigma.snd) ⊆ s.L := by
    intro node hnode
    obtain ⟨e, he, rfl⟩ := mem_map.mp hnode
    exact mem_of_mem_take ((h.lookup e.1 e.2).mp (mem_dlookup s.M.nodupKeys he)).1
  have hle := (hnodes.subperm hsub).length_le
  rw [length_map, h.length] at hle
  exact hle

theorem keys_length (h : Agree s keys) : keys.length = s.size := by
  have hle := h.size_le
  have hlen := congrArg List.length h.values
  rw [length_map, length_take, h.length] at hlen
  omega

/-- The nodes in use hold distinct addresses. -/
theorem value_inj (h : Agree s keys) {node node' : Node} (hn : node ∈ s.L.take s.size)
    (hn' : node' ∈ s.L.take s.size) (heq : s.value node = s.value node') : node = node' := by
  have h1 := (h.lookup (s.value node') node).mpr ⟨hn, heq⟩
  have h2 := (h.lookup (s.value node') node').mpr ⟨hn', rfl⟩
  exact Option.some.inj (h1.symm.trans h2)

end Agree

/-- Erasing a node erases its address, where the addresses are distinct. -/
theorem map_erase_of_inj {f : Node → Addr} {l : List Node} {node : Node} (hnode : node ∈ l)
    (hinj : ∀ other ∈ l, f other = f node → other = node) :
    (l.erase node).map f = (l.map f).erase (f node) := by
  induction l with
  | nil => rfl
  | cons x l ih =>
    by_cases hx : x = node
    · subst hx
      rw [erase_cons_head, map_cons, erase_cons_head]
    · have hfx : ¬ f x = f node := fun heq => hx (hinj x mem_cons_self heq)
      have hin : node ∈ l := (mem_cons.mp hnode).resolve_left fun heq => hx heq.symm
      rw [erase_cons_tail (by simpa using hx), map_cons, map_cons,
        erase_cons_tail (by simpa using hfx),
        ih hin fun other ho => hinj other (mem_cons_of_mem x ho)]

namespace Agree

variable {s : SST p} {keys : List Addr}

/-- A hit moves the address to the front. -/
theorem splice (h : Agree s keys) {addr : Addr} {node : Node} (hl : s.M.lookup addr = some node) :
    Agree (s.splice node) (addr :: keys.erase addr) := by
  obtain ⟨hmem, hvalue⟩ := (h.lookup addr node).mp hl
  have hin : node ∈ s.L := mem_of_mem_take hmem
  obtain ⟨k, hk⟩ : ∃ k, s.size = k + 1 := by
    cases hs : s.size with
    | zero =>
      rw [hs] at hmem
      cases hmem
    | succ k => exact ⟨k, rfl⟩
  have htake : (s.splice node).L.take s.size = node :: (s.L.take s.size).erase node := by
    rw [hk] at hmem ⊢
    rw [← Recency.take_erase_of_mem hmem]
    rfl
  constructor
  · show (node :: s.L.erase node).Nodup
    rw [nodup_cons]
    exact ⟨h.nodup.not_mem_erase, h.nodup.erase node⟩
  · show (node :: s.L.erase node).length = _
    have hpos := length_pos_of_mem hin
    rw [length_cons, length_erase_of_mem hin, ← h.length]
    omega
  · show ((s.splice node).L.take s.size).map s.value = _
    rw [htake, map_cons, map_erase_of_inj hmem fun other ho heq => h.value_inj ho hmem heq,
      h.values, hvalue]
  · intro a n
    show s.M.lookup a = some n ↔ n ∈ (s.splice node).L.take s.size ∧ s.value n = a
    rw [htake, h.lookup a n]
    have hperm := (List.perm_cons_erase hmem).mem_iff (a := n)
    rw [hperm]

/-- The last node, apart from the others. -/
theorem split_back (h : Agree s keys) {back : Node} (hback : s.L.getLast? = some back) :
    s.L = s.L.take (p.numEntries - 1) ++ [back] ∧ back ∉ s.L.take (p.numEntries - 1) := by
  have hsplit : s.L = s.L.take (p.numEntries - 1) ++ [back] := by
    rw [← h.length, ← dropLast_eq_take]
    exact (dropLast_append_getLast? back hback).symm
  have hnd := h.nodup
  rw [hsplit] at hnd
  refine ⟨hsplit, fun hmem => ?_⟩
  exact (nodup_append.mp hnd).2.2 back hmem back (mem_singleton_self back) rfl

/-- Making room leaves a place, and forgets the least recent address. -/
theorem makeRoom (h : Agree s keys) {back : Node} (hback : s.L.getLast? = some back) :
    Agree (s.makeRoom back) (keys.take (p.numEntries - 1)) ∧ (s.makeRoom back).size < p.numEntries := by
  have hle := h.size_le
  have hlen := h.keys_length
  unfold SST.makeRoom
  by_cases hfull : s.size = p.numEntries
  · rw [if_pos hfull]
    have hall : s.L.take s.size = s.L := take_of_length_le (by rw [h.length]; omega)
    have hin : back ∈ s.L := mem_of_getLast? hback
    have hlook : s.M.lookup (s.value back) = some back := (h.lookup _ _).mpr ⟨by rwa [hall], rfl⟩
    have hsize : s.size = (s.M.erase (s.value back)).entries.length + 1 := by
      have htotal := Table.total_erase (fun (_ : Addr) (_ : Node) => 1) hlook
      rw [Table.total_one_eq_length, Table.total_one_eq_length] at htotal
      show s.M.entries.length = _
      omega
    obtain ⟨hsplit, hnotin⟩ := h.split_back hback
    have hnew : (s.M.erase (s.value back)).entries.length = p.numEntries - 1 := by omega
    refine ⟨⟨h.nodup, h.length, ?_, ?_⟩, ?_⟩
    · show (s.L.take (s.M.erase (s.value back)).entries.length).map s.value = _
      rw [hnew, ← h.values, hall, map_take]
    · intro a n
      show (s.M.erase (s.value back)).lookup a = some n
        ↔ n ∈ s.L.take (s.M.erase (s.value back)).entries.length ∧ s.value n = a
      rw [hnew]
      by_cases ha : a = s.value back
      · subst ha
        refine iff_of_false (by simp) ?_
        rintro ⟨hn, hv⟩
        have hnL : n ∈ s.L := mem_of_mem_take hn
        have heq := h.value_inj (by rwa [hall]) (by rwa [hall]) hv
        exact hnotin (heq ▸ hn)
      · rw [AList.lookup_erase_ne ha, h.lookup a n, hall]
        constructor
        · rintro ⟨hn, hv⟩
          refine ⟨?_, hv⟩
          rw [hsplit, mem_append, mem_singleton] at hn
          rcases hn with hn | hn
          · exact hn
          · exact absurd (hn ▸ hv.symm) ha
        · rintro ⟨hn, hv⟩
          exact ⟨mem_of_mem_take hn, hv⟩
    · show (s.M.erase (s.value back)).entries.length < _
      omega
  · rw [if_neg hfull]
    have hshort : keys.take (p.numEntries - 1) = keys := take_of_length_le (by omega)
    rw [hshort]
    exact ⟨h, by omega⟩

/-- A node that is not in use takes an address that is not in the table. -/
theorem place (h : Agree s keys) {back : Node} (hback : s.L.getLast? = some back)
    (hroom : s.size < p.numEntries) {addr : Addr} (haddr : addr ∉ keys) :
    Agree (s.place back addr) (addr :: keys) := by
  have hnone : s.M.lookup addr = none := by
    rw [← Option.not_isSome_iff_eq_none, h.mem_keys]
    exact haddr
  obtain ⟨hsplit, hnotin⟩ := h.split_back hback
  have hfirst : ∀ n, n ∈ s.L.take s.size → n ∈ s.L.take (p.numEntries - 1) := fun n hn =>
    (take_prefix_take_left (by omega)).subset hn
  have hunused : ∀ n ∈ s.L.take s.size, n ≠ back := fun n hn heq => hnotin (heq ▸ hfirst n hn)
  have herase : s.L.erase back = s.L.take (p.numEntries - 1) := by
    conv_lhs => rw [hsplit]
    rw [erase_append_right _ hnotin, erase_cons_head, append_nil]
  have hsize : (s.place back addr).size = s.size + 1 := by
    have hcount := Table.total_insert (fun (_ : Addr) (_ : Node) => 1) hnone back
    rw [Table.total_one_eq_length, Table.total_one_eq_length] at hcount
    show (s.M.insert addr back).entries.length = s.M.entries.length + 1
    omega
  have htake : (s.place back addr).L.take (s.size + 1) = back :: s.L.take s.size := by
    show (back :: s.L.erase back).take (s.size + 1) = _
    rw [herase, take_succ_cons, take_take, Nat.min_eq_left (by omega)]
  have hvalue : ∀ n ∈ s.L.take s.size, (s.place back addr).value n = s.value n := fun n hn =>
    Function.update_of_ne (hunused n hn) _ _
  have hnew : (s.place back addr).value back = addr := by simp [SST.place]
  constructor
  · show (back :: s.L.erase back).Nodup
    rw [nodup_cons]
    exact ⟨h.nodup.not_mem_erase, h.nodup.erase back⟩
  · show (back :: s.L.erase back).length = _
    rw [herase, length_cons, length_take, h.length]
    omega
  · rw [hsize, htake, map_cons, map_congr_left hvalue, h.values, hnew]
  · intro a n
    rw [hsize, htake, mem_cons]
    by_cases ha : a = addr
    · -- the new entry is the last node's
      subst ha
      rw [show (s.place back a).M.lookup a = some back from AList.lookup_insert _]
      constructor
      · intro heq
        cases heq
        exact ⟨Or.inl rfl, hnew⟩
      · rintro ⟨hn | hn, hv⟩
        · rw [hn]
        · rw [hvalue n hn] at hv
          have hlook := (h.lookup a n).mpr ⟨hn, hv⟩
          rw [hnone] at hlook
          cases hlook
    · rw [show (s.place back addr).M.lookup a = s.M.lookup a from AList.lookup_insert_ne ha,
        h.lookup a n]
      constructor
      · rintro ⟨hn, hv⟩
        exact ⟨Or.inr hn, by rw [hvalue n hn, hv]⟩
      · rintro ⟨hn | hn, hv⟩
        · subst hn
          exact absurd (hv.symm.trans hnew) ha
        · exact ⟨hn, by rw [← hvalue n hn, hv]⟩

end Agree

/-! ## Every sequence of calls -/

/-- The table holds the addresses used last. -/
abbrev Holds (w : Watched p) : Prop := Agree w.table ((Recency.order w.uses).take p.numEntries)

theorem holds_init (p : Params) : Holds ({} : Watched p) := by
  constructor
  · exact nodup_range
  · exact length_range
  · show ((List.range p.numEntries).take 0).map _ = ([] : List Addr).take p.numEntries
    rw [take_zero, take_nil]
    rfl
  · intro addr node
    refine iff_of_false (by simp) ?_
    rintro ⟨hmem, -⟩
    cases hmem

theorem Holds.addInst {w : Watched p} (h : Holds w) (addr : Addr) :
    Holds (step w (.addInst addr)) := by
  have hpos := p.numEntries_pos
  show Agree (w.table.addInst addr) ((Recency.order (addr :: w.uses)).take p.numEntries)
  unfold SST.addInst
  cases hl : w.table.M.lookup addr with
  | some node =>
    have hmem := (h.mem_keys addr).mp (by rw [hl]; rfl)
    rw [Recency.take_order_hit hmem]
    exact h.splice hl
  | none =>
    have hmiss : addr ∉ (Recency.order w.uses).take p.numEntries := by
      rw [← h.mem_keys, hl]
      exact Bool.false_ne_true
    obtain ⟨back, hback⟩ : ∃ back, w.table.L.getLast? = some back := by
      apply Option.isSome_iff_exists.mp
      rw [getLast?_isSome]
      intro hnil
      have hlen := h.length
      rw [hnil, length_nil] at hlen
      omega
    obtain ⟨hroom, hlt⟩ := h.makeRoom hback
    have hL : (w.table.makeRoom back).L = w.table.L := by
      unfold SST.makeRoom
      split_ifs <;> rfl
    obtain ⟨k, hk⟩ : ∃ k, p.numEntries = k + 1 := ⟨p.numEntries - 1, by omega⟩
    have hout : addr ∉ ((Recency.order w.uses).take p.numEntries).take (p.numEntries - 1) :=
      fun hin => hmiss (mem_of_mem_take hin)
    have hplace := hroom.place (by rw [hL]; exact hback) hlt hout
    simp only [hback]
    rw [Recency.take_order_miss hpos hmiss]
    rw [hk] at hplace ⊢
    exact hplace

theorem Holds.hasInst {w : Watched p} (h : Holds w) (addr : Addr) :
    Holds (step w (.hasInst addr)) := by
  show Agree (w.table.hasInst addr).1 ((Recency.order
    (if (w.table.hasInst addr).2 then addr :: w.uses else w.uses)).take p.numEntries)
  unfold SST.hasInst
  cases hl : w.table.M.lookup addr with
  | some node =>
    have hmem := (h.mem_keys addr).mp (by rw [hl]; rfl)
    rw [if_pos rfl, Recency.take_order_hit hmem]
    exact h.splice hl
  | none => exact h

theorem Holds.found_iff {w : Watched p} (h : Holds w) (addr : Addr) :
    (w.table.hasInst addr).2 = true ↔
      addr ∈ w.uses ∧ (Recency.since addr w.uses).toFinset.card < p.numEntries := by
  rw [← Recency.mem_take_order, ← h.mem_keys]
  unfold SST.hasInst
  cases w.table.M.lookup addr <;> simp

theorem holds_run (p : Params) (es : List Event) : Holds (run p es) := by
  refine List.foldlRecOn (motive := Holds) es _ (holds_init p) fun w h e _ => ?_
  cases e with
  | addInst addr => exact h.addInst addr
  | hasInst addr => exact h.hasInst addr

/-- A lookup that hits uses an address that was added before. -/
theorem mem_uses_iff (p : Params) (es : List Event) (addr : Addr) :
    addr ∈ (run p es).uses ↔ Event.addInst addr ∈ es := by
  induction es using reverseRecOn with
  | nil => simp [run]
  | append_singleton es e ih =>
    have hrun : run p (es ++ [e]) = step (run p es) e := by
      rw [run, foldl_append]
      rfl
    rw [hrun, mem_append, mem_singleton, ← ih]
    cases e with
    | addInst other =>
      show addr ∈ other :: (run p es).uses ↔ _
      rw [mem_cons, Event.addInst.injEq]
      exact or_comm
    | hasInst other =>
      show addr ∈ (if ((run p es).table.hasInst other).2 then other :: (run p es).uses
        else (run p es).uses) ↔ _
      split_ifs with hfound
      · have hin := (((holds_run p es).found_iff other).mp hfound).1
        simp only [mem_cons, or_false]
        exact ⟨fun h => h.elim (fun heq => heq ▸ hin) id, Or.inr⟩
      · simp

/-- The table is the set of the `numEntries` addresses used last, and list and map agree. -/
theorem sst_exact_lru (p : Params) (es : List Event) :
    let w := run p es
    let s := w.table
    (∀ addr, (s.hasInst addr).2 = true ↔
      Event.addInst addr ∈ es ∧ (Recency.since addr w.uses).toFinset.card < p.numEntries) ∧
    (∀ addr node, s.M.lookup addr = some node → node ∈ s.L ∧ s.value node = addr) ∧
    (∀ node, (∃ addr, s.M.lookup addr = some node) ↔ node ∈ s.L.take s.size) ∧
    s.L.Nodup ∧ s.L.length = p.numEntries := by
  have h := holds_run p es
  refine ⟨?_, ?_, ?_, h.nodup, h.length⟩
  · intro addr
    rw [h.found_iff, mem_uses_iff]
  · intro addr node hl
    obtain ⟨hmem, hvalue⟩ := (h.lookup addr node).mp hl
    exact ⟨mem_of_mem_take hmem, hvalue⟩
  · intro node
    constructor
    · rintro ⟨addr, hl⟩
      exact ((h.lookup addr node).mp hl).1
    · intro hmem
      exact ⟨_, (h.lookup _ node).mpr ⟨hmem, rfl⟩⟩

/-- A table of two entries. -/
def twoEntries : Params := ⟨2, Nat.two_pos⟩

/-- The address that was not looked up is the one that makes room. -/
def lookupBetween : List Event := [.addInst 1, .addInst 2, .hasInst 1, .addInst 3]

/-- The address that was looked up stays. -/
theorem sst_exact_lru_two :
    let s := (run twoEntries lookupBetween).table
    (s.hasInst 1).2 = true ∧ (s.hasInst 2).2 = false ∧ s.L.Nodup ∧ s.L.length = 2 := by
  obtain ⟨hfound, _, _, hnodup, hlength⟩ := sst_exact_lru twoEntries lookupBetween
  refine ⟨(hfound 1).mpr (by decide), ?_, hnodup, hlength⟩
  rw [← Bool.not_eq_true, hfound 2]
  decide

end Gem5Dvr.Sst
