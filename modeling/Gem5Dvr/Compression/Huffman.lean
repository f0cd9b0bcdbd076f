/-
  The Huffman encoder of the cache compressors (`mem/cache/compressors/encoders/huffman.hh`,
  `huffman.cc`).

  `sample` queues one leaf for each value, `buildTree` merges the two least frequent trees until one
  is left, and `generateCodes` walks the tree: right is a `1`, left is a `0`, and a leaf below
  `maxCodeLength` is entered in two tables, value to code and NUMERIC code to value.

  1. **Program** — the queue is the standard library's: `top` is one of the least frequent trees, and
     which one of several is not specified.  `PriorityQueue` is any queue that does this.

  2. **Specification** — `leaves`: the paths of a tree with their values, in the order of the walk.
     A code is its path read as a number, with the length of the path next to it.

  3. **The crux (`number_eq_iff`)** — two paths are the same NUMBER just when one is the other behind
     left turns.  Paths are prefix free, numbers are not injective on them: `1` and `01` are two
     leaves and one number, and `codeToValue` keeps the second.
-/
import Mathlib.Data.BitVec
import Mathlib.Data.Multiset.Bind
import Mathlib.Data.List.MinMax
import Mathlib.Logic.Function.Basic

namespace Gem5Dvr.Huffman

open List Function

/-! ## The program -/

/-- `uint64_t`. -/
abbrev Value := BitVec 64

/-- `encoder::Code`: only the low bits of `code` count. -/
structure Code where
  code : BitVec 64 := 0
  length : Nat := 0
  deriving DecidableEq, Repr

/-- `Huffman::Node`: a leaf, or an internal node. -/
inductive Node
  | leaf (value : Value) (frequency : BitVec 64)
  | parent (left right : Node)
  deriving DecidableEq, Repr

/-- The sum of an internal node is an `uint64_t`. -/
def Node.getFrequency : Node → BitVec 64
  | .leaf _ frequency => frequency
  | .parent left right => left.getFrequency + right.getFrequency

/-- `std::priority_queue` under `NodeComparator`. -/
structure PriorityQueue where
  Queue : Type
  empty : Queue
  push : Queue → Node → Queue
  /-- `top` and `pop`. -/
  pop : Queue → Option (Node × Queue)
  contents : Queue → Multiset Node
  contents_empty : contents empty = 0
  contents_push : ∀ q n, contents (push q n) = n ::ₘ contents q
  pop_none : ∀ q, pop q = none → contents q = 0
  pop_some : ∀ q n q', pop q = some (n, q') → contents q = n ::ₘ contents q' ∧
    ∀ x ∈ contents q', n.getFrequency ≤ x.getFrequency

/-- One call of `sample`. -/
structure Sample where
  value : Value
  frequency : BitVec 64
  deriving DecidableEq, Repr

/-- A leaf for a value that occurs. -/
def sample (Q : PriorityQueue) (trees : Q.Queue) (s : Sample) : Q.Queue :=
  if s.frequency ≠ 0 then Q.push trees (.leaf s.value s.frequency) else trees

/-- The queue after a sequence of samples. -/
def sampleAll (Q : PriorityQueue) (samples : List Sample) : Q.Queue :=
  samples.foldl (sample Q) Q.empty

/-- The loop of `buildTree`; every round takes two trees and puts one back. -/
def mergeTrees (Q : PriorityQueue) : Nat → Q.Queue → Option Node
  | 0, _ => none
  | rounds + 1, trees =>
      match Q.pop trees with
      | none => none
      | some (left, trees) =>
          match Q.pop trees with
          | none => some left
          | some (right, trees) => mergeTrees Q rounds (Q.push trees (.parent left right))

/-- `none` when nothing was sampled: the source then takes the top of an empty queue. -/
def buildTree (Q : PriorityQueue) (trees : Q.Queue) : Option Node :=
  mergeTrees Q (Q.contents trees).card trees

/-- The two tables. -/
structure Tables where
  valueToCode : Value → Option Code := fun _ => none
  codeToValue : BitVec 64 → Option Value := fun _ => none

/-- One leaf. -/
def Tables.enter (t : Tables) (value : Value) (c : Code) : Tables where
  valueToCode := update t.valueToCode value (some c)
  codeToValue := update t.codeToValue c.code (some value)

/-- The code of the right child. -/
def Code.right (c : Code) : Code := ⟨c.code <<< 1 + 1, c.length + 1⟩

/-- The code of the left child. -/
def Code.left (c : Code) : Code := ⟨c.code <<< 1, c.length + 1⟩

/-- Every leaf that is not too deep gets its path. -/
def generateCodes (maxCodeLength : Nat) : Node → Code → Tables → Tables
  | .leaf value _, current_code, t =>
      if maxCodeLength < current_code.length then t else t.enter value current_code
  | .parent left right, current_code, t =>
      if maxCodeLength < current_code.length then t
      else generateCodes maxCodeLength left current_code.left
        (generateCodes maxCodeLength right current_code.right t)

/-- `generateCodeMaps` on the tree that was built. -/
def generateCodeMaps (maxCodeLength : Nat) (root : Node) : Tables :=
  generateCodes maxCodeLength root {} {}

/-- An unknown value has a code of an invalid length. -/
def encode (t : Tables) (val : Value) : Code := (t.valueToCode val).getD ⟨0, 65⟩

/-- `none` is the failed assertion. -/
def decode (t : Tables) (code : BitVec 64) : Option Value := t.codeToValue code

/-! ## Paths -/

/-- The paths to the leaves, in the order of the walk; `true` is right. -/
def leaves : Node → List (List Bool × Value)
  | .leaf value _ => [([], value)]
  | .parent left right =>
      (leaves right).map (fun l => (true :: l.1, l.2)) ++
        (leaves left).map (fun l => (false :: l.1, l.2))

/-- A path read as a number, the first turn as the highest bit. -/
def number (p : List Bool) : Nat := p.foldl (fun n b => 2 * n + b.toNat) 0

/-- The code of a path. -/
def codeOf (p : List Bool) : Code := ⟨BitVec.ofNat 64 (number p), p.length⟩

/-- The bit string of a code, highest bit first. -/
def Code.bits (c : Code) : List Bool := (List.range c.length).reverse.map c.code.getLsbD

/-- The leaves that get a code. -/
def coded (maxCodeLength : Nat) (root : Node) : List (List Bool × Value) :=
  (leaves root).filter fun l => l.1.length ≤ maxCodeLength

/-! ### Numbers -/

theorem number_append (p : List Bool) (b : Bool) : number (p ++ [b]) = 2 * number p + b.toNat := by
  rw [number, foldl_append]
  rfl

theorem number_lt (p : List Bool) : number p < 2 ^ p.length := by
  induction p using reverseRecOn with
  | nil => decide
  | append_singleton p b ih =>
    have hb := Bool.toNat_lt b
    rw [number_append, length_append, length_singleton, Nat.pow_succ]
    omega

/-- Left turns in front do not count. -/
theorem number_pad (k : Nat) (p : List Bool) : number (replicate k false ++ p) = number p := by
  have hzero : (replicate k false).foldl (fun n b => 2 * n + b.toNat) 0 = 0 := by
    induction k with
    | zero => rfl
    | succ k ih => simpa [replicate_succ] using ih
  rw [number, foldl_append, hzero]
  rfl

/-- At one length a number is one path. -/
theorem number_injective {p q : List Bool} (hlen : p.length = q.length)
    (h : number p = number q) : p = q := by
  induction p using reverseRecOn generalizing q with
  | nil => exact (eq_nil_of_length_eq_zero hlen.symm).symm
  | append_singleton p b ih =>
    rcases eq_nil_or_concat q with rfl | ⟨q, c, rfl⟩
    · simp at hlen
    · rw [concat_eq_append] at hlen h ⊢
      rw [number_append, number_append] at h
      have hb := Bool.toNat_lt b
      have hc := Bool.toNat_lt c
      have hbc : b.toNat = c.toNat := by omega
      have hpq : number p = number q := by omega
      have hlen' : p.length = q.length := by simpa using hlen
      have hcast : b = c := by
        cases b <;> cases c <;> simp at hbc ⊢
      rw [ih hlen' hpq, hcast]

/-- `q` is `p` behind left turns. -/
def Padded (p q : List Bool) : Prop := q = replicate (q.length - p.length) false ++ p

instance (p q : List Bool) : Decidable (Padded p q) := inferInstanceAs (Decidable (_ = _))

/-- Two paths are one number just when one is the other behind left turns. -/
theorem number_eq_iff (p q : List Bool) : number p = number q ↔ Padded p q ∨ Padded q p := by
  constructor
  · intro h
    rcases Nat.le_total p.length q.length with hle | hle
    · left
      apply number_injective
      · simp only [length_append, length_replicate]
        omega
      · rw [number_pad, h]
    · right
      apply number_injective
      · simp only [length_append, length_replicate]
        omega
      · rw [number_pad, h]
  · rintro (h | h)
    · rw [h, number_pad]
    · rw [h, number_pad]

/-! ### The bits of a code -/

theorem testBit_number (p : List Bool) (i : Nat) :
    (number p).testBit i = p.reverse.getD i false := by
  induction p using reverseRecOn generalizing i with
  | nil => simp [number]
  | append_singleton p b ih =>
    rw [number_append, reverse_append, reverse_singleton, singleton_append]
    cases i with
    | zero => cases b <;> simp [Nat.testBit_zero]
    | succ i =>
      have hdiv : (2 * number p + b.toNat) / 2 = number p := by
        have hb := Bool.toNat_lt b
        omega
      rw [Nat.testBit_succ, hdiv, ih i]
      rfl

/-- A code that fits its container is its path. -/
theorem bits_codeOf {p : List Bool} (h : p.length ≤ 64) : (codeOf p).bits = p := by
  apply reverse_injective
  rw [Code.bits, ← map_reverse, reverse_reverse]
  apply ext_getElem
  · simp [codeOf]
  · intro i hi hi'
    have hlt : i < p.length := by simpa using hi'
    have hbit := testBit_number p i
    rw [getD_eq_getElem?_getD, getElem?_eq_getElem hi', Option.getD_some] at hbit
    simp only [getElem_map, getElem_range, codeOf, BitVec.getLsbD_ofNat, hbit]
    simp only [decide_eq_true (show i < 64 by omega), Bool.true_and]

/-! ## The walk -/

/-- The code after the turns of a path. -/
def extend (c : Code) (p : List Bool) : Code := p.foldl (fun c b => if b then c.right else c.left) c

theorem extend_root (p : List Bool) : extend {} p = codeOf p := by
  induction p using reverseRecOn with
  | nil => rfl
  | append_singleton p b ih =>
    have hstep : extend {} (p ++ [b]) = if b then (extend {} p).right else (extend {} p).left := by
      rw [extend, foldl_append]
      rfl
    rw [hstep, ih]
    have hshift : BitVec.ofNat 64 (number p) <<< 1 = BitVec.ofNat 64 (2 * number p) := by
      apply BitVec.eq_of_toNat_eq
      simp [Nat.shiftLeft_eq, Nat.mul_comm]
    cases b with
    | true =>
      simp only [codeOf, Code.right, number_append, hshift, if_true, length_append,
        length_singleton, Bool.toNat_true]
      rw [BitVec.ofNat_add]
      rfl
    | false =>
      simp only [codeOf, Code.left, number_append, hshift, length_append,
        length_singleton, Bool.toNat_false, Nat.add_zero, Bool.false_eq_true, if_false]

/-- What the walk does at a leaf. -/
def visit (maxCodeLength : Nat) (c : Code) (t : Tables) (l : List Bool × Value) : Tables :=
  if maxCodeLength < c.length + l.1.length then t else t.enter l.2 (extend c l.1)

/-- The walk visits the leaves; it turns back only where all leaves are too deep. -/
theorem generateCodes_eq (maxCodeLength : Nat) (node : Node) (c : Code) (t : Tables) :
    generateCodes maxCodeLength node c t = (leaves node).foldl (visit maxCodeLength c) t := by
  induction node generalizing c t with
  | leaf value frequency => rfl
  | parent left right ihl ihr =>
    by_cases hdeep : maxCodeLength < c.length
    · have hskip : ∀ (ls : List (List Bool × Value)) (t : Tables),
          ls.foldl (visit maxCodeLength c) t = t := by
        intro ls
        induction ls with
        | nil => exact fun t => rfl
        | cons l ls ih =>
          intro t
          rw [foldl_cons, visit, if_pos (by omega), ih]
      rw [generateCodes, if_pos hdeep, hskip]
    · have hright : ∀ t l, visit maxCodeLength c t (true :: l.1, l.2)
          = visit maxCodeLength c.right t l := by
        intro t l
        simp only [visit, Code.right, length_cons, Nat.add_right_comm, Nat.add_assoc]
        rfl
      have hleft : ∀ t l, visit maxCodeLength c t (false :: l.1, l.2)
          = visit maxCodeLength c.left t l := by
        intro t l
        simp only [visit, Code.left, length_cons, Nat.add_right_comm, Nat.add_assoc]
        rfl
      rw [generateCodes, if_neg hdeep, ihr, ihl, leaves, foldl_append, foldl_map, foldl_map]
      simp only [hright, hleft]

/-- The tables are filled with the coded leaves, in the order of the walk. -/
theorem generateCodeMaps_eq (maxCodeLength : Nat) (root : Node) :
    generateCodeMaps maxCodeLength root
      = (coded maxCodeLength root).foldl (fun t l => t.enter l.2 (codeOf l.1)) {} := by
  rw [generateCodeMaps, generateCodes_eq, coded]
  generalize ({} : Tables) = t
  induction leaves root generalizing t with
  | nil => rfl
  | cons l ls ih =>
    rw [foldl_cons, ih]
    by_cases hl : l.1.length ≤ maxCodeLength
    · rw [filter_cons_of_pos (by simpa using hl), foldl_cons, visit,
        if_neg (by show ¬ maxCodeLength < 0 + l.1.length; omega), extend_root]
    · rw [filter_cons_of_neg (by simpa using hl), visit,
        if_pos (by show maxCodeLength < 0 + l.1.length; omega)]

/-! ## The tables -/

/-- The tables after a list of leaves. -/
def enterAll (ls : List (List Bool × Value)) (t : Tables) : Tables :=
  ls.foldl (fun t l => t.enter l.2 (codeOf l.1)) t

theorem enterAll_append (ls : List (List Bool × Value)) (l : List Bool × Value) (t : Tables) :
    enterAll (ls ++ [l]) t = (enterAll ls t).enter l.2 (codeOf l.1) := by
  rw [enterAll, foldl_append]
  rfl

/-- A value has the code of its leaf. -/
theorem valueToCode_iff {ls : List (List Bool × Value)} (hnd : (ls.map Prod.snd).Nodup) (v : Value)
    (c : Code) : (enterAll ls {}).valueToCode v = some c ↔ ∃ p, (p, v) ∈ ls ∧ c = codeOf p := by
  induction ls using reverseRecOn with
  | nil => simp [enterAll]
  | append_singleton ls l ih =>
    rw [map_append, nodup_append] at hnd
    have hprev := ih hnd.1
    rw [enterAll_append, Tables.enter]
    by_cases hv : v = l.2
    · have hnot : ∀ p, (p, v) ∉ ls := by
        intro p hp
        exact hnd.2.2 v (mem_map.mpr ⟨(p, v), hp, rfl⟩) l.2 (by simp) hv
      rw [hv] at hnot ⊢
      simp only [update_self, Option.some.injEq]
      constructor
      · intro hc
        exact ⟨l.1, by simp, hc.symm⟩
      · rintro ⟨p, hp, hc⟩
        have hpl : (p, l.2) = l := by simpa [hnot p] using hp
        rw [hc, ← hpl]
    · simp only [update_of_ne hv, hprev]
      constructor
      · rintro ⟨p, hp, hc⟩
        exact ⟨p, mem_append_left _ hp, hc⟩
      · rintro ⟨p, hp, hc⟩
        refine ⟨p, ?_, hc⟩
        rcases mem_append.mp hp with hp | hp
        · exact hp
        · exact absurd (congrArg Prod.snd (mem_singleton.mp hp)) hv

/-- A number leads to SOME leaf of that number. -/
theorem codeToValue_mem (ls : List (List Bool × Value)) {p : List Bool} {v : Value}
    (h : (p, v) ∈ ls) : ∃ q w, (q, w) ∈ ls ∧ (codeOf q).code = (codeOf p).code ∧
      (enterAll ls {}).codeToValue (codeOf p).code = some w := by
  induction ls using reverseRecOn with
  | nil => cases h
  | append_singleton ls l ih =>
    rw [enterAll_append, Tables.enter]
    by_cases hcode : (codeOf p).code = (codeOf l.1).code
    · refine ⟨l.1, l.2, by simp, hcode.symm, ?_⟩
      rw [hcode]
      exact update_self _ _ _
    · have hold : (p, v) ∈ ls := by
        rcases mem_append.mp h with h | h
        · exact h
        · refine absurd ?_ hcode
          rw [← mem_singleton.mp h]
      obtain ⟨q, w, hq, heq, hval⟩ := ih hold
      refine ⟨q, w, mem_append_left _ hq, heq, ?_⟩
      simp only [update_of_ne hcode]
      exact hval

/-- The paths of a tree are prefix free. -/
theorem leaves_prefix_free (root : Node) : ∀ l ∈ leaves root, ∀ m ∈ leaves root,
    l.1 <+: m.1 → l = m := by
  induction root with
  | leaf value frequency =>
    intro l hl m hm _
    rw [mem_singleton.mp hl, mem_singleton.mp hm]
  | parent left right ihl ihr =>
    intro l hl m hm hpre
    rcases mem_append.mp hl with hl | hl <;> rcases mem_append.mp hm with hm | hm <;>
      obtain ⟨l', hl', rfl⟩ := mem_map.mp hl <;> obtain ⟨m', hm', rfl⟩ := mem_map.mp hm <;>
      simp only [cons_prefix_cons] at hpre
    · rw [ihr l' hl' m' hm' hpre.2]
    · simp at hpre
    · simp at hpre
    · rw [ihl l' hl' m' hm' hpre.2]

/-! ## Decoding -/

/-- Decoding the code of a value gives the value back. -/
def Inverts (t : Tables) : Prop :=
  ∀ v, (t.valueToCode v).isSome = true → decode t (encode t v).code = some v

/-- No code of a value is a prefix of the code of another. -/
def PrefixFree (t : Tables) : Prop :=
  ∀ v w c d, t.valueToCode v = some c → t.valueToCode w = some d → v ≠ w → ¬ c.bits <+: d.bits

/-- No leaf that gets a code is another such leaf behind left turns. -/
def Unpadded (maxCodeLength : Nat) (root : Node) : Prop :=
  ∀ l ∈ coded maxCodeLength root, ∀ m ∈ coded maxCodeLength root, l ≠ m → ¬ Padded l.1 m.1

instance (maxCodeLength : Nat) (root : Node) : Decidable (Unpadded maxCodeLength root) :=
  inferInstanceAs (Decidable (∀ l ∈ coded maxCodeLength root, ∀ m ∈ coded maxCodeLength root, _))

section decoding

variable {maxCodeLength : Nat} {root : Node}

theorem mem_coded {l : List Bool × Value} :
    l ∈ coded maxCodeLength root ↔ l ∈ leaves root ∧ l.1.length ≤ maxCodeLength := by
  simp [coded, mem_filter]

/-- Within the container, a code is a number. -/
theorem codeOf_eq_iff {p q : List Bool} (hp : p.length ≤ 64) (hq : q.length ≤ 64) :
    (codeOf p).code = (codeOf q).code ↔ number p = number q := by
  have hlt : ∀ {r : List Bool}, r.length ≤ 64 → number r < 2 ^ 64 := fun hr =>
    Nat.lt_of_lt_of_le (number_lt _) (Nat.pow_le_pow_right (by decide) hr)
  constructor
  · intro h
    have hnat := congrArg BitVec.toNat h
    rw [codeOf, codeOf, BitVec.toNat_ofNat, BitVec.toNat_ofNat, Nat.mod_eq_of_lt (hlt hp),
      Nat.mod_eq_of_lt (hlt hq)] at hnat
    exact hnat
  · intro h
    simp [codeOf, h]

theorem coded_nodup (hnd : ((leaves root).map Prod.snd).Nodup) :
    ((coded maxCodeLength root).map Prod.snd).Nodup :=
  hnd.sublist (filter_sublist.map _)

theorem prefixFree_tables (hmax : maxCodeLength ≤ 64) (hnd : ((leaves root).map Prod.snd).Nodup) :
    PrefixFree (generateCodeMaps maxCodeLength root) := by
  intro v w c d hv hw hne hpre
  rw [generateCodeMaps_eq] at hv hw
  obtain ⟨p, hp, rfl⟩ := (valueToCode_iff (coded_nodup hnd) v c).mp hv
  obtain ⟨q, hq, rfl⟩ := (valueToCode_iff (coded_nodup hnd) w d).mp hw
  obtain ⟨hpl, hplen⟩ := mem_coded.mp hp
  obtain ⟨hql, hqlen⟩ := mem_coded.mp hq
  rw [bits_codeOf (Nat.le_trans hplen hmax), bits_codeOf (Nat.le_trans hqlen hmax)] at hpre
  exact hne (congrArg Prod.snd (leaves_prefix_free root _ hpl _ hql hpre))

theorem inverts_iff (hmax : maxCodeLength ≤ 64) (hnd : ((leaves root).map Prod.snd).Nodup) :
    Inverts (generateCodeMaps maxCodeLength root) ↔ Unpadded maxCodeLength root := by
  have hcoded : ((coded maxCodeLength root).map Prod.snd).Nodup := coded_nodup hnd
  have hlen : ∀ l ∈ coded maxCodeLength root, l.1.length ≤ 64 :=
    fun l hl => Nat.le_trans (mem_coded.mp hl).2 hmax
  have hencode : ∀ p v, (p, v) ∈ coded maxCodeLength root →
      (generateCodeMaps maxCodeLength root).valueToCode v = some (codeOf p) := by
    intro p v hp
    rw [generateCodeMaps_eq]
    exact (valueToCode_iff hcoded v _).mpr ⟨p, hp, rfl⟩
  constructor
  · -- two leaves of one number cannot both be decoded
    rintro h ⟨p, v⟩ hl ⟨q, w⟩ hm hne hpad
    have hnum : number p = number q := (number_eq_iff p q).mpr (Or.inl hpad)
    have hcode := (codeOf_eq_iff (hlen _ hl) (hlen _ hm)).mpr hnum
    have hv := h v (by rw [hencode p v hl]; rfl)
    have hw := h w (by rw [hencode q w hm]; rfl)
    rw [encode, hencode p v hl, Option.getD_some, hcode] at hv
    rw [encode, hencode q w hm, Option.getD_some, hv] at hw
    have hvw : v = w := Option.some.inj hw
    exact hne (inj_on_of_nodup_map hcoded hl hm hvw)
  · intro h v hv
    obtain ⟨c, hc⟩ := Option.isSome_iff_exists.mp hv
    rw [encode, hc, Option.getD_some, decode]
    rw [generateCodeMaps_eq] at hc ⊢
    obtain ⟨p, hp, rfl⟩ := (valueToCode_iff hcoded v c).mp hc
    obtain ⟨q, w, hq, hcode, hval⟩ := codeToValue_mem _ hp
    have hnum := (codeOf_eq_iff (hlen _ hq) (hlen _ hp)).mp hcode
    have hsame : (p, v) = (q, w) := by
      by_contra hne
      rcases (number_eq_iff p q).mp hnum.symm with hpad | hpad
      · exact h _ hp _ hq hne hpad
      · exact h _ hq _ hp (fun heq => hne heq.symm) hpad
    show (enterAll (coded maxCodeLength root) {}).codeToValue (codeOf p).code = some v
    rw [hval, (Prod.mk.inj hsame).2]

end decoding

/-! ## The tree of a sequence of samples -/

section queue

variable (Q : PriorityQueue)

/-- The values at the leaves of the queued trees. -/
def queued (trees : Q.Queue) : Multiset Value :=
  (Q.contents trees).bind fun n => ((leaves n).map Prod.snd : Multiset Value)

theorem leaves_parent_values (left right : Node) :
    ((leaves (.parent left right)).map Prod.snd : Multiset Value)
      = ((leaves left).map Prod.snd : Multiset Value) + ((leaves right).map Prod.snd : Multiset Value) := by
  rw [leaves, map_append, map_map, map_map, ← Multiset.coe_add, add_comm]
  rfl

/-- Merging neither loses nor repeats a value, and the rounds are enough. -/
theorem mergeTrees_spec (rounds : Nat) (trees : Q.Queue) (hpos : 0 < (Q.contents trees).card)
    (hle : (Q.contents trees).card ≤ rounds) :
    ∃ root, mergeTrees Q rounds trees = some root ∧
      ((leaves root).map Prod.snd : Multiset Value) = queued Q trees := by
  induction rounds generalizing trees with
  | zero => omega
  | succ rounds ih =>
    rw [mergeTrees]
    cases hl : Q.pop trees with
    | none =>
      rw [Q.pop_none trees hl] at hpos
      simp at hpos
    | some first =>
      obtain ⟨left, rest⟩ := first
      have hleft := (Q.pop_some trees left rest hl).1
      simp only
      cases hr : Q.pop rest with
      | none =>
        refine ⟨left, rfl, ?_⟩
        rw [queued, hleft, Q.pop_none rest hr]
        simp
      | some second =>
        obtain ⟨right, others⟩ := second
        have hright := (Q.pop_some rest right others hr).1
        have hcard : (Q.contents (Q.push others (.parent left right))).card
            = (Q.contents others).card + 1 := by
          rw [Q.contents_push, Multiset.card_cons]
        have htrees : (Q.contents trees).card = (Q.contents others).card + 2 := by
          rw [hleft, hright, Multiset.card_cons, Multiset.card_cons]
        obtain ⟨root, hroot, hvalues⟩ := ih (Q.push others (.parent left right)) (by omega) (by omega)
        refine ⟨root, hroot, ?_⟩
        rw [hvalues, queued, queued, Q.contents_push, hleft, hright, Multiset.cons_bind,
          Multiset.cons_bind, Multiset.cons_bind, leaves_parent_values, add_assoc]

/-- The values of the samples that count. -/
def sampled (samples : List Sample) : List Value :=
  (samples.filter fun s => s.frequency ≠ 0).map Sample.value

theorem queued_sampleAll (samples : List Sample) :
    queued Q (sampleAll Q samples) = (sampled samples : Multiset Value) ∧
      (Q.contents (sampleAll Q samples)).card = (sampled samples).length := by
  induction samples using reverseRecOn with
  | nil => simp [sampleAll, queued, sampled, Q.contents_empty]
  | append_singleton samples s ih =>
    have hstep : sampleAll Q (samples ++ [s]) = sample Q (sampleAll Q samples) s := by
      rw [sampleAll, foldl_append]
      rfl
    rw [hstep, sample]
    by_cases hs : s.frequency ≠ 0
    · have hsampled : sampled (samples ++ [s]) = sampled samples ++ [s.value] := by
        have hkeep : [s].filter (fun s => s.frequency ≠ 0) = [s] :=
          filter_cons_of_pos (by simpa using hs)
        rw [sampled, filter_append, hkeep, map_append]
        rfl
      rw [if_pos hs, hsampled, queued, Q.contents_push, Multiset.cons_bind, Multiset.card_cons]
      refine ⟨?_, ?_⟩
      · have hold := ih.1
        rw [queued] at hold
        rw [hold, ← Multiset.coe_add, add_comm]
        rfl
      · rw [ih.2, length_append, length_singleton]
    · have hsampled : sampled (samples ++ [s]) = sampled samples := by
        have h0 : s.frequency = 0 := not_not.mp hs
        simp [sampled, filter_append, h0]
      rw [if_neg hs, hsampled]
      exact ih

/-- As soon as something was sampled there is a tree, whose leaves are the sampled values. -/
theorem buildTree_spec {samples : List Sample} (h : sampled samples ≠ []) :
    ∃ root, buildTree Q (sampleAll Q samples) = some root ∧
      ((leaves root).map Prod.snd).Perm (sampled samples) := by
  obtain ⟨hvalues, hcard⟩ := queued_sampleAll Q samples
  have hpos : 0 < (Q.contents (sampleAll Q samples)).card := by
    rw [hcard]
    exact length_pos_of_ne_nil h
  obtain ⟨root, hroot, hleaves⟩ := mergeTrees_spec Q _ (sampleAll Q samples) hpos (Nat.le_refl _)
  refine ⟨root, hroot, ?_⟩
  apply Multiset.coe_eq_coe.mp
  rw [hleaves, hvalues]

end queue

/-- The encoder of a sequence of samples of distinct values decodes what it encodes just when no
    coded leaf of its tree is another one behind left turns; its codes are prefix free anyway. -/
theorem decode_encode_iff (Q : PriorityQueue) {samples : List Sample}
    (hdistinct : (samples.map Sample.value).Nodup) (hsome : sampled samples ≠ [])
    {maxCodeLength : Nat} (hmax : maxCodeLength ≤ 64) :
    ∃ root, buildTree Q (sampleAll Q samples) = some root ∧
      ((Inverts (generateCodeMaps maxCodeLength root) ∧
        PrefixFree (generateCodeMaps maxCodeLength root)) ↔ Unpadded maxCodeLength root) := by
  obtain ⟨root, hroot, hperm⟩ := buildTree_spec Q hsome
  have hsub : Sublist (sampled samples) (samples.map Sample.value) := filter_sublist.map _
  have hnd : ((leaves root).map Prod.snd).Nodup := hperm.nodup_iff.mpr (hdistinct.sublist hsub)
  refine ⟨root, hroot, ?_⟩
  rw [← inverts_iff hmax hnd]
  exact ⟨fun h => h.1, fun h => ⟨h, prefixFree_tables hmax hnd⟩⟩

/-! ## Three values -/

/-- A queue that takes the first of several least frequent trees. -/
def firstQueue : PriorityQueue where
  Queue := List Node
  empty := []
  push q n := q ++ [n]
  pop q := (q.argmin fun n => n.getFrequency.toNat).map fun n => (n, q.erase n)
  contents q := q
  contents_empty := rfl
  contents_push q n := by
    rw [← Multiset.coe_add, add_comm]
    rfl
  pop_none q h := by
    have hnone := Option.map_eq_none_iff.mp h
    rw [argmin_eq_none.mp hnone]
    rfl
  pop_some q n q' h := by
    obtain ⟨m, hm, heq⟩ := Option.map_eq_some_iff.mp h
    obtain ⟨rfl, rfl⟩ := Prod.mk.inj heq
    have hmem := argmin_mem hm
    refine ⟨Multiset.coe_eq_coe.mpr (List.perm_cons_erase hmem), ?_⟩
    intro x hx
    exact le_of_mem_argmin (mem_of_mem_erase hx) hm

/-- The third value is more frequent than the other two together. -/
def skewed : List Sample := [⟨10, 1⟩, ⟨11, 1⟩, ⟨12, 3⟩]

/-- All three are about as frequent. -/
def even : List Sample := [⟨10, 2⟩, ⟨11, 2⟩, ⟨12, 3⟩]

/-- The tree of `skewed`. -/
def skewedTree : Node := .parent (.parent (.leaf 10 1) (.leaf 11 1)) (.leaf 12 3)

/-- `12` is encoded as `1` and `11` as `01`; both are the number 1, which decodes to `11`. -/
theorem decode_encode_skewed : (skewed.map Sample.value).Nodup ∧ sampled skewed ≠ [] ∧
      buildTree firstQueue (sampleAll firstQueue skewed) = some skewedTree ∧
      ¬ (Inverts (generateCodeMaps 64 skewedTree) ∧ PrefixFree (generateCodeMaps 64 skewedTree)) := by
  refine ⟨by decide, by decide, by decide, ?_⟩
  rintro ⟨h, -⟩
  have h12 := h 12 (by decide)
  revert h12
  decide

/-- With `12` on the left nothing is padded. -/
theorem decode_encode_even : (even.map Sample.value).Nodup ∧ sampled even ≠ [] ∧ 64 ≤ 64 ∧
      ∃ root, buildTree firstQueue (sampleAll firstQueue even) = some root ∧
        ((Inverts (generateCodeMaps 64 root) ∧ PrefixFree (generateCodeMaps 64 root)) ↔
          Unpadded 64 root) :=
  ⟨by decide, by decide, by decide,
    decode_encode_iff firstQueue (by decide) (by decide) (by decide)⟩

end Gem5Dvr.Huffman
