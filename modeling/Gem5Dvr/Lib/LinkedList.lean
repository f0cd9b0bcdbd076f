/-
  Lists linked through a field.

    1. `Seg next a l b`: following `next` from `a` visits `l` and then stands at `b`.
    2. What does not change a segment: a write to a node off it (`Seg.update`); what makes another
       of it: a new link at its last node (`Seg.relink`).
    3. `follow`: the walk itself, for as many steps as it is given.
-/
import Mathlib.Data.List.Basic
import Mathlib.Logic.Function.Basic

namespace LinkedList

variable {α : Type}

def Seg (next : α → Option α) : Option α → List α → Option α → Prop
  | a, [], b => a = b
  | a, x :: l, b => a = some x ∧ Seg next (next x) l b

variable {next next' : α → Option α} {a b c : Option α} {l m : List α} {x : α}

@[simp] theorem seg_nil : Seg next a [] b ↔ a = b := Iff.rfl

@[simp] theorem seg_cons : Seg next a (x :: l) b ↔ a = some x ∧ Seg next (next x) l b := Iff.rfl

theorem seg_append : Seg next a (l ++ m) b ↔ ∃ c, Seg next a l c ∧ Seg next c m b := by
  induction l generalizing a with
  | nil => simp
  | cons x l ih =>
    rw [List.cons_append, seg_cons, ih]
    constructor
    · rintro ⟨ha, c, hl, hm⟩
      exact ⟨c, ⟨ha, hl⟩, hm⟩
    · rintro ⟨c, ⟨ha, hl⟩, hm⟩
      exact ⟨ha, c, hl, hm⟩

/-- Only the nodes of a segment matter. -/
theorem Seg.congr (h : Seg next a l b) (heq : ∀ x ∈ l, next' x = next x) : Seg next' a l b := by
  induction l generalizing a with
  | nil => exact h
  | cons x l ih =>
    refine ⟨h.1, ?_⟩
    rw [heq x List.mem_cons_self]
    exact ih h.2 fun y hy => heq y (List.mem_cons_of_mem x hy)

variable [DecidableEq α]

theorem Seg.update {v : Option α} (h : Seg next a l b) (hx : x ∉ l) :
    Seg (Function.update next x v) a l b := by
  refine h.congr fun y hy => ?_
  have hne : y ≠ x := by
    rintro rfl
    exact hx hy
  exact Function.update_of_ne hne _ _

/-- A new link at the last node. -/
theorem Seg.relink (h : Seg next a (l ++ [x]) b) (hx : x ∉ l) :
    Seg (Function.update next x c) a (l ++ [x]) c := by
  obtain ⟨d, hl, hd, -⟩ := seg_append.mp h
  refine seg_append.mpr ⟨d, hl.update hx, hd, ?_⟩
  rw [seg_nil, Function.update_self]

omit [DecidableEq α] in
/-- A link at the last node that leads to another segment. -/
theorem Seg.trans (h : Seg next a l b) (h' : Seg next b m c) : Seg next a (l ++ m) c :=
  seg_append.mpr ⟨b, h, h'⟩

/-! ## The walk -/

def follow (next : α → Option α) : Nat → Option α → List α
  | 0, _ => []
  | _ + 1, none => []
  | n + 1, some x => x :: follow next n (next x)

omit [DecidableEq α] in
theorem Seg.follow_eq {n : Nat} (h : Seg next a l none) (hn : l.length ≤ n) :
    follow next n a = l := by
  induction l generalizing a n with
  | nil =>
    obtain rfl : a = none := h
    cases n with
    | zero => rfl
    | succ n => rfl
  | cons x l ih =>
    obtain ⟨rfl, hl⟩ := h
    cases n with
    | zero => exact absurd hn (Nat.not_succ_le_zero _)
    | succ n =>
      show x :: follow next n (next x) = x :: l
      rw [ih hl (Nat.le_of_succ_le_succ hn)]

end LinkedList
