/-
  The return address stack of the branch predictor (`cpu/pred/ras.cc` 52-84), a circular buffer.

    1. The functions of the source.  An instruction's address stands for its state; a slot that was
       never written, or was given no target, is `none`.
    2. `Rep`: the stack stands for a list, the call last made first, whose element of height `k` is
       in slot `k` modulo the size.  A push or a pop of the list is one of the stack; `restore` is
       the inverse of a pop, given what was popped and where it was.
-/
import Mathlib.Data.List.Basic
import Mathlib.Logic.Function.Basic

namespace Gem5Dvr.BPred

open Function

/-- `gem5::Addr`. -/
abbrev Addr := Nat

/-- A ring of addresses. -/
structure ReturnAddrStack where
  addrStack : Nat → Option Addr := fun _ => none
  numEntries : Nat
  usedEntries : Nat := 0
  tos : Nat := 0

namespace ReturnAddrStack

variable (ras : ReturnAddrStack)

/-- The last address. -/
def top : Option Addr := ras.addrStack ras.tos

/-- One up, around the ring. -/
def incrTos : Nat := if ras.tos + 1 = ras.numEntries then 0 else ras.tos + 1

/-- One down, around the ring. -/
def decrTos : Nat := if ras.tos = 0 then ras.numEntries - 1 else ras.tos - 1

/-- One entry more, when there is room. -/
def moreUsed : Nat :=
  if ras.usedEntries ≠ ras.numEntries then ras.usedEntries + 1 else ras.usedEntries

/-- An address on top. -/
def push (return_addr : Addr) : ReturnAddrStack := { ras with
    tos := ras.incrTos
    addrStack := update ras.addrStack ras.incrTos (some return_addr)
    usedEntries := ras.moreUsed }

/-- The last address goes. -/
def pop : ReturnAddrStack := { ras with
    usedEntries := if ras.usedEntries > 0 then ras.usedEntries - 1 else ras.usedEntries
    tos := ras.decrTos }

/-- The top as it was. -/
def restore (top_entry_idx : Nat) (restored : Option Addr) : ReturnAddrStack := { ras with
    tos := top_entry_idx
    addrStack := update ras.addrStack top_entry_idx restored
    usedEntries := ras.moreUsed }

/-! ## The list that the stack stands for -/

/-- The elements are in their slots. -/
def Holds (addrStack : Nat → Option Addr) (n : Nat) : List Addr → Prop
  | [] => True
  | a :: l => addrStack ((l.length + 1) % n) = some a ∧ Holds addrStack n l

structure Rep (ras : ReturnAddrStack) (l : List Addr) : Prop where
  pos : 0 < ras.numEntries
  room : l.length ≤ ras.numEntries
  used : ras.usedEntries = l.length
  tos : ras.tos = l.length % ras.numEntries
  holds : Holds ras.addrStack ras.numEntries l

variable {ras} {l : List Addr}

/-- The slot above some elements is none of theirs. -/
theorem holds_update {addrStack : Nat → Option Addr} {n m : Nat} {v : Option Addr} (hm : m < n) :
    ∀ {l : List Addr}, l.length ≤ m → Holds addrStack n l →
      Holds (update addrStack ((m + 1) % n) v) n l := by
  intro l
  induction l with
  | nil => exact fun _ _ => trivial
  | cons a l ih =>
    intro hlen h
    rw [List.length_cons] at hlen
    have hne : (l.length + 1) % n ≠ (m + 1) % n := by
      have hlow : (l.length + 1) % n = l.length + 1 := Nat.mod_eq_of_lt (by omega)
      rw [hlow]
      by_cases hwrap : m + 1 = n
      · rw [hwrap, Nat.mod_self]
        omega
      · rw [Nat.mod_eq_of_lt (by omega)]
        omega
    refine ⟨?_, ih (by omega) h.2⟩
    rw [update_of_ne hne]
    exact h.1

theorem Rep.incrTos (h : Rep ras l) : ras.incrTos = (l.length + 1) % ras.numEntries := by
  have hpos := h.pos
  have hlt := Nat.mod_lt l.length hpos
  unfold ReturnAddrStack.incrTos
  rw [h.tos, Nat.add_mod]
  by_cases hone : ras.numEntries = 1
  · rw [hone] at hlt ⊢
    rw [if_pos (by omega)]
    omega
  · rw [Nat.mod_eq_of_lt (show 1 < ras.numEntries by omega)]
    by_cases hwrap : l.length % ras.numEntries + 1 = ras.numEntries
    · rw [if_pos hwrap, hwrap, Nat.mod_self]
    · rw [if_neg hwrap]
      exact (Nat.mod_eq_of_lt (by omega)).symm

theorem Rep.decrTos {a : Addr} (h : Rep ras (a :: l)) :
    ras.decrTos = l.length % ras.numEntries := by
  have hroom := h.room
  have htos := h.tos
  rw [List.length_cons] at hroom htos
  rw [ReturnAddrStack.decrTos, htos, Nat.mod_eq_of_lt (show l.length < ras.numEntries by omega)]
  by_cases hwrap : l.length + 1 = ras.numEntries
  · rw [hwrap, Nat.mod_self, if_pos rfl]
    omega
  · rw [Nat.mod_eq_of_lt (by omega), if_neg (Nat.succ_ne_zero _)]
    omega

/-- The top, and where it is. -/
theorem Rep.top {a : Addr} (h : Rep ras (a :: l)) :
    ras.top = some a ∧ ras.tos = (l.length + 1) % ras.numEntries := by
  refine ⟨?_, h.tos⟩
  rw [ReturnAddrStack.top, h.tos]
  exact h.holds.1

theorem Rep.push (h : Rep ras l) (hroom : l.length < ras.numEntries) (a : Addr) :
    Rep (ras.push a) (a :: l) := by
  refine ⟨h.pos, hroom, ?_, h.incrTos, ?_, ?_⟩
  · show ras.moreUsed = l.length + 1
    rw [moreUsed, h.used, if_pos (Nat.ne_of_lt hroom)]
  · show update ras.addrStack ras.incrTos (some a) ((l.length + 1) % ras.numEntries) = _
    rw [h.incrTos, update_self]
  · show Holds (update ras.addrStack ras.incrTos (some a)) ras.numEntries l
    rw [h.incrTos]
    exact holds_update hroom (Nat.le_refl _) h.holds

theorem Rep.pop {a : Addr} (h : Rep ras (a :: l)) : Rep ras.pop l := by
  have hroom := h.room
  have hused := h.used
  rw [List.length_cons] at hroom hused
  refine ⟨h.pos, ?_, ?_, h.decrTos, h.holds.2⟩
  · show l.length ≤ ras.numEntries
    omega
  · show (if ras.usedEntries > 0 then ras.usedEntries - 1 else ras.usedEntries) = l.length
    rw [if_pos (by omega)]
    omega

/-- A pop is undone. -/
theorem Rep.restore (h : Rep ras l) (hroom : l.length < ras.numEntries) (a : Addr) :
    Rep (ras.restore ((l.length + 1) % ras.numEntries) (some a)) (a :: l) := by
  refine ⟨h.pos, hroom, ?_, rfl, ?_, ?_⟩
  · show ras.moreUsed = l.length + 1
    rw [moreUsed, h.used, if_pos (Nat.ne_of_lt hroom)]
  · exact update_self ..
  · exact holds_update hroom (Nat.le_refl _) h.holds

/-! ## The live part -/

/-- Stacks with the same index and the same contents of the live part. -/
def SameLive (r s : ReturnAddrStack) : Prop := r.tos = s.tos ∧ r.usedEntries = s.usedEntries ∧
    ∀ i, i < r.usedEntries → r.addrStack ((r.tos + r.numEntries - i) % r.numEntries) =
        s.addrStack ((s.tos + s.numEntries - i) % s.numEntries)

/-- The entry that is `i` below the top. -/
theorem holds_get {addrStack : Nat → Option Addr} {n : Nat} : ∀ {l : List Addr} {i : Nat},
    Holds addrStack n l → i < l.length → addrStack ((l.length - i) % n) = l[i]? := by
  intro l
  induction l with
  | nil => exact fun _ hi => absurd hi (Nat.not_lt_zero _)
  | cons a l ih =>
    intro i h hi
    cases i with
    | zero => exact h.1
    | succ i =>
      rw [List.length_cons] at hi ⊢
      rw [Nat.add_sub_add_right, List.getElem?_cons_succ]
      exact ih h.2 (Nat.lt_of_succ_lt_succ hi)

theorem Rep.get (h : Rep ras l) {i : Nat} (hi : i < l.length) :
    ras.addrStack ((ras.tos + ras.numEntries - i) % ras.numEntries) = l[i]? := by
  have hroom := h.room
  have hslot : (ras.tos + ras.numEntries - i) % ras.numEntries =
      (l.length - i) % ras.numEntries := by
    rw [h.tos]
    by_cases hfull : l.length = ras.numEntries
    · rw [hfull, Nat.mod_self, Nat.zero_add]
    · rw [Nat.mod_eq_of_lt (show l.length < ras.numEntries by omega),
        show l.length + ras.numEntries - i = l.length - i + ras.numEntries by omega,
        Nat.add_mod_right]
  rw [hslot]
  exact holds_get h.holds hi

/-- Stacks that stand for one list. -/
theorem Rep.sameLive {r s : ReturnAddrStack} (hr : Rep r l) (hs : Rep s l)
    (hn : r.numEntries = s.numEntries) : SameLive r s := by
  refine ⟨?_, hr.used.trans hs.used.symm, fun i hi => ?_⟩
  · rw [hr.tos, hs.tos, hn]
  · rw [hr.used] at hi
    rw [hr.get hi, hs.get hi]

end ReturnAddrStack

end Gem5Dvr.BPred
