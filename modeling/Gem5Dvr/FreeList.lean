/-
  The physical register free lists (`SimpleFreeList`, `UnifiedFreeList`, `cpu/o3/free_list.hh`).

  One queue per register class: `getReg` pops the front, `addReg` pushes at the back of the queue of
  the register's OWN class, and nothing ever checks for duplicates.  The queues are kept with the
  fact that a queue only holds registers of its class, which `PhysRegFile::initFreeList` arranges
  and both operations keep; everything else about a free list is said by `count`.
-/
import Mathlib.Data.List.Perm.Basic
import Mathlib.Data.List.Count

namespace Gem5Dvr

open List

/-- The classes that have a free list (`IntRegClass` .. `CCRegClass`). -/
inductive RegClass
  | Int | Float | Vec | VecElem | VecPred | CC
  deriving DecidableEq, Repr

/-- `PhysRegId`: a register name of the simulated physical register file. -/
structure PhysReg where
  cls : RegClass
  index : Nat
  deriving DecidableEq, Repr

/-- `UnifiedFreeList`: a queue of names per class, front first. -/
structure FreeList where
  regs : RegClass → List PhysReg
  classed : ∀ c, ∀ r ∈ regs c, r.cls = c

namespace FreeList

def empty : FreeList := ⟨fun _ => [], by simp⟩

/-- `addReg`: push at the back of the queue of the register's class. -/
def addReg (f : FreeList) (freed_reg : PhysReg) : FreeList where
  regs c := if c = freed_reg.cls then f.regs c ++ [freed_reg] else f.regs c
  classed c r hr := by
    split_ifs at hr with h
    · rcases mem_append.mp hr with hr | hr
      · exact f.classed c r hr
      · rw [mem_singleton.mp hr, h]
    · exact f.classed c r hr

/-- `getReg`: pop the front of a queue; `none` is the assertion that the queue is not empty. -/
def getReg (f : FreeList) (type : RegClass) : Option (PhysReg × FreeList) :=
  match h : f.regs type with
  | [] => none
  | r :: rest => some (r,
      { regs := fun c => if c = type then rest else f.regs c
        classed := fun c q hq => by
          split_ifs at hq with hc
          · exact hc ▸ f.classed type q (h ▸ mem_cons_of_mem r hq)
          · exact f.classed c q hq })

/-- `addRegs` of a list of names, in order. -/
def addRegs (f : FreeList) (ids : List PhysReg) : FreeList := ids.foldl addReg f

/-- Forget the queue of one class. -/
def clear (f : FreeList) (type : RegClass) : FreeList where
  regs c := if c = type then [] else f.regs c
  classed c r hr := by
    split_ifs at hr
    · cases hr
    · exact f.classed c r hr

/-- How often a name is on the free list. -/
def count (f : FreeList) (r : PhysReg) : Nat := (f.regs r.cls).count r

@[simp] theorem count_addReg (f : FreeList) (r q : PhysReg) :
    (f.addReg r).count q = f.count q + [r].count q := by
  simp only [count, addReg]
  by_cases h : q.cls = r.cls
  · rw [if_pos h, count_append]
  · have hne : r ≠ q := fun hr => h (hr ▸ rfl)
    simp [if_neg h, hne]

@[simp] theorem count_addRegs (f : FreeList) (ids : List PhysReg) (q : PhysReg) :
    (f.addRegs ids).count q = f.count q + ids.count q := by
  unfold addRegs
  induction ids generalizing f with
  | nil => rfl
  | cons r ids ih =>
    rw [foldl_cons, ih, count_addReg, Nat.add_assoc, ← count_append]
    rfl

theorem getReg_cls {f g : FreeList} {type : RegClass} {r : PhysReg}
    (h : f.getReg type = some (r, g)) : r.cls = type := by
  unfold getReg at h
  split at h
  · cases h
  · rename_i hr
    cases h
    exact f.classed type r (hr ▸ mem_cons_self)

theorem count_getReg {f g : FreeList} {type : RegClass} {r : PhysReg}
    (h : f.getReg type = some (r, g)) (q : PhysReg) : f.count q = g.count q + [r].count q := by
  unfold getReg at h
  split at h
  · cases h
  · rename_i rest hr
    cases h
    have hr' : r.cls = type := f.classed type r (hr ▸ mem_cons_self)
    unfold count
    by_cases hq : q.cls = type
    · simp only [hq, if_true, hr]
      rw [← singleton_append, count_append, Nat.add_comm]
    · have hne : r ≠ q := fun h => hq (h ▸ hr')
      simp [hq, hne]

end FreeList

end Gem5Dvr
