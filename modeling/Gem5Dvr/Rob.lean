/-
  The reorder buffer of a thread, and the walk that squashes it (`cpu/o3/rob.cc`).

    1. `doSquash` goes from the iterator `squashIt` towards the head, `squashWidth` instructions a
       call.  `squash` restarts it from the tail.  An iterator is the place of its instruction in
       the list; one that its instruction leaves behind, and one that is `end()` where the code
       reads it, leave no result.
    2. `Walked`: what the walk may change.
    3. `Swept`: what it has done of its way.  In a list in program order, an iterator that has come
       to an instruction that stays has nothing more to do.

  The arrays over threads are one value a thread.
-/
import Mathlib.Data.List.Basic

namespace Gem5Dvr.Rob

open List

/-! ## The buffer of one thread -/

/-- An instruction, as far as the buffer reads it. -/
structure DynInst where
  seqNum : Nat
  squashed : Bool := false
  canCommit : Bool := false
  deriving DecidableEq, Repr

def DynInst.readyToCommit (inst : DynInst) : Bool := inst.canCommit

/-- `setSquashed` and `setCanCommit`. -/
def DynInst.mark (inst : DynInst) : DynInst := { inst with squashed := true, canCommit := true }

structure ROB where
  instList : List DynInst := []
  threadEntries : Nat := 0
  squashIt : Option Nat := none
  squashedSeqNum : Nat := 0
  doneSquashing : Bool := true
  deriving DecidableEq, Repr

namespace ROB

variable (rob : ROB)

def isEmpty : Bool := rob.threadEntries == 0

def isDoneSquashing : Bool := rob.doneSquashing

def readHeadInst : Option DynInst := rob.instList.head?

def isHeadReady : Bool :=
  if rob.threadEntries ≠ 0 then rob.instList.head?.any DynInst.readyToCommit else false

def insertInst (inst : DynInst) : ROB :=
  { rob with instList := rob.instList ++ [inst], threadEntries := rob.threadEntries + 1 }

def retireHead : Option ROB :=
  match rob.instList with
  | [] => none
  | head_inst :: rest =>
    if !head_inst.readyToCommit then none
    else match rob.squashIt with
      | some 0 => none
      | it => some { rob with
          instList := rest
          threadEntries := rob.threadEntries - 1
          squashIt := it.map (· - 1) }

/-- The loop of `doSquash`: the list, and the iterator where the loop stops, `none` when the head is
    reached. -/
def squashLoop (target : Nat) : Nat → Nat → List DynInst → List DynInst × Option Nat
  | 0, it, l => (l, some it)
  | n + 1, it, l =>
    match l[it]? with
    | none => (l, some it)
    | some inst =>
      if inst.seqNum > target then
        if it = 0 then (l.set it inst.mark, none)
        else squashLoop target n (it - 1) (l.set it inst.mark)
      else (l, some it)

/-- The end of `doSquash`: whether the walk is done. -/
def checkDone (l : List DynInst) : Option Nat → Option ROB
  | none => some { rob with instList := l, squashIt := none, doneSquashing := true }
  | some it =>
    l[it]?.map fun inst =>
      if inst.seqNum ≤ rob.squashedSeqNum then
        { rob with instList := l, squashIt := none, doneSquashing := true }
      else { rob with instList := l, squashIt := some it }

/-- `doSquash`; `width` is `squashWidth`, or `numEntries` where the thread exits. -/
def doSquash (width : Nat) : Option ROB :=
  match rob.squashIt with
  | none => none
  | some it =>
    match rob.instList[it]? with
    | none => none
    | some inst =>
      if inst.seqNum < rob.squashedSeqNum then
        some { rob with squashIt := none, doneSquashing := true }
      else
        let (l, it) := squashLoop rob.squashedSeqNum width it rob.instList
        rob.checkDone l it

def squash (squash_num : Nat) (width : Nat) : Option ROB :=
  if rob.isEmpty then some rob
  else if rob.instList.isEmpty then
    some { rob with doneSquashing := false, squashedSeqNum := squash_num }
  else
    doSquash { rob with
      doneSquashing := false
      squashedSeqNum := squash_num
      squashIt := some (rob.instList.length - 1) } width

end ROB

/-! ## What the walk changes -/

/-- An instruction is as before, or it is younger than the target and marked. -/
def Marks (target : Nat) (a b : DynInst) : Prop := b = a ∨ target < a.seqNum ∧ b = a.mark

theorem Marks.seqNum {target : Nat} {a b : DynInst} (h : Marks target a b) :
    b.seqNum = a.seqNum := by
  rcases h with rfl | ⟨-, rfl⟩
  · rfl
  · rfl

theorem Marks.trans {target : Nat} {a b c : DynInst} (hab : Marks target a b)
    (hbc : Marks target b c) : Marks target a c := by
  rcases hab with rfl | ⟨hlt, rfl⟩
  · exact hbc
  · rcases hbc with rfl | ⟨-, rfl⟩
    · exact Or.inr ⟨hlt, rfl⟩
    · exact Or.inr ⟨hlt, rfl⟩

/-- The list that the walk leaves, place by place. -/
structure Walked (target : Nat) (l l' : List DynInst) : Prop where
  length : l'.length = l.length
  get : ∀ (j : Nat) (a : DynInst), l[j]? = some a → ∃ b, l'[j]? = some b ∧ Marks target a b

namespace Walked

variable {target : Nat} {l l' l'' : List DynInst}

theorem refl (target : Nat) (l : List DynInst) : Walked target l l :=
  ⟨rfl, fun _ a ha => ⟨a, ha, Or.inl rfl⟩⟩

theorem trans (h : Walked target l l') (h' : Walked target l' l'') : Walked target l l'' := by
  refine ⟨h'.length.trans h.length, fun j a ha => ?_⟩
  obtain ⟨b, hb, hab⟩ := h.get j a ha
  obtain ⟨c, hc, hbc⟩ := h'.get j b hb
  exact ⟨c, hc, hab.trans hbc⟩

theorem set {it : Nat} {inst : DynInst} (hit : l[it]? = some inst) (hlt : target < inst.seqNum) :
    Walked target l (l.set it inst.mark) := by
  refine ⟨length_set, fun j a ha => ?_⟩
  by_cases hj : it = j
  · subst hj
    obtain rfl : inst = a := Option.some.inj (hit.symm.trans ha)
    have hlen := (List.getElem?_eq_some_iff.mp ha).1
    exact ⟨inst.mark, getElem?_set_self hlen, Or.inr ⟨hlt, rfl⟩⟩
  · exact ⟨a, by rw [getElem?_set_ne hj, ha], Or.inl rfl⟩

/-- Back from a place of the new list. -/
theorem get' (h : Walked target l l') {j : Nat} {b : DynInst} (hb : l'[j]? = some b) :
    ∃ a, l[j]? = some a ∧ Marks target a b := by
  have hlen : j < l.length := h.length ▸ (List.getElem?_eq_some_iff.mp hb).1
  obtain ⟨c, hc, hm⟩ := h.get j l[j] (getElem?_eq_getElem hlen)
  obtain rfl : b = c := Option.some.inj (hb.symm.trans hc)
  exact ⟨l[j], getElem?_eq_getElem hlen, hm⟩

theorem mem (h : Walked target l l') {b : DynInst} (hb : b ∈ l') : ∃ a ∈ l, Marks target a b := by
  obtain ⟨j, hj⟩ := mem_iff_getElem?.mp hb
  obtain ⟨a, ha, hm⟩ := h.get' hj
  exact ⟨a, mem_of_getElem? ha, hm⟩

theorem seqNums (h : Walked target l l') : l'.map DynInst.seqNum = l.map DynInst.seqNum := by
  refine ext_getElem? fun j => ?_
  rw [getElem?_map, getElem?_map]
  cases hj : l[j]? with
  | none =>
    have hlen : l'.length ≤ j := h.length ▸ List.getElem?_eq_none_iff.mp hj
    rw [List.getElem?_eq_none_iff.mpr hlen]
  | some a =>
    obtain ⟨b, hb, hm⟩ := h.get j a hj
    rw [hb]
    exact congrArg some hm.seqNum

end Walked

/-- The instructions after a place that are younger than the target are marked. -/
def Swept (target : Nat) (it : Nat) (l : List DynInst) : Prop :=
  ∀ (j : Nat) (a : DynInst), it < j → l[j]? = some a → target < a.seqNum →
    a.squashed = true ∧ a.canCommit = true

/-- All instructions that are younger than the target are marked. -/
def AllSwept (target : Nat) (l : List DynInst) : Prop :=
  ∀ a ∈ l, target < a.seqNum → a.squashed = true ∧ a.canCommit = true

/-- Program order. -/
def InOrder (l : List DynInst) : Prop := (l.map DynInst.seqNum).Pairwise (· < ·)

variable {target : Nat} {l : List DynInst}

theorem InOrder.walked {l' : List DynInst} (h : InOrder l)
    (hw : Walked target l l') : InOrder l' := by
  rw [InOrder, hw.seqNums]
  exact h

theorem InOrder.lt (h : InOrder l) {i j : Nat} {a b : DynInst} (hij : i < j)
    (ha : l[i]? = some a) (hb : l[j]? = some b) : a.seqNum < b.seqNum := by
  have ha' : (l.map DynInst.seqNum)[i]? = some a.seqNum := by rw [getElem?_map, ha]; rfl
  have hb' : (l.map DynInst.seqNum)[j]? = some b.seqNum := by rw [getElem?_map, hb]; rfl
  obtain ⟨hi, hi'⟩ := List.getElem?_eq_some_iff.mp ha'
  obtain ⟨hj, hj'⟩ := List.getElem?_eq_some_iff.mp hb'
  have hlt := pairwise_iff_getElem.mp h i j hi hj hij
  omega

/-- The walk has come to an instruction that stays. -/
theorem Swept.all {it : Nat} {inst : DynInst}
    (h : Swept target it l) (hord : InOrder l) (hit : l[it]? = some inst)
    (hle : inst.seqNum ≤ target) : AllSwept target l := by
  intro a ha hlt
  obtain ⟨j, hj⟩ := mem_iff_getElem?.mp ha
  rcases Nat.lt_trichotomy it j with hij | rfl | hji
  · exact h j a hij hj hlt
  · obtain rfl : inst = a := Option.some.inj (hit.symm.trans hj)
    omega
  · have hsn := hord.lt hji hj hit
    omega

theorem Swept.set {it : Nat} {inst : DynInst} (h : Swept target it l) (hit : l[it]? = some inst) :
    ∀ (j : Nat) (a : DynInst), it ≤ j → (l.set it inst.mark)[j]? = some a → target < a.seqNum →
      a.squashed = true ∧ a.canCommit = true := by
  intro j a hij ha hlt
  by_cases hj : it = j
  · subst hj
    have hlen := (List.getElem?_eq_some_iff.mp hit).1
    rw [getElem?_set_self hlen] at ha
    obtain rfl := Option.some.inj ha
    exact ⟨rfl, rfl⟩
  · rw [getElem?_set_ne hj] at ha
    exact h j a (by omega) ha hlt

/-! ## The loop and its calls -/

namespace ROB

variable {rob rob' : ROB}

/-- The loop keeps to its way, and stops at the head, after `n` steps, or where it has to. -/
theorem squashLoop_spec {target : Nat} : ∀ {n it : Nat} {l l' : List DynInst}
    {end' : Option Nat}, it < l.length → Swept target it l → squashLoop target n it l = (l', end') →
        Walked target l l' ∧
          match end' with
          | none => AllSwept target l'
          | some k => k < l'.length ∧ Swept target k l' ∧
              (k + n ≤ it ∨ ∃ inst, l'[k]? = some inst ∧ inst.seqNum ≤ target) := by
  intro n
  induction n with
  | zero =>
    intro it l l' end' hit hswept heq
    cases heq
    exact ⟨Walked.refl target l, hit, hswept, Or.inl (Nat.le_refl it)⟩
  | succ n ih =>
    intro it l l' end' hit hswept heq
    have hget : l[it]? = some l[it] := getElem?_eq_getElem hit
    rw [squashLoop, hget] at heq
    dsimp only at heq
    split at heq
    · rename_i hlt
      have hset := hswept.set hget
      have hwalked := Walked.set hget hlt
      split at heq
      · rename_i hzero
        cases heq
        refine ⟨hwalked, fun a ha hlt => ?_⟩
        obtain ⟨j, hj⟩ := mem_iff_getElem?.mp ha
        exact hset j a (by omega) hj hlt
      · have hit' : it - 1 < (l.set it l[it].mark).length := by
          rw [length_set]
          omega
        have hswept' : Swept target (it - 1) (l.set it l[it].mark) := fun j a hj =>
          hset j a (by omega)
        obtain ⟨hw, hend⟩ := ih hit' hswept' heq
        refine ⟨hwalked.trans hw, ?_⟩
        cases end' with
        | none => exact hend
        | some k =>
          obtain ⟨hk, hs, hstop⟩ := hend
          refine ⟨hk, hs, ?_⟩
          rcases hstop with hle | hstop
          · exact Or.inl (by omega)
          · exact Or.inr hstop
    · rename_i hge
      cases heq
      exact ⟨Walked.refl target l, hit, hswept, Or.inr ⟨l[it], hget, by omega⟩⟩

/-- The iterator of a walk: it stands at an instruction, and those after it are done. -/
def OnWay (rob : ROB) : Prop := ∃ it, rob.squashIt = some it ∧ it < rob.instList.length ∧
    Swept rob.squashedSeqNum it rob.instList

/-- The walk: on its way, or at its end. -/
def Walk (rob : ROB) : Prop :=
  if rob.doneSquashing then AllSwept rob.squashedSeqNum rob.instList else rob.OnWay

/-- What a call of `doSquash` does: it finds an instruction, it changes what it may, and it ends at
    the end of the way or `width` steps nearer to it. -/
theorem OnWay.doSquash (hway : rob.OnWay) (width : Nat) (hord : InOrder rob.instList)
    (hnot : rob.doneSquashing = false) :
    ∃ rob', rob.doSquash width = some rob' ∧ Walked rob.squashedSeqNum rob.instList rob'.instList ∧
      rob'.squashedSeqNum = rob.squashedSeqNum ∧ rob'.threadEntries = rob.threadEntries ∧
      rob'.Walk ∧ (rob'.doneSquashing = true ∨
        rob'.squashIt.getD 0 + width ≤ rob.squashIt.getD 0) := by
  obtain ⟨it, hit, hlen, hswept⟩ := hway
  have hget : rob.instList[it]? = some rob.instList[it] := getElem?_eq_getElem hlen
  unfold ROB.doSquash
  simp only [hit, hget]
  split
  · rename_i hlt
    refine ⟨_, rfl, Walked.refl _ _, rfl, rfl, ?_, Or.inl rfl⟩
    exact hswept.all hord hget (Nat.le_of_lt hlt)
  · cases hloop : squashLoop rob.squashedSeqNum width it rob.instList with
    | mk l' end' =>
      obtain ⟨hw, hend⟩ := squashLoop_spec hlen hswept hloop
      cases end' with
      | none => exact ⟨_, rfl, hw, rfl, rfl, hend, Or.inl rfl⟩
      | some k =>
        obtain ⟨hk, hs, hstop⟩ := hend
        have hgetk : l'[k]? = some l'[k] := getElem?_eq_getElem hk
        simp only [checkDone, hgetk, Option.map_some]
        split
        · rename_i hle
          refine ⟨_, rfl, hw, rfl, rfl, ?_, Or.inl rfl⟩
          exact hs.all (hord.walked hw) hgetk hle
        · rename_i hgt
          refine ⟨_, rfl, hw, rfl, rfl, ?_, Or.inr ?_⟩
          · show if rob.doneSquashing = true then _ else _
            rw [hnot]
            exact ⟨k, rfl, hk, hs⟩
          · rcases hstop with hle | ⟨inst, hinst, hle⟩
            · exact hle
            · obtain rfl : l'[k] = inst := Option.some.inj (hgetk.symm.trans hinst)
              exact absurd hle hgt

/-- `squash` restarts the walk at the tail, where everything is still to do. -/
theorem squash_spec (num width : Nat) (hord : InOrder rob.instList)
    (hentries : rob.threadEntries = rob.instList.length) (hne : rob.instList ≠ []) :
    ∃ rob', rob.squash num width = some rob' ∧ Walked num rob.instList rob'.instList ∧
      rob'.squashedSeqNum = num ∧ rob'.threadEntries = rob.threadEntries ∧ rob'.Walk := by
  have hlen : 0 < rob.instList.length := length_pos_iff.mpr hne
  have hempty : rob.isEmpty = false := by
    simp only [isEmpty, hentries, beq_eq_false_iff_ne]
    omega
  have hway : OnWay { rob with
      doneSquashing := false
      squashedSeqNum := num
      squashIt := some (rob.instList.length - 1) } := by
    refine ⟨_, rfl, show rob.instList.length - 1 < rob.instList.length by omega, ?_⟩
    intro j a hj ha
    have hja : j < rob.instList.length := (List.getElem?_eq_some_iff.mp ha).1
    exact absurd (show rob.instList.length - 1 < j from hj) (by omega)
  obtain ⟨rob', heq, hw, htarget, hent, hwalk, -⟩ := hway.doSquash width hord rfl
  refine ⟨rob', ?_, hw, htarget, hent, hwalk⟩
  unfold squash
  rw [if_neg (by simp [hempty]), if_neg (by simpa using hne)]
  exact heq

end ROB

end Gem5Dvr.Rob
