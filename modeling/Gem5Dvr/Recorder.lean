/-
  What is recorded of a path, and where its branches join (`DVRInstructionRecorder`,
  `cpu/o3/pre.cc` 999-1046, 1084-1169).

    1. `record` gives a branch the PC of the next instruction as the place where its lanes join.
    2. `setReconvergencePC` moves the join of a branch up to the final load (FLR) to that load, and
       of a branch between it and the loop branch (LCR) to the loop branch.
    3. Every join lies ahead, unless a branch was moved to an LCR that is not recorded
       after the FLR.

  The crux: without the LCR `setReconvergencePC` goes on to the end of the recording, while
  `hasConditionalBetween` gives up.
-/
import Gem5Dvr.LanePC
import Mathlib.Data.List.GetD

namespace Gem5Dvr.Recorder

open List

open LanePC (uop)

/-- `DVRInstructionRecorder`: `uops` up to `count`. -/
structure DVRInstructionRecorder where
  uops : List Uop := []
  overflowed : Bool := false

/-- The boundary that the instruction after a branch leaves in it. -/
def bound (pc : Addr) (uops : List Uop) : List Uop := uops.mapIdx fun i u =>
  if i + 1 = uops.length ∧ u.conditional ∧ u.reconvergencePC = 0 then
    { u with reconvergencePC := pc }
  else u

/-- `record`.  What the instruction itself gives a uop is in `inst`. -/
def record (r : DVRInstructionRecorder) (inst : Uop) : DVRInstructionRecorder :=
  let uops := bound inst.pc r.uops
  if MaxUops ≤ uops.length then { uops := uops, overflowed := true }
  else
    let width := if inst.encodingValid && inst.encoding &&& 3 != 3 then 2 else 4
    { r with uops := uops ++ [{ inst with reconvergencePC := 0, fallthroughPC := inst.pc + width }] }

/-- `begin` at the first instruction, and `record` of the others. -/
def recording (insts : List Uop) : List Uop := (insts.foldl record {}).uops

/-- The last load of the PC; there is none of PC 0. -/
def flr_index (uops : List Uop) (flr_pc : Addr) : Option Nat :=
  ((range uops.length).filter fun i =>
    flr_pc != 0 && (uop uops i).load && (uop uops i).pc == flr_pc).getLast?

/-- The first branch of the PC after the FLR, or the end; there is none of PC 0. -/
def lcr_index (uops : List Uop) (flr : Nat) (lcr_pc : Addr) : Nat :=
  ((range uops.length).find? fun i => flr < i && lcr_pc != 0 && (uop uops i).conditional &&
    (uop uops i).pc == lcr_pc).getD uops.length

/-- The PC that `setReconvergencePC` leaves in a uop. -/
def reconvergence (uops : List Uop) (flr_pc lcr_pc : Addr) (i : Nat) : Addr :=
  match flr_index uops flr_pc with
  | none => (uop uops i).reconvergencePC
  | some flr =>
    if ¬ (uop uops i).conditional then (uop uops i).reconvergencePC
    else if i ≤ flr then flr_pc
    else if i < lcr_index uops flr lcr_pc ∧ lcr_pc ≠ 0 then lcr_pc
    else (uop uops i).reconvergencePC

def setReconvergencePC (uops : List Uop) (flr_pc lcr_pc : Addr) : List Uop :=
  uops.mapIdx fun i u => { u with reconvergencePC := reconvergence uops flr_pc lcr_pc i }

def hasConditionalBetween (uops : List Uop) (flr_pc lcr_pc : Addr) : Bool :=
  match flr_index uops flr_pc with
  | none => false
  | some flr =>
    let lcr := lcr_index uops flr lcr_pc
    lcr != uops.length && (range lcr).any fun i => flr < i && (uop uops i).conditional

/-! ## Specification -/

/-- Each branch but a last uop joins at a uop that does not come before it. -/
def JoinsAhead (uops : List Uop) : Prop := ∀ i, i + 1 < uops.length → (uop uops i).conditional →
  ∃ j, i ≤ j ∧ j < uops.length ∧ (uop uops j).pc = (uop uops i).reconvergencePC

/-- A branch that is not the last uop is moved to the loop branch. -/
def Moved (uops : List Uop) (flr_pc lcr_pc : Addr) : Prop :=
  lcr_pc ≠ 0 ∧ ∃ flr ∈ flr_index uops flr_pc, ∃ i, i + 1 < uops.length ∧
    flr < i ∧ i < lcr_index uops flr lcr_pc ∧ (uop uops i).conditional

/-! ## Recording -/

/-- A branch joins at the next uop; the last uop has no join while there is room. -/
structure Linked (uops : List Uop) : Prop where
  join : ∀ i, i + 1 < uops.length → (uop uops i).conditional →
    (uop uops i).reconvergencePC = (uop uops (i + 1)).pc
  last : uops.length < MaxUops → (uop uops (uops.length - 1)).reconvergencePC = 0

theorem uop_append {uops : List Uop} {i : Nat} (h : i < uops.length) (more : List Uop) :
    uop (uops ++ more) i = uop uops i := getD_append uops more {} i h

theorem uop_mapIdx {uops : List Uop} (f : Nat → Uop → Uop) {i : Nat} (hi : i < uops.length) :
    uop (uops.mapIdx f) i = f i (uop uops i) := by
  simp [uop, hi]

theorem Linked.record {r : DVRInstructionRecorder} (h : Linked r.uops) (inst : Uop) :
    Linked (record r inst).uops := by
  have hlen : (bound inst.pc r.uops).length = r.uops.length := length_mapIdx
  have huop : ∀ i, i < r.uops.length → uop (bound inst.pc r.uops) i = _ := fun i => uop_mapIdx _
  unfold Recorder.record
  generalize bound inst.pc r.uops = uops at *
  -- what stands before the last uop stays linked
  have hjoin : ∀ i, i + 1 < uops.length → (uop uops i).conditional →
      (uop uops i).reconvergencePC = (uop uops (i + 1)).pc := by
    intro i hi
    rw [hlen] at hi
    rw [huop i (by omega), huop (i + 1) hi, if_neg (by omega)]
    intro hcond
    rw [h.join i hi hcond]
    split <;> rfl
  dsimp only
  split
  · rename_i hfull
    exact ⟨hjoin, fun hroom => absurd hroom (Nat.not_lt.mpr hfull)⟩
  · rename_i hroom
    refine ⟨fun i hi => ?_, fun _ => by simp [uop]⟩
    rw [length_append, length_singleton] at hi
    rw [uop_append (by omega)]
    rcases Nat.lt_or_ge (i + 1) uops.length with hmid | hend
    · rw [uop_append hmid]
      exact hjoin i hmid
    · -- the last uop had no join
      have hlast : i + 1 = uops.length := by omega
      have hzero := h.last (by omega)
      rw [← hlen, ← hlast, Nat.add_sub_cancel] at hzero
      have hnew : ∀ u : Uop, uop (uops ++ [u]) (i + 1) = u := by
        intro u
        rw [hlast]
        simp [uop]
      rw [hnew, huop i (by omega)]
      split
      · exact fun _ => rfl
      · rename_i hnot
        exact fun hcond => absurd ⟨by omega, hcond, hzero⟩ hnot

theorem linked_recording (insts : List Uop) : Linked (recording insts) :=
  List.foldlRecOn (motive := fun r : DVRInstructionRecorder => Linked r.uops) insts _
    ⟨fun _ hi => absurd hi (Nat.not_lt_zero _), fun _ => rfl⟩ fun _ h inst _ => h.record inst

/-! ## Where the branches join -/

variable {uops : List Uop} {flr_pc lcr_pc : Addr} {i : Nat}

/-- The LCR is a branch of its PC, or there is none in the rest of the recording. -/
theorem lcr_index_spec (uops : List Uop) (flr : Nat) (hlcr : lcr_pc ≠ 0) :
    lcr_index uops flr lcr_pc < uops.length ∧ (uop uops (lcr_index uops flr lcr_pc)).pc = lcr_pc ∨
    lcr_index uops flr lcr_pc = uops.length ∧ ∀ j, j < uops.length → flr < j →
      (uop uops j).conditional → (uop uops j).pc ≠ lcr_pc := by
  unfold lcr_index
  cases hfind : (range uops.length).find? fun i => flr < i && lcr_pc != 0 &&
      (uop uops i).conditional && (uop uops i).pc == lcr_pc with
  | some lcr =>
    have hfound := find?_some hfind
    rw [Bool.and_eq_true, beq_iff_eq] at hfound
    exact .inl ⟨mem_range.mp (mem_of_find?_eq_some hfind), hfound.2⟩
  | none =>
    refine .inr ⟨rfl, fun j hj hlt hcond hpc => ?_⟩
    exact find?_eq_none.mp hfind j (mem_range.mpr hj) (by simpa [hlt, hcond, hpc] using hlcr)

/-- A uop of the PC that is left in the branch comes after it, or is the branch. -/
theorem Linked.joins (h : Linked uops)
    (hmoved : Moved uops flr_pc lcr_pc → hasConditionalBetween uops flr_pc lcr_pc = true)
    (hi : i + 1 < uops.length) (hcond : (uop uops i).conditional) :
    ∃ j, i ≤ j ∧ j < uops.length ∧ (uop uops j).pc = reconvergence uops flr_pc lcr_pc i := by
  have hstay : ∃ j, i ≤ j ∧ j < uops.length ∧ (uop uops j).pc = (uop uops i).reconvergencePC :=
    ⟨i + 1, Nat.le_succ i, hi, (h.join i hi hcond).symm⟩
  unfold reconvergence
  split
  · exact hstay
  · rename_i flr hflr
    rw [if_neg (not_not.mpr hcond)]
    split
    · rename_i hle
      have hmem := mem_filter.mp (mem_of_getLast? hflr)
      rw [mem_range, Bool.and_eq_true, beq_iff_eq] at hmem
      exact ⟨flr, hle, hmem.1, hmem.2.2⟩
    · split
      · -- moved, so the LCR is recorded
        rename_i hafter hbetween
        have hfound := hmoved ⟨hbetween.2, flr, hflr, i, hi, by omega, hbetween.1, hcond⟩
        rcases lcr_index_spec uops flr hbetween.2 with ⟨hin, hlcr⟩ | ⟨hend, -⟩
        · exact ⟨_, Nat.le_of_lt hbetween.1, hin, hlcr⟩
        · simp [hasConditionalBetween, hflr, hend] at hfound
      · exact hstay

/-- **The joins lie ahead**, unless a branch after the FLR was moved to an LCR that is not recorded
    after the FLR: then `hasConditionalBetween` is false.  The LCR is a branch wherever it is
    recorded. -/
theorem joins_ahead_iff (insts : List Uop) (flr_pc lcr_pc : Addr)
    (hbranch : lcr_pc ≠ 0 → ∀ i, i < (recording insts).length →
      (uop (recording insts) i).pc = lcr_pc → (uop (recording insts) i).conditional) :
    JoinsAhead (setReconvergencePC (recording insts) flr_pc lcr_pc) ↔
      (Moved (recording insts) flr_pc lcr_pc →
        hasConditionalBetween (recording insts) flr_pc lcr_pc = true) := by
  have hlinked := linked_recording insts
  generalize recording insts = uops at *
  have hlen : (setReconvergencePC uops flr_pc lcr_pc).length = uops.length := length_mapIdx
  have huop : ∀ i, i < uops.length → uop (setReconvergencePC uops flr_pc lcr_pc) i =
      { uop uops i with reconvergencePC := reconvergence uops flr_pc lcr_pc i } :=
    fun i => uop_mapIdx _
  constructor
  · rintro hahead ⟨hlcr, flr, hflr, i, hi, hlt, hbefore, hcond⟩
    have hmid : i < uops.length := Nat.lt_of_succ_lt hi
    rcases lcr_index_spec uops flr hlcr with ⟨hin, -⟩ | ⟨-, hnone⟩
    · have hany : (range (lcr_index uops flr lcr_pc)).any
          (fun i => flr < i && (uop uops i).conditional) = true :=
        any_eq_true.mpr ⟨i, mem_range.mpr hbefore, by simp [hlt, hcond]⟩
      rw [hasConditionalBetween, Option.mem_def.mp hflr]
      simp [hany, Nat.ne_of_lt hin]
    · -- its lanes wait for a PC that does not come
      obtain ⟨j, hij, hj, hjoin⟩ := hahead i (hlen.symm ▸ hi) (by rw [huop i hmid]; exact hcond)
      rw [hlen] at hj
      rw [huop i hmid, huop j hj] at hjoin
      have hleft : reconvergence uops flr_pc lcr_pc i = lcr_pc := by
        rw [reconvergence, Option.mem_def.mp hflr]
        simp only [hcond, not_true, if_false, Nat.not_le.mpr hlt, hbefore, hlcr, ne_eq,
          not_false_eq_true, and_self, if_true]
      have hpc : (uop uops j).pc = lcr_pc := hjoin.trans hleft
      exact absurd hpc (hnone j hj (by omega) (hbranch hlcr j hj hpc))
  · intro hmoved i hi hcond
    rw [hlen] at hi ⊢
    have hmid : i < uops.length := Nat.lt_of_succ_lt hi
    rw [huop i hmid] at hcond ⊢
    obtain ⟨j, hij, hj, hpc⟩ := hlinked.joins hmoved hi hcond
    exact ⟨j, hij, hj, by rw [huop j hj]; exact hpc⟩

/-- A load and a branch of a loop whose branch is not recorded. -/
def openLoop : List Uop := [{ pc := 4, load := true }, { pc := 8, conditional := true }, {}]

/-- Without its branch the load has nowhere to go on. -/
theorem joins_ahead_iff_open : ¬ JoinsAhead (setReconvergencePC (recording openLoop) 4 12) :=
  fun hahead => absurd ((joins_ahead_iff openLoop 4 12 (by decide)).mp hahead
    ⟨by decide, 0, by decide, 1, by decide, by decide, by decide, by decide⟩) (by decide)

end Gem5Dvr.Recorder
