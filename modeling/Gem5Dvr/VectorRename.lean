/-
  The vector rename table of the helper (`cpu/o3/pre.hh` 384-405, `pre.cc` 1211-1250).

    1. **Program**: `build` hands out physical ids by a counter taken modulo 128, one for each
       destination register of each uop and each chunk of 16 lanes.
    2. **The crux (`build_lookup`)**: a pair is mapped to the number of its LAST allocation, modulo
       128, and that number depends only on where the register's last write stands.
    3. Ids are not looked up before they are handed out again, so two pairs that are both still mapped
       share an id as soon as their last allocations are a multiple of 128 apart; `Spread` says
       that none are.

  The counter is an `unsigned`; it wraps at a multiple of 128.
-/
import Gem5Dvr.Uop

namespace Gem5Dvr.VectorRename

open List

def NumPhysicalRegs : Nat := 128

/-! ## The table -/

/-- `DVRVectorRenameTable`; `-1` is `none`. -/
structure Table where
  mapping : Fin 32 → Fin 8 → Option Nat := fun _ _ => none
  nextPhysical : Nat := 0

/-- `mapping[reg][chunk] = nextPhysical++ % NumPhysicalRegs`. -/
def Table.allocate (t : Table) (reg : Fin 32) (chunk : Fin 8) : Table where
  mapping := fun r c =>
    if r = reg ∧ c = chunk then some (t.nextPhysical % NumPhysicalRegs) else t.mapping r c
  nextPhysical := t.nextPhysical + 1

/-- `std::min(NumChunks, (lanes + 15) / 16)`, in 32 bits. -/
def chunks (lanes : BitVec 32) : Nat := min 8 ((lanes + 15#32).toNat / 16)

/-- `destinations & (uint32_t(1) << reg)`. -/
def writes (op : Uop) (reg : Fin 32) : Bool := op.intDestinations.getLsbD reg

/-- The loop over the chunks of one register. -/
def Table.allocateAll (lanes : BitVec 32) (t : Table) (reg : Fin 32) : Table :=
  ((finRange 8).take (chunks lanes)).foldl (fun t chunk => t.allocate reg chunk) t

def build (program : List Uop) (lanes : BitVec 32) : Table :=
  program.foldl (fun t op => (finRange 32).foldl
    (fun t reg => if writes op reg then t.allocateAll lanes reg else t) t) {}

def Table.lookup (t : Table) (architectural : Fin 32) (chunk : Fin 8) : Option Nat :=
  t.mapping architectural chunk

/-! ## What is mapped -/

/-- The destination registers of a program, in the order of their allocations. -/
def allWrites (program : List Uop) : List (Fin 32) :=
  program.flatMap fun op => (finRange 32).filter (writes op)

/-- The number of the last write of a register. -/
def lastWrite : List (Fin 32) → Fin 32 → Option Nat
  | [], _ => none
  | r :: rs, reg =>
    match lastWrite rs reg with
    | some p => some (p + 1)
    | none => if r = reg then some 0 else none

theorem lastWrite_append (rs : List (Fin 32)) (r reg : Fin 32) :
    lastWrite (rs ++ [r]) reg = if r = reg then some rs.length else lastWrite rs reg := by
  induction rs with
  | nil => rfl
  | cons r₁ rs ih =>
    rw [cons_append, lastWrite, ih]
    by_cases h : r = reg
    · rw [if_pos h, if_pos h]
      rfl
    · rw [if_neg h, if_neg h]
      rfl

theorem lastWrite_isSome (rs : List (Fin 32)) (reg : Fin 32) :
    (lastWrite rs reg).isSome ↔ reg ∈ rs := by
  induction rs with
  | nil => simp [lastWrite]
  | cons r rs ih =>
    rw [lastWrite, mem_cons, ← ih]
    cases h : lastWrite rs reg with
    | some p => simp
    | none =>
      by_cases hr : r = reg
      · simp [hr]
      · simp [hr, Ne.symm hr]

theorem mem_allWrites {program : List Uop} {reg : Fin 32} :
    reg ∈ allWrites program ↔ ∃ op ∈ program, writes op reg = true := by
  simp [allWrites]

theorem build_eq (program : List Uop) (lanes : BitVec 32) :
    build program lanes = (allWrites program).foldl (Table.allocateAll lanes) {} := by
  unfold build allWrites
  rw [foldl_flatMap]
  congr 1
  funext t op
  rw [foldl_filter]

/-- The chunks below the `n`th have taken the next numbers, in order. -/
def Taken (t u : Table) (reg : Fin 32) (n : Nat) : Prop := u.nextPhysical = t.nextPhysical + n ∧
  ∀ r c, u.mapping r c =
    if r = reg ∧ c.val < n then some ((t.nextPhysical + c) % NumPhysicalRegs) else t.mapping r c

theorem Taken.next {t u : Table} {reg : Fin 32} {n : Nat} (h : Taken t u reg n) (hn : n < 8) :
    Taken t (u.allocate reg ⟨n, hn⟩) reg (n + 1) := by
  obtain ⟨hnext, hmap⟩ := h
  constructor
  · show u.nextPhysical + 1 = _
    omega
  · intro r c
    show (if r = reg ∧ c = ⟨n, hn⟩ then some (u.nextPhysical % NumPhysicalRegs)
      else u.mapping r c) = _
    rw [hmap, hnext]
    by_cases hr : r = reg
    · rcases Nat.lt_trichotomy c.val n with hlt | heq | hgt
      · have hne : c ≠ ⟨n, hn⟩ := fun h => Nat.ne_of_lt hlt (congrArg Fin.val h)
        rw [if_neg fun h => hne h.2, if_pos ⟨hr, hlt⟩, if_pos ⟨hr, by omega⟩]
      · have hc : c = ⟨n, hn⟩ := Fin.ext heq
        rw [if_pos ⟨hr, hc⟩, if_pos ⟨hr, by omega⟩, heq]
      · have hne : c ≠ ⟨n, hn⟩ := fun h => Nat.ne_of_gt hgt (congrArg Fin.val h)
        rw [if_neg fun h => hne h.2, if_neg fun h => by omega, if_neg fun h => by omega]
    · rw [if_neg fun h => hr h.1, if_neg fun h => hr h.1, if_neg fun h => hr h.1]

theorem taken_chunks (t : Table) (reg : Fin 32) {n : Nat} (hn : n ≤ 8) :
    Taken t (((finRange 8).take n).foldl (fun t chunk => t.allocate reg chunk) t) reg n := by
  induction n with
  | zero => exact ⟨rfl, fun r c => (if_neg fun h => Nat.not_lt_zero _ h.2).symm⟩
  | succ n ih =>
    have hlt : n < (finRange 8).length := by
      rw [length_finRange]
      omega
    rw [take_add_one, getElem?_eq_getElem hlt, getElem_finRange, foldl_append]
    exact (ih (by omega)).next (by omega)

theorem chunks_le (lanes : BitVec 32) : chunks lanes ≤ 8 := Nat.min_le_left _ _

/-- The table after a list of writes. -/
theorem foldl_allocateAll (lanes : BitVec 32) (rs : List (Fin 32)) :
    (rs.foldl (Table.allocateAll lanes) {}).nextPhysical = chunks lanes * rs.length ∧
    ∀ r c, (rs.foldl (Table.allocateAll lanes) {}).mapping r c =
      if c.val < chunks lanes then
        (lastWrite rs r).map fun p => (chunks lanes * p + c) % NumPhysicalRegs
      else none := by
  induction rs using reverseRecOn with
  | nil =>
    refine ⟨rfl, fun r c => ?_⟩
    show none = _
    split <;> rfl
  | append_singleton rs reg ih =>
    obtain ⟨hnext, hmap⟩ := ih
    rw [foldl_append]
    generalize rs.foldl (Table.allocateAll lanes) {} = u at hnext hmap
    obtain ⟨hnext', hmap'⟩ := taken_chunks u reg (chunks_le lanes)
    constructor
    · show (Table.allocateAll lanes u reg).nextPhysical = _
      unfold Table.allocateAll
      rw [hnext', hnext, length_append, length_singleton, Nat.mul_succ]
    · intro r c
      show (Table.allocateAll lanes u reg).mapping r c = _
      unfold Table.allocateAll
      rw [hmap', hmap, hnext, lastWrite_append]
      by_cases hc : c.val < chunks lanes
      · rw [if_pos hc, if_pos hc]
        by_cases hr : reg = r
        · rw [if_pos ⟨hr.symm, hc⟩, if_pos hr]
          rfl
        · rw [if_neg fun h => hr h.1.symm, if_neg hr]
      · rw [if_neg fun h => hc h.2, if_neg hc, if_neg hc]

/-- A pair is mapped to the number of its last allocation, modulo 128. -/
theorem build_lookup (program : List Uop) (lanes : BitVec 32) (reg : Fin 32) (chunk : Fin 8) :
    (build program lanes).lookup reg chunk =
      if chunk.val < chunks lanes then
        (lastWrite (allWrites program) reg).map fun p =>
          (chunks lanes * p + chunk) % NumPhysicalRegs
      else none := by
  rw [build_eq]
  exact (foldl_allocateAll lanes (allWrites program)).2 reg chunk

/-! ## Injectivity -/

/-- Mapped pairs are told apart by their ids, and these are in range. -/
def Injective (t : Table) : Prop :=
  (∀ reg chunk reg' chunk' id, t.lookup reg chunk = some id → t.lookup reg' chunk' = some id →
    reg = reg' ∧ chunk = chunk') ∧
  ∀ reg chunk id, t.lookup reg chunk = some id → id < NumPhysicalRegs

/-- A pair is mapped unless no uop writes the register or the chunk has no lane. -/
def MapsWritten (program : List Uop) (lanes : BitVec 32) (t : Table) : Prop :=
  ∀ (reg : Fin 32) (chunk : Fin 8), t.lookup reg chunk = none ↔
    (∀ op ∈ program, writes op reg = false) ∨ (lanes.toNat + 15) / 16 ≤ chunk.val

/-- No two registers' last allocations are a multiple of 128 apart. -/
def Spread (program : List Uop) (lanes : BitVec 32) : Prop :=
  ∀ reg reg' : Fin 32, reg ≠ reg' → ∀ p ∈ lastWrite (allWrites program) reg,
    ∀ p' ∈ lastWrite (allWrites program) reg', ∀ c < chunks lanes, ∀ c' < chunks lanes,
      (chunks lanes * p + c) % NumPhysicalRegs ≠ (chunks lanes * p' + c') % NumPhysicalRegs

/-- The lanes are rounded up without a wrap, or nothing is written. -/
def Countable (program : List Uop) (lanes : BitVec 32) : Prop :=
  lanes.toNat + 15 < 2 ^ 32 ∨ ∀ op ∈ program, ∀ reg, writes op reg = false

theorem lastWrite_eq_none {program : List Uop} {reg : Fin 32} :
    lastWrite (allWrites program) reg = none ↔ ∀ op ∈ program, writes op reg = false := by
  rw [← Option.not_isSome_iff_eq_none, lastWrite_isSome, mem_allWrites]
  constructor
  · intro h op hop
    cases hw : writes op reg with
    | false => rfl
    | true => exact absurd ⟨op, hop, hw⟩ h
  · rintro h ⟨op, hop, hw⟩
    rw [h op hop] at hw
    exact Bool.noConfusion hw

theorem chunks_of_lt {lanes : BitVec 32} (h : lanes.toNat + 15 < 2 ^ 32) :
    chunks lanes = min 8 ((lanes.toNat + 15) / 16) := by
  have hadd : (lanes + 15#32).toNat = lanes.toNat + 15 := by
    rw [BitVec.toNat_add]
    exact Nat.mod_eq_of_lt h
  unfold chunks
  rw [hadd]

/-- Rounding up that wraps leaves no chunk. -/
theorem chunks_of_wrap {lanes : BitVec 32} (h : ¬ lanes.toNat + 15 < 2 ^ 32) : chunks lanes = 0 := by
  have hlt := lanes.isLt
  have hadd : (lanes + 15#32).toNat = lanes.toNat + 15 - 2 ^ 32 := by
    rw [BitVec.toNat_add]
    show (lanes.toNat + 15) % 2 ^ 32 = _
    rw [Nat.mod_eq_sub_mod (by omega), Nat.mod_eq_of_lt (by omega)]
  have hzero : (lanes + 15#32).toNat / 16 = 0 := Nat.div_eq_of_lt (by omega)
  unfold chunks
  rw [hzero]
  rfl

theorem mapsWritten_iff (program : List Uop) (lanes : BitVec 32) :
    MapsWritten program lanes (build program lanes) ↔ Countable program lanes := by
  constructor
  · intro h
    by_cases hlt : lanes.toNat + 15 < 2 ^ 32
    · exact .inl hlt
    · refine .inr fun op hop reg => ?_
      have hnone : (build program lanes).lookup reg 0 = none := by
        rw [build_lookup, chunks_of_wrap hlt]
        exact if_neg (Nat.not_lt_zero _)
      rcases (h reg 0).mp hnone with hall | hle
      · exact hall op hop
      · have hzero : ((0 : Fin 8)).val = 0 := rfl
        omega
  · intro h reg chunk
    rw [build_lookup, ← lastWrite_eq_none]
    rcases h with hlt | hno
    · rw [chunks_of_lt hlt]
      have h8 := chunk.isLt
      by_cases hc : chunk.val < min 8 ((lanes.toNat + 15) / 16)
      · rw [if_pos hc, Option.map_eq_none_iff]
        constructor
        · exact .inl
        · rintro (hnone | hle)
          · exact hnone
          · omega
      · rw [if_neg hc]
        exact ⟨fun _ => .inr (by omega), fun _ => rfl⟩
    · have hnone := lastWrite_eq_none.mpr fun op hop => hno op hop reg
      rw [hnone]
      refine ⟨fun _ => .inl rfl, fun _ => ?_⟩
      split <;> rfl

theorem injective_iff (program : List Uop) (lanes : BitVec 32) :
    Injective (build program lanes) ↔ Spread program lanes := by
  have h8 := chunks_le lanes
  constructor
  · intro h reg reg' hne p hp p' hp' c hc c' hc' heq
    refine hne (h.1 reg ⟨c, by omega⟩ reg' ⟨c', by omega⟩
      ((chunks lanes * p + c) % NumPhysicalRegs) ?_ ?_).1
    · rw [build_lookup, if_pos hc, Option.mem_def.mp hp]
      rfl
    · rw [build_lookup, if_pos hc', Option.mem_def.mp hp', heq]
      rfl
  · intro h
    have hmapped : ∀ reg chunk id, (build program lanes).lookup reg chunk = some id →
        chunk.val < chunks lanes ∧ ∃ p, lastWrite (allWrites program) reg = some p ∧
          (chunks lanes * p + chunk) % NumPhysicalRegs = id := by
      intro reg chunk id hid
      rw [build_lookup] at hid
      by_cases hc : chunk.val < chunks lanes
      · rw [if_pos hc] at hid
        exact ⟨hc, Option.map_eq_some_iff.mp hid⟩
      · rw [if_neg hc] at hid
        exact nomatch hid
    constructor
    · intro reg chunk reg' chunk' id hid hid'
      obtain ⟨hc, p, hp, hpid⟩ := hmapped reg chunk id hid
      obtain ⟨hc', p', hp', hpid'⟩ := hmapped reg' chunk' id hid'
      by_cases hreg : reg = reg'
      · subst hreg
        obtain rfl : p = p' := Option.some.inj (hp.symm.trans hp')
        refine ⟨rfl, Fin.ext ?_⟩
        -- chunks of one register are less than 128 apart
        have hmod : (chunks lanes * p + chunk) % 128 = (chunks lanes * p + chunk') % 128 :=
          hpid.trans hpid'.symm
        omega
      · exact absurd (hpid.trans hpid'.symm) (h reg reg' hreg p hp p' hp' chunk hc chunk' hc')
    · intro reg chunk id hid
      obtain ⟨_, p, _, hpid⟩ := hmapped reg chunk id hid
      rw [← hpid]
      exact Nat.mod_lt _ (by decide)

/-- The table tells mapped pairs apart and maps just the written ones, if and only if no two last
    allocations are a multiple of 128 apart and the lanes are rounded up without a wrap. -/
theorem table_injective_iff (program : List Uop) (lanes : BitVec 32) :
    (Injective (build program lanes) ∧ MapsWritten program lanes (build program lanes)) ↔
      Spread program lanes ∧ Countable program lanes :=
  and_congr (injective_iff program lanes) (mapsWritten_iff program lanes)

/-- 128 writes by 16 lanes, of `x1`, `x2` and then `x3` again and again: the last write of `x1` comes
    128 allocations before that of `x2`. -/
def longProgram : List Uop := { intDestinations := 0b10#32 } ::
    (replicate 127 { intDestinations := 0b1000#32 } ++ [{ intDestinations := 0b100#32 }])

/-- Two registers share an id. -/
theorem longProgram_not_injective : ¬ (Injective (build longProgram 16#32) ∧
    MapsWritten longProgram 16#32 (build longProgram 16#32)) := by
  rintro ⟨⟨hinj, _⟩, _⟩
  have hone : (build longProgram 16#32).lookup 1 0 = some 0 := by decide +kernel
  have htwo : (build longProgram 16#32).lookup 2 0 = some 0 := by decide +kernel
  exact absurd (hinj 1 0 2 0 0 hone htwo).1 (by decide)

end Gem5Dvr.VectorRename
