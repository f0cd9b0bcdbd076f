/-
  The misprediction table (`MispTable`, `cpu/o3/pre.hh` 637-664, `pre.cc` 2735-2799).

  Eight rows of eight cells, each row meant to be a set of program counters in order of use: `lru` is
  the rank of a cell, 0 the most recent.

  1. **Program** — `add`.  The fields `lru`, `ref` and `misp` are `short`s that stay between 0 and
     256, so they are integers here.

  2. **Ranks** — a hit and a replacement each permute the ranks, whatever the row.

  3. **The crux (`miss_ordered`, `miss_twice`)** — the loop that replaces the cell of rank 7 ages the
     others while it is still on its way: the cell of rank 6 becomes one of rank 7.  If that cell is
     already behind, the loop replaces ONE cell; if it is still to come, the loop replaces it too, and
     the new PC is in the row twice.  So the table works as long as, at every miss, the cell of rank 6
     stands before the cell of rank 7.
-/
import Gem5Dvr.Lib.Trace
import Mathlib.Data.BitVec
import Mathlib.Data.List.FinRange
import Mathlib.Data.List.Perm.Subperm
import Mathlib.Data.List.Pairwise
import Mathlib.Logic.Function.Basic
import Mathlib.Order.Fin.Basic

namespace Gem5Dvr.Misp

open List Function

/-! ## The program -/

abbrev Addr := BitVec 64

structure Cell where
  pc : Addr
  lru : Int
  ref : Int
  misp : Int
  deriving DecidableEq, Repr

abbrev Row := Fin 8 → Cell

def MAX_REF : Int := 256

abbrev Table := Fin 8 → Row

def rowIdx (pc : Addr) : Fin 8 :=
  ⟨((pc >>> 1) &&& 7).toNat, Nat.lt_succ_of_le (by rw [BitVec.toNat_and]; exact Nat.and_le_right)⟩

/-- The counters of a hit. -/
def counted (cell : Cell) (misp : Bool) : Cell :=
  let ref := cell.ref + 1
  let misp := if misp then cell.misp + 1 else cell.misp
  if ref = MAX_REF then { cell with ref := ref >>> (1 : Nat), misp := misp >>> (1 : Nat) }
  else { cell with ref := ref, misp := misp }

/-- The cells that were more recent than cell `i` age by one, and `i` comes first. -/
def promote (row : Row) (i : Fin 8) : Row := fun j =>
  if j = i then { row j with lru := 0 }
  else if (row j).lru < (row i).lru then { row j with lru := (row j).lru + 1 }
  else row j

def hit (row : Row) (i : Fin 8) (misp : Bool) : Row :=
  promote (update row i (counted (row i) misp)) i

/-- Cell `i` is replaced, and all the others age. -/
def replace (pc : Addr) (misp : Bool) (row : Row) (i : Fin 8) : Row := fun j =>
  if j = i then ⟨pc, 0, 1, if misp then 1 else 0⟩ else { row j with lru := (row j).lru + 1 }

/-- The body of the replacement loop. -/
def missStep (pc : Addr) (misp : Bool) (row : Row) (i : Fin 8) : Row :=
  if (row i).lru = 7 then replace pc misp row i else row

def miss (row : Row) (pc : Addr) (misp : Bool) : Row := (finRange 8).foldl (missStep pc misp) row

/-- The search for the PC in its row. -/
def find (row : Row) (pc : Addr) : Option (Fin 8) := (finRange 8).find? fun i => (row i).pc == pc

/-- What `add` makes of the row of the PC. -/
def addRow (row : Row) (pc : Addr) (misp : Bool) : Row :=
  match find row pc with
  | some i => hit row i misp
  | none => miss row pc misp

/-- A branch that retires: its PC, and whether it was mispredicted. -/
structure Branch where
  pc : Addr
  misp : Bool
  deriving DecidableEq, Repr

def add (t : Table) (b : Branch) : Table :=
  update t (rowIdx b.pc) (addRow (t (rowIdx b.pc)) b.pc b.misp)

/-- A table after a sequence of calls. -/
def run (t : Table) (bs : List Branch) : Table := bs.foldl add t

/-! ## Specification -/

/-- The ranks of a row are 0 to 7, each once. -/
def RanksPerm (row : Row) : Prop := (ofFn fun i => (row i).lru).Perm [0, 1, 2, 3, 4, 5, 6, 7]

/-- A row is a set of PCs in order of use, with counts in range. -/
structure RowOk (row : Row) : Prop where
  ranks : RanksPerm row
  distinct : ∀ i j, (row i).pc = (row j).pc → i = j
  counts : ∀ i, 0 ≤ (row i).misp ∧ (row i).misp ≤ (row i).ref ∧ (row i).ref < MAX_REF

/-- The PC of the branch is in its row. -/
def Hits (t : Table) (b : Branch) : Prop := ∃ i, (t (rowIdx b.pc) i).pc = b.pc

/-- The call replaces the cell of rank 7 and no other one. -/
def ReplacesOne (t : Table) (b : Branch) : Prop :=
  ∃ i, (t (rowIdx b.pc) i).lru = 7 ∧ (add t b (rowIdx b.pc) i).pc = b.pc ∧
    ∀ j, j ≠ i → (add t b (rowIdx b.pc) j).pc = (t (rowIdx b.pc) j).pc ∧
      (add t b (rowIdx b.pc) j).ref = (t (rowIdx b.pc) j).ref ∧
      (add t b (rowIdx b.pc) j).misp = (t (rowIdx b.pc) j).misp

/-- Along the calls, every row is as it should be and every miss replaces one cell. -/
def Lru (t : Table) (bs : List Branch) : Prop := ∀ pre, pre <+: bs → (∀ r, RowOk (run t pre r)) ∧
    ∀ b, pre ++ [b] <+: bs → ¬ Hits (run t pre) b → ReplacesOne (run t pre) b

/-- The branch is in the table, or the cell of rank 6 of its row stands before the cell of rank 7. -/
def Ordered (t : Table) (b : Branch) : Prop :=
  Hits t b ∨ ∃ i j, (t (rowIdx b.pc) i).lru = 6 ∧ (t (rowIdx b.pc) j).lru = 7 ∧ i < j

instance (t : Table) (b : Branch) : Decidable (Hits t b) := inferInstanceAs (Decidable (∃ _, _))

instance (t : Table) (b : Branch) : Decidable (Ordered t b) := inferInstanceAs (Decidable (_ ∨ _))

/-- A new table: the constructor ranks the cells in order; the PCs in a row differ and the counts
    are zero. -/
structure Fresh (t : Table) : Prop where
  lru : ∀ r i, (t r i).lru = i.val
  distinct : ∀ r i j, (t r i).pc = (t r j).pc → i = j
  zero : ∀ r i, (t r i).ref = 0 ∧ (t r i).misp = 0

/-! ## Ranks -/

/-- Eight ranks from 0 to 7, pairwise different. -/
structure Ranks (row : Row) : Prop where
  range : ∀ i, 0 ≤ (row i).lru ∧ (row i).lru ≤ 7
  inj : ∀ i j, (row i).lru = (row j).lru → i = j

theorem ranks_iff (row : Row) : RanksPerm row ↔ Ranks row := by
  constructor
  · intro h
    constructor
    · intro i
      have hmem := h.mem_iff.mp ((mem_ofFn' _ _).mpr ⟨i, rfl⟩)
      simp only [mem_cons, not_mem_nil, or_false] at hmem
      omega
    · have hnodup := h.nodup_iff.mpr (by decide)
      exact fun i j heq => nodup_ofFn.mp hnodup heq
  · intro h
    have hnodup : (ofFn fun i => (row i).lru).Nodup := nodup_ofFn.mpr fun i j => h.inj i j
    have hsub : (ofFn fun i => (row i).lru) ⊆ [0, 1, 2, 3, 4, 5, 6, 7] := by
      intro x hx
      obtain ⟨i, rfl⟩ := (mem_ofFn' _ _).mp hx
      have hrange := h.range i
      simp only [mem_cons, not_mem_nil, or_false]
      omega
    exact (hnodup.subperm hsub).perm_of_length_le (by simp)

section ranks

variable {row : Row}

/-- Every rank is that of some cell. -/
theorem Ranks.cell (h : Ranks row) {k : Int} (h0 : 0 ≤ k) (h7 : k ≤ 7) : ∃ i, (row i).lru = k := by
  have hmem : k ∈ ofFn fun i => (row i).lru := by
    rw [((ranks_iff row).mpr h).mem_iff]
    simp only [mem_cons, not_mem_nil, or_false]
    omega
  exact (mem_ofFn' _ _).mp hmem

theorem Ranks.ne (h : Ranks row) {i j : Fin 8} (hne : i ≠ j) : (row i).lru ≠ (row j).lru :=
  fun heq => hne (h.inj i j heq)

theorem promote_lru (i j : Fin 8) : (promote row i j).lru
    = if j = i then 0 else if (row j).lru < (row i).lru then (row j).lru + 1 else (row j).lru := by
  unfold promote
  split_ifs <;> rfl

theorem Ranks.promote (h : Ranks row) (i : Fin 8) : Ranks (promote row i) := by
  have hi := h.range i
  constructor
  · intro j
    have hj := h.range j
    rw [promote_lru]
    split_ifs <;> omega
  · intro j k heq
    have hj := h.range j
    have hk := h.range k
    by_contra hne
    have hjk := h.ne hne
    rw [promote_lru, promote_lru] at heq
    by_cases hji : j = i
    · have hki : ¬ k = i := fun hc => hne (hji.trans hc.symm)
      have hlru := h.ne hki
      split_ifs at heq <;> omega
    · by_cases hki : k = i
      · have hlru := h.ne hji
        split_ifs at heq <;> omega
      · rw [if_neg hji, if_neg hki] at heq
        have hlruj := h.ne hji
        have hlruk := h.ne hki
        split_ifs at heq <;> omega

theorem counted_lru (cell : Cell) (misp : Bool) : (counted cell misp).lru = cell.lru := by
  unfold counted
  simp only
  split_ifs <;> rfl

theorem counted_pc (cell : Cell) (misp : Bool) : (counted cell misp).pc = cell.pc := by
  unfold counted
  simp only
  split_ifs <;> rfl

/-- The counters of a hit do not touch the ranks. -/
theorem Ranks.hit (h : Ranks row) (i : Fin 8) (misp : Bool) : Ranks (hit row i misp) := by
  have hsame : ∀ j, (update row i (counted (row i) misp) j).lru = (row j).lru := by
    intro j
    by_cases hj : j = i
    · subst hj
      rw [update_self, counted_lru]
    · rw [update_of_ne hj]
  have hcounted : Ranks (update row i (counted (row i) misp)) := by
    constructor
    · intro j
      rw [hsame]
      exact h.range j
    · intro j k heq
      rw [hsame, hsame] at heq
      exact h.inj j k heq
  exact hcounted.promote i

theorem replace_lru (pc : Addr) (misp : Bool) (i j : Fin 8) :
    (replace pc misp row i j).lru = if j = i then 0 else (row j).lru + 1 := by
  unfold replace
  split_ifs <;> rfl

theorem Ranks.missStep (h : Ranks row) (pc : Addr) (misp : Bool) (i : Fin 8) :
    Ranks (missStep pc misp row i) := by
  unfold Misp.missStep
  split_ifs with hlast
  · constructor
    · intro j
      have hj := h.range j
      rw [replace_lru]
      split_ifs with hji
      · omega
      · have hlru := h.ne hji
        omega
    · intro j k heq
      have hj := h.range j
      have hk := h.range k
      by_contra hne
      have hjk := h.ne hne
      rw [replace_lru, replace_lru] at heq
      split_ifs at heq with hji hki hki
      · exact hne (hji.trans hki.symm)
      · omega
      · omega
      · omega
  · exact h

theorem Ranks.addRow (h : Ranks row) (pc : Addr) (misp : Bool) : Ranks (addRow row pc misp) := by
  unfold Misp.addRow
  cases find row pc with
  | some i => exact h.hit i misp
  | none =>
    show Ranks (miss row pc misp)
    exact List.foldlRecOn (motive := Ranks) _ _ h fun _ hr i _ => hr.missStep pc misp i

end ranks

/-! ## Counts -/

/-- The counts of a cell are in range. -/
def CountOk (cell : Cell) : Prop := 0 ≤ cell.misp ∧ cell.misp ≤ cell.ref ∧ cell.ref < MAX_REF

section counts

variable {row : Row}

/-- Halving keeps the order of the two counts. -/
theorem CountOk.counted {cell : Cell} (h : CountOk cell) (misp : Bool) : CountOk (counted cell misp) := by
  unfold CountOk Misp.counted MAX_REF at *
  simp only [Int.shiftRight_eq_div_pow]
  cases misp <;> simp only [if_true, Bool.false_eq_true, if_false] <;> split_ifs <;>
    simp only <;> omega

theorem countOk_promote (h : ∀ j, CountOk (row j)) (i : Fin 8) : ∀ j, CountOk (promote row i j) := by
  intro j
  unfold promote
  split_ifs <;> exact h j

theorem countOk_missStep (h : ∀ j, CountOk (row j)) (pc : Addr) (misp : Bool) (i : Fin 8) :
    ∀ j, CountOk (missStep pc misp row i j) := by
  intro j
  unfold missStep
  split_ifs with hlast
  · by_cases hji : j = i
    · subst hji
      have hcell : replace pc misp row j j = ⟨pc, 0, 1, if misp then 1 else 0⟩ := if_pos rfl
      rw [hcell]
      cases misp <;> exact ⟨by simp, by simp, by simp [MAX_REF]⟩
    · have hcell : replace pc misp row i j = { row j with lru := (row j).lru + 1 } := if_neg hji
      rw [hcell]
      exact h j
  · exact h j

theorem countOk_addRow (h : ∀ j, CountOk (row j)) (pc : Addr) (misp : Bool) :
    ∀ j, CountOk (addRow row pc misp j) := by
  unfold addRow
  cases find row pc with
  | some i =>
    apply countOk_promote
    intro j
    by_cases hj : j = i
    · subst hj
      rw [update_self]
      exact (h j).counted misp
    · rw [update_of_ne hj]
      exact h j
  | none =>
    exact List.foldlRecOn (motive := fun row : Row => ∀ j, CountOk (row j)) _ _ h
      fun _ hr i _ => countOk_missStep hr pc misp i

end counts

/-! ## The replacement loop -/

section loop

variable {row : Row} {pc : Addr} {misp : Bool}

/-- Cells of another rank are passed over. -/
theorem foldl_missStep_skip {l : List (Fin 8)} (h : ∀ i ∈ l, (row i).lru ≠ 7) :
    l.foldl (missStep pc misp) row = row := by
  induction l with
  | nil => rfl
  | cons i l ih =>
    have hi : missStep pc misp row i = row := if_neg (h i mem_cons_self)
    rw [foldl_cons, hi]
    exact ih fun j hj => h j (mem_cons_of_mem i hj)

/-- A replaced cell keeps the new PC to the end. -/
theorem foldl_missStep_pc (l : List (Fin 8)) {i : Fin 8} (h : (row i).pc = pc) :
    (l.foldl (missStep pc misp) row i).pc = pc := by
  refine List.foldlRecOn (motive := fun row : Row => (row i).pc = pc) l _ h fun r hr j _ => ?_
  unfold missStep
  split_ifs
  · by_cases hij : i = j
    · exact congrArg Cell.pc (if_pos hij)
    · exact (congrArg Cell.pc (if_neg hij)).trans hr
  · exact hr

/-- The indices of a row around one of them. -/
theorem finRange_split (i : Fin 8) : ∃ l r, finRange 8 = l ++ i :: r ∧
    (∀ j ∈ l, j < i) ∧ (∀ j ∈ r, i < j) ∧ r.Nodup := by
  obtain ⟨l, r, hsplit⟩ := append_of_mem (mem_finRange i)
  have hsorted : (finRange 8).Pairwise (· < ·) := pairwise_lt_finRange 8
  rw [hsplit, pairwise_append, pairwise_cons] at hsorted
  exact ⟨l, r, hsplit, fun j hj => hsorted.2.2 j hj i mem_cons_self, hsorted.2.1.1,
    hsorted.2.1.2.imp fun hjk => by omega⟩

/-- Up to the cell of rank 7 nothing happens. -/
theorem miss_reach (pc : Addr) (misp : Bool) (h : Ranks row) {i : Fin 8} (hi : (row i).lru = 7) :
    ∃ r : List (Fin 8), (∀ j ∈ r, i < j) ∧ (∀ j, i < j → j ∈ r) ∧ r.Nodup ∧
      miss row pc misp = r.foldl (missStep pc misp) (replace pc misp row i) := by
  obtain ⟨l, r, hsplit, hl, hr, hnodup⟩ := finRange_split i
  refine ⟨r, hr, ?_, hnodup, ?_⟩
  · intro j hij
    have hmem : j ∈ l ++ i :: r := hsplit ▸ mem_finRange j
    rcases mem_append.mp hmem with hin | hin
    · exact absurd (hl j hin) (by omega)
    · exact (mem_cons.mp hin).resolve_left (by omega)
  · have hskip : ∀ j ∈ l, (row j).lru ≠ 7 := by
      intro j hj
      have hne := h.ne (i := j) (j := i) (by have := hl j hj; omega)
      omega
    have hstep : missStep pc misp row i = replace pc misp row i := if_pos hi
    rw [miss, hsplit, foldl_append, foldl_missStep_skip hskip, foldl_cons, hstep]

/-- The cell of rank 6 is behind: one cell is replaced. -/
theorem miss_ordered (h : Ranks row) {i j : Fin 8} (hi : (row i).lru = 6) (hj : (row j).lru = 7)
    (hij : i < j) : miss row pc misp = replace pc misp row j := by
  obtain ⟨r, hr, -, -, hmiss⟩ := miss_reach pc misp h hj
  rw [hmiss]
  apply foldl_missStep_skip
  intro k hk
  have hjk := hr k hk
  have hne := h.ne (i := k) (j := i) (by omega)
  rw [replace_lru, if_neg (by omega)]
  omega

/-- The cell of rank 6 is still to come: it is replaced as well. -/
theorem miss_twice (pc : Addr) (misp : Bool) (h : Ranks row) {i j : Fin 8} (hi : (row i).lru = 6) (hj : (row j).lru = 7)
    (hji : j < i) : (miss row pc misp i).pc = pc ∧ (miss row pc misp j).pc = pc := by
  obtain ⟨r, hr, hin, hnodup, hmiss⟩ := miss_reach pc misp h hj
  obtain ⟨l, r', hsplit⟩ := append_of_mem (hin i hji)
  rw [hsplit] at hnodup
  have hskip : ∀ k ∈ l, (replace pc misp row j k).lru ≠ 7 := by
    intro k hk
    have hjk := hr k (hsplit ▸ mem_append_left _ hk)
    have hki : k ≠ i := fun heq => (nodup_append.mp hnodup).2.2 k hk i mem_cons_self heq
    have hne := h.ne hki
    rw [replace_lru, if_neg (by omega)]
    omega
  have hlast : (replace pc misp row j i).lru = 7 := by
    rw [replace_lru, if_neg (by omega), hi]
    rfl
  have hstep : missStep pc misp (replace pc misp row j) i
      = replace pc misp (replace pc misp row j) i := if_pos hlast
  rw [hmiss, hsplit, foldl_append, foldl_missStep_skip hskip, foldl_cons, hstep]
  constructor
  · exact foldl_missStep_pc r' (congrArg Cell.pc (if_pos rfl))
  · apply foldl_missStep_pc r'
    have hne : j ≠ i := by omega
    exact (congrArg Cell.pc (if_neg hne)).trans (congrArg Cell.pc (if_pos rfl))

end loop

/-! ## One call -/

section call

variable {row : Row} {pc : Addr} {misp : Bool}

theorem find_some {i : Fin 8} (h : find row pc = some i) : (row i).pc = pc := by
  simpa using find?_some h

theorem find_none (h : find row pc = none) (i : Fin 8) : (row i).pc ≠ pc := by
  have hall := find?_eq_none.mp h i (mem_finRange i)
  simpa using hall

theorem hit_pc (i j : Fin 8) : (hit row i misp j).pc = (row j).pc := by
  have hcounted : (update row i (counted (row i) misp) j).pc = (row j).pc := by
    by_cases hj : j = i
    · subst hj
      rw [update_self, counted_pc]
    · rw [update_of_ne hj]
  rw [← hcounted]
  unfold hit promote
  split_ifs <;> rfl

theorem replace_pc (i j : Fin 8) :
    (replace pc misp row i j).pc = if j = i then pc else (row j).pc := by
  unfold replace
  split_ifs <;> rfl

theorem RowOk.ranks' (h : RowOk row) : Ranks row := (ranks_iff row).mp h.ranks

/-- A hit, or a replacement of one cell, keeps the PCs of the row apart. -/
theorem RowOk.addRow (h : RowOk row) (hordered : (∃ i, (row i).pc = pc) ∨
    ∃ i j, (row i).lru = 6 ∧ (row j).lru = 7 ∧ i < j) : RowOk (addRow row pc misp) := by
  refine ⟨(ranks_iff _).mpr (h.ranks'.addRow pc misp), ?_, countOk_addRow h.counts pc misp⟩
  intro j k heq
  unfold Misp.addRow at heq
  cases hfind : find row pc with
  | some i =>
    rw [hfind] at heq
    simp only [hit_pc] at heq
    exact h.distinct j k heq
  | none =>
    have hnot := find_none hfind
    obtain ⟨i, hi⟩ | ⟨i, last, hi, hlast, hlt⟩ := hordered
    · exact absurd hi (hnot i)
    · rw [hfind] at heq
      simp only [miss_ordered h.ranks' hi hlast hlt, replace_pc] at heq
      split_ifs at heq with hj hk hk
      · rw [hj, hk]
      · exact absurd heq.symm (hnot k)
      · exact absurd heq (hnot j)
      · exact h.distinct j k heq

/-- A replacement of two cells puts the PC into both. -/
theorem RowOk.addRow_twice (h : RowOk row) (hmiss : ¬ ∃ i, (row i).pc = pc)
    (hlate : ¬ ∃ i j, (row i).lru = 6 ∧ (row j).lru = 7 ∧ i < j) : ¬ RowOk (Misp.addRow row pc misp) := by
  intro hok
  obtain ⟨i, hi⟩ := h.ranks'.cell (k := 6) (by omega) (by omega)
  obtain ⟨j, hj⟩ := h.ranks'.cell (k := 7) (by omega) (by omega)
  have hne : i ≠ j := by
    rintro rfl
    omega
  have hji : j < i := by
    by_contra hle
    exact hlate ⟨i, j, hi, hj, by omega⟩
  have hfind : find row pc = none := by
    cases hfind : find row pc with
    | none => rfl
    | some k => exact absurd ⟨k, find_some hfind⟩ hmiss
  have hrow : Misp.addRow row pc misp = miss row pc misp := by
    rw [Misp.addRow, hfind]
  obtain ⟨hpci, hpcj⟩ := miss_twice pc misp h.ranks' hi hj hji
  rw [hrow] at hok
  exact hne (hok.distinct i j (hpci.trans hpcj.symm))

end call

/-! ## Every sequence of calls -/

/-- Every row is as it should be. -/
def TableOk (t : Table) : Prop := ∀ r, RowOk (t r)

variable {t : Table} {b : Branch}

theorem TableOk.add (h : TableOk t) (hordered : Ordered t b) : TableOk (add t b) := by
  intro r
  unfold Misp.add
  by_cases hr : r = rowIdx b.pc
  · subst hr
    rw [update_self]
    exact (h _).addRow hordered
  · rw [update_of_ne hr]
    exact h r

theorem TableOk.not_add (h : TableOk t) (hnot : ¬ Ordered t b) : ¬ TableOk (Misp.add t b) := by
  intro hok
  have hrow := hok (rowIdx b.pc)
  unfold Misp.add at hrow
  rw [update_self] at hrow
  exact (h _).addRow_twice (fun hhit => hnot (Or.inl hhit)) (fun hlt => hnot (Or.inr hlt)) hrow

theorem TableOk.replacesOne (h : TableOk t) (hordered : Ordered t b)
    (hmiss : ¬ Hits t b) : ReplacesOne t b := by
  obtain ⟨i, j, hi, hj, hij⟩ := hordered.resolve_left hmiss
  have hfind : find (t (rowIdx b.pc)) b.pc = none := by
    cases hfind : find (t (rowIdx b.pc)) b.pc with
    | none => rfl
    | some k => exact absurd ⟨k, find_some hfind⟩ hmiss
  have hrow : Misp.add t b (rowIdx b.pc) = replace b.pc b.misp (t (rowIdx b.pc)) j := by
    rw [Misp.add, update_self, Misp.addRow, hfind]
    exact miss_ordered (h _).ranks' hi hj hij
  refine ⟨j, hj, ?_, ?_⟩
  · rw [hrow, replace_pc, if_pos rfl]
  · intro k hk
    have hcell : replace b.pc b.misp (t (rowIdx b.pc)) j k
        = { t (rowIdx b.pc) k with lru := (t (rowIdx b.pc) k).lru + 1 } := if_neg hk
    rw [hrow, hcell]
    exact ⟨rfl, rfl, rfl⟩

theorem Fresh.tableOk (h : Fresh t) : TableOk t := by
  intro r
  refine ⟨?_, h.distinct r, ?_⟩
  · have hranks : (ofFn fun i => (t r i).lru) = [0, 1, 2, 3, 4, 5, 6, 7] := by
      simp only [h.lru]
      decide
    rw [RanksPerm, hranks]
  · intro i
    rw [(h.zero r i).1, (h.zero r i).2]
    exact ⟨Int.le_refl 0, Int.le_refl 0, by decide⟩

/-- The rows are LRU sets along the calls just when every call that misses finds the cell of rank 6
    before the cell of rank 7. -/
theorem misp_rows_lru {t : Table} (h : Fresh t) (bs : List Branch) :
    Lru t bs ↔ Trace.Admits Ordered add t bs := by
  have hlegal : Trace.Admits (fun _ _ => True) add t bs := Trace.admits_of_forall fun _ _ => trivial
  have hiff : (∀ pre, pre <+: bs → TableOk (pre.foldl add t)) ↔ Trace.Admits Ordered add t bs :=
    Trace.Admits.iff_prefix TableOk TableOk (fun s b hs _ hb => TableOk.add hs hb) (fun s hs => hs)
      (fun s b hs _ hb => hs.not_add hb) h.tableOk hlegal
  constructor
  · intro hlru
    exact hiff.mp fun pre hpre => (hlru pre hpre).1
  · intro hadmits pre hpre
    have hok : TableOk (run t pre) := hiff.mpr hadmits pre hpre
    refine ⟨hok, ?_⟩
    rintro b ⟨rest, rfl⟩ hmiss
    rw [append_assoc, Trace.admits_append] at hadmits
    exact hok.replacesOne hadmits.2.1 hmiss

/-- The cells of a new table, with PCs that no branch has. -/
def unusedTable : Table := fun r j => ⟨BitVec.ofNat 64 (16 * j.val + 2 * r.val + 1), j.val, 0, 0⟩

theorem unusedTable_fresh : Fresh unusedTable := ⟨fun _ _ => rfl, by decide, fun _ _ => ⟨rfl, rfl⟩⟩

/-- Branches of the first row. -/
def branches (ks : List Nat) : List Branch := ks.map fun k => ⟨BitVec.ofNat 64 (16 * k), true⟩

/-- Two branches in cells of their own. -/
theorem misp_rows_lru_two : Lru unusedTable (branches [1, 2]) :=
  (misp_rows_lru unusedTable_fresh _).mpr (by decide)

/-- Nine branches, the first one met again after the second: the ninth call, for the eighth of them,
    takes three cells, and the last two hold it to the end. -/
theorem misp_rows_twice : (run unusedTable (branches [1, 2, 1, 3, 4, 5, 6, 7, 8, 9]) 0 6).pc
      = (run unusedTable (branches [1, 2, 1, 3, 4, 5, 6, 7, 8, 9]) 0 7).pc ∧
    ¬ Lru unusedTable (branches [1, 2, 1, 3, 4, 5, 6, 7, 8, 9]) := by
  have hpc : (run unusedTable (branches [1, 2, 1, 3, 4, 5, 6, 7, 8, 9]) 0 6).pc
      = (run unusedTable (branches [1, 2, 1, 3, 4, 5, 6, 7, 8, 9]) 0 7).pc := by decide
  refine ⟨hpc, fun hlru => ?_⟩
  have hrow := (hlru _ (prefix_refl _)).1 0
  have hsame := hrow.distinct 6 7 hpc
  exact absurd hsame (by decide)

/-! ## The counts -/

/-- After any calls, also where a row is no LRU set, no count is negative or reaches its bound, and
    no branch has more mispredictions than predictions. -/
theorem counts_in_range {t : Table} (h : Fresh t) (bs : List Branch) (r : Fin 8) (i : Fin 8) :
    CountOk (run t bs r i) := by
  refine List.foldlRecOn (motive := fun t : Table => ∀ r j, CountOk (t r j)) bs _
    (fun r => (h.tableOk r).counts) (fun t ht b _ r => ?_) r i
  unfold Misp.add
  by_cases hr : r = rowIdx b.pc
  · subst hr
    rw [update_self]
    exact countOk_addRow (ht _) b.pc b.misp
  · rw [update_of_ne hr]
    exact ht r

/-- The same run keeps the counts. -/
theorem counts_in_range_twice :
    CountOk (run unusedTable (branches [1, 2, 1, 3, 4, 5, 6, 7, 8, 9]) 0 6) :=
  counts_in_range unusedTable_fresh _ 0 6

end Gem5Dvr.Misp
