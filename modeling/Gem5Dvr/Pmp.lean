/-
  RISC-V physical memory protection (`PMP`, `arch/riscv/pmp.hh`, `pmp.cc`).

  1. **Program** — the table of entries, the two register writes, which recompute the range of the
     entries they touch, and `pmpCheck`, which searches the table from entry 0.

  2. **The registers (`Regs`)** — what was last written to each address and configuration register.
     They are all that a reader of the writes knows.

  3. **The crux (`Current`)** — a range depends on the entry's own registers and on the address
     register below.  An address write recomputes every range and a configuration write its own, so
     no range is ever out of date.

  An `Option` result is `none` where the language leaves the conversion of a double undefined.
-/
import Gem5Dvr.AddrRange
import Gem5Dvr.Lib.FirstMatch
import Gem5Dvr.Lib.Trace

namespace Gem5Dvr.Pmp

open List Function

open Bitfield

/-! ## The program -/

/-- `BaseMMU::Mode`. -/
inductive Mode
  | Read | Write | Execute
  deriving DecidableEq, Repr

/-- `RiscvISA::PrivilegeMode`. -/
inductive PrivilegeMode
  | PRV_U | PRV_S | PRV_M
  deriving DecidableEq, Repr

/-- The fields of `RiscvISA::STATUS` that are read; `mpp` is three for machine mode. -/
structure Status where
  mprv : Bool
  mpp : BitVec 2
  deriving DecidableEq, Repr

/-- The fields of a `Request` that are read. -/
structure Request where
  paddr : Addr
  size : BitVec 32
  vaddr : Option Addr
  deriving DecidableEq, Repr

/-- The access faults of `RiscvISA::ExceptionCode`. -/
inductive ExceptionCode
  | LOAD_ACCESS | STORE_ACCESS | INST_ACCESS
  deriving DecidableEq, Repr

/-- The outcome of a check. -/
inductive Fault
  | NoFault
  | AddressFault (vaddr : Addr) (code : ExceptionCode)
  deriving DecidableEq, Repr

/-! ### Address matching modes and permissions -/

/-- No rule. -/
def PMP_OFF : BitVec 8 := 0
/-- From the address below up to its own. -/
def PMP_TOR : BitVec 8 := 1
/-- Four bytes. -/
def PMP_NA4 : BitVec 8 := 2
/-- A power of two, aligned. -/
def PMP_NAPOT : BitVec 8 := 3

/-- May be read. -/
def PMP_READ : BitVec 8 := 1 <<< 0
/-- May be written. -/
def PMP_WRITE : BitVec 8 := 1 <<< 1
/-- May be executed. -/
def PMP_EXEC : BitVec 8 := 1 <<< 2

/-- The matching mode of a configuration. -/
def pmpGetAField (cfg : BitVec 8) : BitVec 8 := (cfg >>> 3) &&& 0x03

/-- The test of the permission bits in `pmpCheck`. -/
def allowed (mode : Mode) (cfg : BitVec 8) : Bool :=
  let allowed_privs := (PMP_READ ||| PMP_WRITE ||| PMP_EXEC) &&& cfg
  match mode with
  | .Read => PMP_READ &&& allowed_privs != 0
  | .Write => PMP_WRITE &&& allowed_privs != 0
  | .Execute => PMP_EXEC &&& allowed_privs != 0

/-! ### Ranges -/

/-- `AddrRange(_start, _end)`: no interleaving. -/
def plainRange (_start _end : Addr) : AddrRange := ⟨_start, _end, [], 0, AddrRange.fits_nil⟩

/-- `(std::pow(2, n)) - 1`, a double, as a `uint64_t`.  A double has 53 bits: from 54 on the one is
    rounded away. -/
def powMinusOne (n : Nat) : Option (BitVec 64) :=
  if n ≤ 53 then some (BitVec.ofNat 64 (2 ^ n - 1))
  else if n < 64 then some (BitVec.ofNat 64 (2 ^ n))
  else none

/-- The range of a `PMP_NAPOT` address. -/
def pmpDecodeNapot (pmpaddr : Addr) : Option AddrRange :=
  if pmpaddr = BitVec.allOnes 64 then some (plainRange 0 (BitVec.allOnes 64))
  else
    let t1 := ctz64 (~~~ pmpaddr)
    let base := mbits pmpaddr (BitVec.ofNat 32 63) (BitVec.ofNat 32 t1) <<< 2
    (powMinusOne (t1 + 3)).map fun range => plainRange base (base + range)

/-- The `switch` of `pmpUpdateRule`. -/
def ruleRange (prevAddr this_addr : Addr) (this_cfg : BitVec 8) : Option AddrRange :=
  let a_field := pmpGetAField this_cfg
  if a_field = PMP_OFF then some (plainRange 0 0)
  else if a_field = PMP_TOR then some (plainRange (prevAddr <<< 2) ((this_addr <<< 2) - 1))
  else if a_field = PMP_NA4 then some (plainRange (this_addr <<< 2) ((this_addr + 4) - 1))
  else if a_field = PMP_NAPOT then pmpDecodeNapot this_addr
  else some (plainRange 0 0)

/-! ### The table -/

/-- An entry: its registers, and the range they mean. -/
structure PmpEntry where
  pmpAddr : AddrRange := plainRange 0 0
  rawAddr : Addr := 0
  pmpCfg : BitVec 8 := 0

/-- The fields of `PMP`, with `pmpEntries` entries. -/
structure Table (n : Nat) where
  pmpTable : Fin n → PmpEntry := fun _ => {}
  numRules : Nat := 0

variable {n : Nat}

namespace Table

/-- The entries that are not off. -/
def countRules (t : Table n) : Nat :=
  (finRange n).countP fun i => pmpGetAField (t.pmpTable i).pmpCfg != PMP_OFF

/-- The address register below. -/
def prevAddr (t : Table n) (pmp_index : Fin n) : Addr :=
  if 1 ≤ pmp_index.val then (t.pmpTable ⟨pmp_index.val - 1, by omega⟩).rawAddr else 0

/-- The range of an entry anew. -/
def pmpUpdateRule (t : Table n) (pmp_index : Fin n) : Option (Table n) :=
  let entry := t.pmpTable pmp_index
  (ruleRange (t.prevAddr pmp_index) entry.rawAddr entry.pmpCfg).map fun this_range =>
    { pmpTable := update t.pmpTable pmp_index { entry with pmpAddr := this_range }
      numRules := t.countRules }

/-- A configuration register is written. -/
def pmpUpdateCfg (t : Table n) (pmp_index : Fin n) (this_cfg : BitVec 8) : Option (Table n) :=
  pmpUpdateRule { t with
    pmpTable := update t.pmpTable pmp_index
      { t.pmpTable pmp_index with pmpCfg := this_cfg } } pmp_index

/-- The loop of `pmpUpdateAddr`. -/
def updateRules (t : Table n) : List (Fin n) → Option (Table n)
  | [] => some t
  | i :: is => (t.pmpUpdateRule i).bind fun t => t.updateRules is

/-- An address register is written. -/
def pmpUpdateAddr (t : Table n) (pmp_index : Fin n) (this_addr : Addr) : Option (Table n) :=
  updateRules { t with
    pmpTable := update t.pmpTable pmp_index
      { t.pmpTable pmp_index with rawAddr := this_addr } } (finRange n)

end Table

/-! ### The check -/

/-- The fault of an access. -/
def createAddrfault (vaddr : Addr) (mode : Mode) : Fault := .AddressFault vaddr <| match mode with
    | .Read => .LOAD_ACCESS
    | .Write => .STORE_ACCESS
    | .Execute => .INST_ACCESS

/-- The PMP applies to the access. -/
def shouldCheckPMP (pmode : PrivilegeMode) (mode : Mode) (status : Status) : Bool :=
  let cond1 := mode == .Execute && pmode != .PRV_M
  let cond2 := mode != .Execute && pmode != .PRV_M && !status.mprv
  let cond3 := mode != .Execute && status.mprv && status.mpp != 3
  cond1 || cond2 || cond3

/-- The range contains `addr` and `addr + size`. -/
def matched (pmp_range : AddrRange) (req : Request) : Bool :=
  pmp_range.contains req.paddr == some true &&
    pmp_range.contains (req.paddr + req.size.setWidth 64) == some true

/-- The loop of `pmpCheck`. -/
def checkLoop (t : Table n) (req : Request) (mode : Mode) (vaddr : Addr) :
    List (Fin n) → Option (Fin n) → Fault
  | [], _ => createAddrfault (req.vaddr.getD vaddr) mode
  | i :: is, match_index =>
      let match_index := if matched (t.pmpTable i).pmpAddr req then some i else match_index
      match match_index with
      | none => checkLoop t req mode vaddr is none
      | some m =>
          if PMP_OFF ≠ pmpGetAField (t.pmpTable m).pmpCfg then
            if allowed mode (t.pmpTable m).pmpCfg then .NoFault
            else createAddrfault (req.vaddr.getD vaddr) mode
          else checkLoop t req mode vaddr is (some m)

/-- The first entry that contains the access decides. -/
def pmpCheck (t : Table n) (req : Request) (mode : Mode) (pmode : PrivilegeMode) (status : Status)
    (vaddr : Addr) : Fault :=
  if !shouldCheckPMP pmode mode status then .NoFault
  else if t.numRules = 0 ∨ pmode = .PRV_M then .NoFault
  else checkLoop t req mode vaddr (finRange n) none

/-! ## Register writes -/

/-- A write of a configuration or an address register. -/
inductive Write (n : Nat)
  | cfg (pmp_index : Fin n) (this_cfg : BitVec 8)
  | addr (pmp_index : Fin n) (this_addr : Addr)
  deriving DecidableEq

def write (t : Table n) : Write n → Option (Table n)
  | .cfg pmp_index this_cfg => t.pmpUpdateCfg pmp_index this_cfg
  | .addr pmp_index this_addr => t.pmpUpdateAddr pmp_index this_addr

/-- The table after a sequence of writes. -/
def run (n : Nat) (ws : List (Write n)) : Option (Table n) := Trace.runs write {} ws

/-- What was last written to each register. -/
structure Regs (n : Nat) where
  addr : Fin n → Addr := fun _ => 0
  cfg : Fin n → BitVec 8 := fun _ => 0

namespace Regs

/-- A write on the registers. -/
def write (r : Regs n) : Write n → Regs n
  | .cfg pmp_index this_cfg => { r with cfg := update r.cfg pmp_index this_cfg }
  | .addr pmp_index this_addr => { r with addr := update r.addr pmp_index this_addr }

/-- The address register below; entry 0 starts at zero. -/
def prev (r : Regs n) (i : Fin n) : Addr :=
  if 1 ≤ i.val then r.addr ⟨i.val - 1, by omega⟩ else 0

/-- The entry is not off. -/
def enabled (r : Regs n) (i : Fin n) : Bool := pmpGetAField (r.cfg i) != PMP_OFF

/-- The range the program computes from the registers. -/
def range (r : Regs n) (i : Fin n) : Option AddrRange := ruleRange (r.prev i) (r.addr i) (r.cfg i)

end Regs

/-- The registers after a sequence of writes. -/
def regs (n : Nat) (ws : List (Write n)) : Regs n := ws.foldl Regs.write {}

/-! ## Every range is up to date -/

/-- The table holds the registers, and every range is the one they give. -/
structure Current (t : Table n) (r : Regs n) : Prop where
  addr : ∀ i, (t.pmpTable i).rawAddr = r.addr i
  cfg : ∀ i, (t.pmpTable i).pmpCfg = r.cfg i
  range : ∀ i, r.range i = some (t.pmpTable i).pmpAddr
  rules : t.numRules = t.countRules

/-- The range the program computes from the entries. -/
def Table.rangeOf (t : Table n) (i : Fin n) : Option AddrRange :=
  ruleRange (t.prevAddr i) (t.pmpTable i).rawAddr (t.pmpTable i).pmpCfg

/-- Two tables with the same registers. -/
def SameRegs (t t' : Table n) : Prop := ∀ i, (t'.pmpTable i).rawAddr = (t.pmpTable i).rawAddr ∧
    (t'.pmpTable i).pmpCfg = (t.pmpTable i).pmpCfg

theorem SameRegs.trans {t t' t'' : Table n} (h : SameRegs t t') (h' : SameRegs t' t'') :
    SameRegs t t'' := fun i => ⟨(h' i).1.trans (h i).1, (h' i).2.trans (h i).2⟩

theorem SameRegs.rangeOf {t t' : Table n} (h : SameRegs t t') (i : Fin n) :
    t'.rangeOf i = t.rangeOf i := by
  have hprev : t'.prevAddr i = t.prevAddr i := by
    unfold Table.prevAddr
    split_ifs with hi
    · exact (h _).1
    · rfl
  unfold Table.rangeOf
  rw [hprev, (h i).1, (h i).2]

theorem SameRegs.countRules {t t' : Table n} (h : SameRegs t t') :
    t'.countRules = t.countRules := by
  unfold Table.countRules
  simp only [(h _).2]

/-- What one rule update does. -/
theorem pmpUpdateRule_some {t t' : Table n} {i : Fin n} (h : t.pmpUpdateRule i = some t') :
    SameRegs t t' ∧ t.rangeOf i = some (t'.pmpTable i).pmpAddr ∧
      (∀ j, j ≠ i → (t'.pmpTable j).pmpAddr = (t.pmpTable j).pmpAddr) ∧
      t'.numRules = t'.countRules := by
  obtain ⟨this_range, hrange, rfl⟩ := Option.map_eq_some_iff.mp h
  have hsame : SameRegs t
      { pmpTable := update t.pmpTable i { t.pmpTable i with pmpAddr := this_range }
        numRules := t.countRules } := by
    intro j
    by_cases hj : j = i
    · subst hj
      simp only [update_self]
      exact ⟨trivial, trivial⟩
    · simp only [update_of_ne hj]
      exact ⟨trivial, trivial⟩
  refine ⟨hsame, ?_, ?_, hsame.countRules.symm⟩
  · show t.rangeOf i = _
    simp only [update_self]
    exact hrange
  · intro j hj
    simp only [update_of_ne hj]

theorem pmpUpdateRule_isSome (t : Table n) (i : Fin n) :
    (t.pmpUpdateRule i).isSome = (t.rangeOf i).isSome := Option.isSome_map

/-- The loop brings the ranges of its entries up to date, provided that they all have one. -/
theorem updateRules_some {t t' : Table n} {is : List (Fin n)} (h : t.updateRules is = some t') :
    SameRegs t t' ∧ (∀ i ∈ is, t.rangeOf i = some (t'.pmpTable i).pmpAddr) ∧
      (∀ i, i ∉ is → (t'.pmpTable i).pmpAddr = (t.pmpTable i).pmpAddr) ∧
      (is ≠ [] → t'.numRules = t'.countRules) := by
  induction is generalizing t with
  | nil =>
    cases h
    exact ⟨fun i => ⟨rfl, rfl⟩, nofun, fun i _ => rfl, fun hne => absurd rfl hne⟩
  | cons i is ih =>
    obtain ⟨t1, h1, hrest⟩ := Option.bind_eq_some_iff.mp h
    obtain ⟨hsame1, hrange1, hother1, hrules1⟩ := pmpUpdateRule_some h1
    obtain ⟨hsame, hrange, hother, hrules⟩ := ih hrest
    refine ⟨hsame1.trans hsame, ?_, ?_, ?_⟩
    · intro j hj
      by_cases hin : j ∈ is
      · rw [← hsame1.rangeOf]
        exact hrange j hin
      · obtain rfl : j = i := (mem_cons.mp hj).resolve_right hin
        rw [hother j hin]
        exact hrange1
    · intro j hj
      rw [mem_cons, not_or] at hj
      rw [hother j hj.2, hother1 j hj.1]
    · intro _
      by_cases hnil : is = []
      · subst hnil
        cases hrest
        exact hrules1
      · exact hrules hnil

theorem updateRules_isSome (t : Table n) (is : List (Fin n)) :
    (t.updateRules is).isSome = true ↔ ∀ i ∈ is, (t.rangeOf i).isSome = true := by
  induction is generalizing t with
  | nil => simp [Table.updateRules]
  | cons i is ih =>
    rw [Table.updateRules, forall_mem_cons, ← pmpUpdateRule_isSome]
    cases h1 : t.pmpUpdateRule i with
    | none => simp
    | some t1 =>
      have hsame := (pmpUpdateRule_some h1).1
      show (t1.updateRules is).isSome = true ↔ _
      rw [ih]
      simp only [hsame.rangeOf, Option.isSome_some, true_and]

/-- The table read as registers. -/
theorem rangeOf_eq {t : Table n} {r : Regs n} (haddr : ∀ i, (t.pmpTable i).rawAddr = r.addr i)
    (hcfg : ∀ i, (t.pmpTable i).pmpCfg = r.cfg i) (i : Fin n) : t.rangeOf i = r.range i := by
  have hprev : t.prevAddr i = r.prev i := by
    unfold Table.prevAddr Regs.prev
    split_ifs with hi
    · exact haddr _
    · rfl
  unfold Table.rangeOf Regs.range
  rw [hprev, haddr, hcfg]

/-- A configuration register decides the range of its own entry alone. -/
theorem range_write_cfg (r : Regs n) (i : Fin n) (this_cfg : BitVec 8) {j : Fin n} (hj : j ≠ i) :
    (r.write (.cfg i this_cfg)).range j = r.range j := by
  unfold Regs.range
  rw [show (r.write (.cfg i this_cfg)).cfg j = r.cfg j from update_of_ne hj _ _]
  rfl

theorem Current.write_cfg {t : Table n} {r : Regs n} (h : Current t r) (i : Fin n)
    (this_cfg : BitVec 8) :
    (∀ t', t.pmpUpdateCfg i this_cfg = some t' → Current t' (r.write (.cfg i this_cfg))) ∧
      ((t.pmpUpdateCfg i this_cfg).isSome = true ↔
        ∀ j, ((r.write (.cfg i this_cfg)).range j).isSome = true) := by
  -- the table with the new register, before the rule is updated
  let t0 : Table n := { t with
    pmpTable := update t.pmpTable i { t.pmpTable i with pmpCfg := this_cfg } }
  have haddr0 : ∀ j, (t0.pmpTable j).rawAddr = (r.write (.cfg i this_cfg)).addr j := by
    intro j
    by_cases hj : j = i
    · subst hj
      show (update t.pmpTable j _ j).rawAddr = _
      rw [update_self]
      exact h.addr j
    · show (update t.pmpTable i _ j).rawAddr = _
      rw [update_of_ne hj]
      exact h.addr j
  have hcfg0 : ∀ j, (t0.pmpTable j).pmpCfg = (r.write (.cfg i this_cfg)).cfg j := by
    intro j
    by_cases hj : j = i
    · subst hj
      show (update t.pmpTable j _ j).pmpCfg = update r.cfg j this_cfg j
      rw [update_self, update_self]
    · show (update t.pmpTable i _ j).pmpCfg = update r.cfg i this_cfg j
      rw [update_of_ne hj, update_of_ne hj]
      exact h.cfg j
  constructor
  · intro t' ht'
    obtain ⟨hsame, hrange, hother, hrules⟩ := pmpUpdateRule_some (t := t0) ht'
    refine ⟨?_, ?_, ?_, hrules⟩
    · intro j
      rw [(hsame j).1]
      exact haddr0 j
    · intro j
      rw [(hsame j).2]
      exact hcfg0 j
    · intro j
      by_cases hj : j = i
      · subst hj
        rw [← hrange, rangeOf_eq haddr0 hcfg0]
      · rw [range_write_cfg r i this_cfg hj, hother j hj, h.range j]
        show some (t.pmpTable j).pmpAddr = some (update t.pmpTable i _ j).pmpAddr
        rw [update_of_ne hj]
  · show (t0.pmpUpdateRule i).isSome = true ↔ _
    rw [pmpUpdateRule_isSome, rangeOf_eq haddr0 hcfg0]
    constructor
    · intro hi j
      by_cases hj : j = i
      · subst hj
        exact hi
      · rw [range_write_cfg r i this_cfg hj, h.range j]
        rfl
    · intro hall
      exact hall i

theorem Current.write_addr {t : Table n} {r : Regs n} (h : Current t r) (i : Fin n)
    (this_addr : Addr) :
    (∀ t', t.pmpUpdateAddr i this_addr = some t' → Current t' (r.write (.addr i this_addr))) ∧
      ((t.pmpUpdateAddr i this_addr).isSome = true ↔
        ∀ j, ((r.write (.addr i this_addr)).range j).isSome = true) := by
  let t0 : Table n := { t with
    pmpTable := update t.pmpTable i { t.pmpTable i with rawAddr := this_addr } }
  have haddr0 : ∀ j, (t0.pmpTable j).rawAddr = (r.write (.addr i this_addr)).addr j := by
    intro j
    by_cases hj : j = i
    · subst hj
      show (update t.pmpTable j _ j).rawAddr = update r.addr j this_addr j
      rw [update_self, update_self]
    · show (update t.pmpTable i _ j).rawAddr = update r.addr i this_addr j
      rw [update_of_ne hj, update_of_ne hj]
      exact h.addr j
  have hcfg0 : ∀ j, (t0.pmpTable j).pmpCfg = (r.write (.addr i this_addr)).cfg j := by
    intro j
    by_cases hj : j = i
    · subst hj
      show (update t.pmpTable j _ j).pmpCfg = _
      rw [update_self]
      exact h.cfg j
    · show (update t.pmpTable i _ j).pmpCfg = _
      rw [update_of_ne hj]
      exact h.cfg j
  constructor
  · intro t' ht'
    obtain ⟨hsame, hrange, -, hrules⟩ := updateRules_some (t := t0) ht'
    refine ⟨?_, ?_, ?_, hrules (ne_nil_of_mem (mem_finRange i))⟩
    · intro j
      rw [(hsame j).1]
      exact haddr0 j
    · intro j
      rw [(hsame j).2]
      exact hcfg0 j
    · intro j
      rw [← hrange j (mem_finRange j), rangeOf_eq haddr0 hcfg0]
  · show (t0.updateRules (finRange n)).isSome = true ↔ _
    rw [updateRules_isSome]
    simp only [mem_finRange, forall_true_left, rangeOf_eq haddr0 hcfg0]

theorem Current.write {t : Table n} {r : Regs n} (h : Current t r) (w : Write n) :
    (∀ t', Pmp.write t w = some t' → Current t' (r.write w)) ∧
      ((Pmp.write t w).isSome = true ↔ ∀ j, ((r.write w).range j).isSome = true) := by
  cases w with
  | cfg i this_cfg => exact h.write_cfg i this_cfg
  | addr i this_addr => exact h.write_addr i this_addr

theorem current_init : Current ({} : Table n) {} where
  addr _ := rfl
  cfg _ := rfl
  range i := by
    have hoff : pmpGetAField 0 = PMP_OFF := by decide
    exact if_pos hoff
  rules := by
    have hoff : ¬ (pmpGetAField 0 != PMP_OFF) = true := by decide
    show 0 = countP _ _
    symm
    rw [countP_eq_zero]
    intro i _
    exact hoff

/-- Every range of the registers is defined, after every write. -/
def Decodes (ws : List (Write n)) : Prop :=
  ∀ pre, pre <+: ws → ∀ i, ((regs n pre).range i).isSome = true

theorem run_from {t : Table n} {r : Regs n} (h : Current t r) (ws : List (Write n)) :
    (∀ t', Trace.runs Pmp.write t ws = some t' → Current t' (ws.foldl Regs.write r)) ∧
      ((Trace.runs Pmp.write t ws).isSome = true ↔
        ∀ pre, pre <+: ws → ∀ i, ((pre.foldl Regs.write r).range i).isSome = true) := by
  have hnow : ∀ i, (r.range i).isSome = true := fun i => by rw [h.range i]; rfl
  induction ws generalizing t r with
  | nil =>
    constructor
    · intro t' ht'
      cases ht'
      exact h
    · refine iff_of_true rfl ?_
      intro pre hpre
      rw [prefix_nil.mp hpre]
      exact hnow
  | cons w ws ih =>
    obtain ⟨hstep, hdef⟩ := h.write w
    constructor
    · intro t' ht'
      obtain ⟨t1, h1, hrest⟩ := Option.bind_eq_some_iff.mp ht'
      have hcur := hstep t1 h1
      exact (ih hcur fun i => by rw [hcur.range i]; rfl).1 t' hrest
    · show ((Pmp.write t w).bind _).isSome = true ↔ _
      cases h1 : Pmp.write t w with
      | none =>
        rw [h1] at hdef
        refine iff_of_false nofun ?_
        intro hall
        exact Bool.false_ne_true (hdef.mpr (hall [w] (prefix_append [w] ws)))
      | some t1 =>
        rw [h1] at hdef
        have hcur := hstep t1 h1
        show (Trace.runs Pmp.write t1 ws).isSome = true ↔ _
        rw [(ih hcur (hdef.mp rfl)).2]
        constructor
        · intro hall pre hpre
          cases pre with
          | nil => exact hnow
          | cons w' pre =>
            obtain ⟨rfl, htail⟩ := cons_prefix_cons.mp hpre
            exact hall pre htail
        · intro hall pre hpre
          exact hall (w :: pre) (cons_prefix_cons.mpr ⟨rfl, hpre⟩)

theorem current_run {ws : List (Write n)} {t : Table n} (h : run n ws = some t) :
    Current t (regs n ws) := (run_from current_init ws).1 t h

theorem run_isSome_iff (ws : List (Write n)) : (run n ws).isSome = true ↔ Decodes ws :=
  (run_from current_init ws).2

end Gem5Dvr.Pmp
