/-
  The priority rule of physical memory protection, and where `PMP::pmpCheck` follows it
  (`arch/riscv/pmp.cc`).

  1. **Specification** — the region of bytes each entry covers, and the rule: the lowest enabled
     entry that covers a byte of the access decides; it grants when it covers all of them and
     permits the mode.

  2. **What the program sees (`bounds`, `Sees`)** — the two ends the program computes, modulo
     `2^64`.  It takes an entry as matched when both `p` and `p + size` lie below an end that is
     already the LAST byte of the region: an access that ends in the last two bytes passes the entry
     by, and so does one that lies in it partly.

  3. **The crux (`priority_iff`)** — both are searches for a first match.  They answer alike just
     when they do at the first entry that either of them finds (`Alike`).
-/
import Gem5Dvr.Pmp
import Mathlib.Tactic.Ring

namespace Gem5Dvr.Pmp

open BitVec (allOnes ofNat testBit_toNat toNat_add toNat_ofNat toNat_sub)

open Bitfield FirstMatch

scoped instance neZero2 : NeZero 2 := ⟨by decide⟩

variable {n : Nat}

/-! ## Specification -/

/-- The bytes from `lo` on, below `hi`. -/
structure Region where
  lo : Nat
  hi : Nat

def Region.has (g : Region) (b : Nat) : Prop := g.lo ≤ b ∧ b < g.hi

/-- The ones that end an address register. -/
def trailing (a : Addr) : Nat := ctz64 (~~~ a)

/-- The region an entry covers: up to the register from the one below, four bytes, or the naturally
    aligned region whose size the trailing ones encode. -/
def Regs.region (r : Regs n) (i : Fin n) : Region :=
  let a := (r.addr i).toNat
  if pmpGetAField (r.cfg i) = PMP_TOR then ⟨4 * (r.prev i).toNat, 4 * a⟩
  else if pmpGetAField (r.cfg i) = PMP_NA4 then ⟨4 * a, 4 * a + 4⟩
  else if pmpGetAField (r.cfg i) = PMP_NAPOT then
    let size := 2 ^ (trailing (r.addr i) + 3)
    ⟨4 * a / size * size, 4 * a / size * size + size⟩
  else ⟨0, 0⟩

/-- The bytes of the access. -/
def Request.accesses (req : Request) (b : Nat) : Prop :=
  req.paddr.toNat ≤ b ∧ b < req.paddr.toNat + req.size.toNat

/-- The entry is enabled and covers a byte of the access. -/
def Touches (r : Regs n) (req : Request) (i : Fin n) : Prop :=
  r.enabled i = true ∧ ∃ b, req.accesses b ∧ (r.region i).has b

/-- The entry covers every byte of the access. -/
def Covers (r : Regs n) (req : Request) (i : Fin n) : Prop :=
  ∀ b, req.accesses b → (r.region i).has b

/-- The permission bits: read, write, execute from bit 0 on. -/
def Permits (r : Regs n) (mode : Mode) (i : Fin n) : Prop :=
  (r.cfg i).getLsbD (match mode with
    | .Read => 0
    | .Write => 1
    | .Execute => 2) = true

/-- The priority rule. -/
def Grants (r : Regs n) (mode : Mode) (req : Request) : Prop :=
  Decides (Touches r req) fun i => Covers r req i ∧ Permits r mode i

theorem covers_iff (r : Regs n) (req : Request) (i : Fin n) :
    Covers r req i ↔ req.size.toNat = 0 ∨ (r.region i).lo ≤ req.paddr.toNat ∧
      req.paddr.toNat + req.size.toNat ≤ (r.region i).hi := by
  constructor
  · intro h
    by_cases hzero : req.size.toNat = 0
    · exact Or.inl hzero
    · have hfirst := h req.paddr.toNat ⟨Nat.le_refl _, by omega⟩
      have hlast := h (req.paddr.toNat + req.size.toNat - 1) ⟨by omega, by omega⟩
      unfold Region.has at hfirst hlast
      omega
  · intro h b hb
    unfold Request.accesses at hb
    unfold Region.has
    omega

theorem touches_iff (r : Regs n) (req : Request) (i : Fin n) :
    Touches r req i ↔ r.enabled i = true ∧ max req.paddr.toNat (r.region i).lo
        < min (req.paddr.toNat + req.size.toNat) (r.region i).hi := by
  apply and_congr_right
  intro _
  constructor
  · rintro ⟨b, hb, hg⟩
    unfold Request.accesses at hb
    unfold Region.has at hg
    omega
  · intro h
    refine ⟨max req.paddr.toNat (r.region i).lo, ?_, ?_⟩
    · unfold Request.accesses
      omega
    · unfold Region.has
      omega

instance (r : Regs n) (req : Request) : DecidablePred (Covers r req) :=
  fun i => decidable_of_iff _ (covers_iff r req i).symm

instance (r : Regs n) (req : Request) : DecidablePred (Touches r req) :=
  fun i => decidable_of_iff _ (touches_iff r req i).symm

instance (r : Regs n) (mode : Mode) : DecidablePred (Permits r mode) :=
  fun _ => inferInstanceAs (Decidable (_ = true))

instance (r : Regs n) (mode : Mode) (req : Request) : Decidable (Grants r mode req) :=
  inferInstanceAs (Decidable (Decides _ _))

/-! ## What the program sees -/

/-- The two ends of the range the program computes. -/
def Regs.bounds (r : Regs n) (i : Fin n) : Region :=
  let a := (r.addr i).toNat
  if pmpGetAField (r.cfg i) = PMP_TOR then
    ⟨4 * (r.prev i).toNat % 2 ^ 64, (4 * a + (2 ^ 64 - 1)) % 2 ^ 64⟩
  else if pmpGetAField (r.cfg i) = PMP_NA4 then ⟨4 * a % 2 ^ 64, (a + 3) % 2 ^ 64⟩
  else if pmpGetAField (r.cfg i) = PMP_NAPOT then
    if trailing (r.addr i) = 64 then ⟨0, 2 ^ 64 - 1⟩
    else
      ⟨(r.region i).lo % 2 ^ 64,
        ((r.region i).hi - if trailing (r.addr i) ≤ 50 then 1 else 0) % 2 ^ 64⟩
  else ⟨0, 0⟩

/-- Both `p` and `p + size` lie between the ends. -/
def Sees (r : Regs n) (req : Request) (i : Fin n) : Prop := (r.bounds i).has req.paddr.toNat ∧
    (r.bounds i).has ((req.paddr.toNat + req.size.toNat) % 2 ^ 64)

instance (g : Region) (b : Nat) : Decidable (g.has b) := inferInstanceAs (Decidable (_ ∧ _))

instance (r : Regs n) (req : Request) : DecidablePred (Sees r req) :=
  fun _ => inferInstanceAs (Decidable (_ ∧ _))

/-- The first entry that the access touches or the program sees.  Where it is both, it must not
    permit an access that it does not cover.  Where it is touched only, the program goes on, and the
    first entry it sees later must permit the access just when the entry passed by grants it.  Where
    it is seen only, it must permit the access just when the rule grants it by a later entry. -/
def Alike (r : Regs n) (mode : Mode) (req : Request) : Prop :=
  ∀ i, First (fun j => Touches r req j ∨ Sees r req j) i →
    (Touches r req i → Sees r req i → Permits r mode i → Covers r req i) ∧
    (Touches r req i → ¬ Sees r req i →
      (Covers r req i ∧ Permits r mode i ↔ After i (Sees r req) (Permits r mode))) ∧
    (¬ Touches r req i → Sees r req i →
      (After i (Touches r req) (fun k => Covers r req k ∧ Permits r mode k) ↔ Permits r mode i))

instance (r : Regs n) (mode : Mode) (req : Request) : Decidable (Alike r mode req) :=
  inferInstanceAs (Decidable (∀ _, _))

/-! ## The ranges as numbers -/

theorem matched_plainRange (s e : Addr) (req : Request) : matched (plainRange s e) req = true ↔
      (s.toNat ≤ req.paddr.toNat ∧ req.paddr.toNat < e.toNat) ∧
        s.toNat ≤ (req.paddr.toNat + req.size.toNat) % 2 ^ 64 ∧
        (req.paddr.toNat + req.size.toNat) % 2 ^ 64 < e.toNat := by
  have hone : ∀ a : Addr, ((plainRange s e).contains a == some true) = true ↔
      s.toNat ≤ a.toNat ∧ a.toNat < e.toNat := by
    intro a
    show ((if (decide (s.toNat ≤ a.toNat) && decide (a.toNat < e.toNat)) = true then
      some true else some false) == some true) = true ↔ _
    by_cases h : s.toNat ≤ a.toNat ∧ a.toNat < e.toNat
    · rw [if_pos (by simpa using h)]
      exact iff_of_true rfl h
    · rw [if_neg (by simpa using h)]
      exact iff_of_false nofun h
  have hsum : (req.paddr + req.size.setWidth 64).toNat
      = (req.paddr.toNat + req.size.toNat) % 2 ^ 64 := by
    have hlt : req.size.toNat < 2 ^ 64 := by
      omega
    rw [toNat_add, BitVec.toNat_setWidth, Nat.mod_eq_of_lt hlt]
  rw [matched, Bool.and_eq_true_iff, hone, hone, hsum]

/-- The ones that end a register, bit by bit. -/
theorem trailing_bits {a : Addr} (ha : a ≠ allOnes 64) :
    trailing a < 64 ∧ a.getLsbD (trailing a) = false ∧
      ∀ j, j < trailing a → a.getLsbD j = true := by
  have hne : ~~~ a ≠ 0 := by
    intro h
    apply ha
    rw [← BitVec.not_not (b := a), h]
    rfl
  have hlt : trailing a < 64 := ctz64_lt hne
  refine ⟨hlt, ?_, ?_⟩
  · have hset := getLsbD_ctz64 hne
    rw [BitVec.getLsbD_not, Bool.and_eq_true_iff, Bool.not_eq_true'] at hset
    exact hset.2
  · intro j hj
    have hclear := getLsbD_lt_ctz64 hne hj
    have h64 : j < 64 := Nat.lt_trans hj hlt
    simpa [h64] using hclear

theorem trailing_allOnes : trailing (allOnes 64) = 64 := by decide

/-- The base of a naturally aligned region. -/
theorem toNat_napotBase {a : Addr} (ha : a ≠ allOnes 64) :
    (mbits a (ofNat 32 63) (ofNat 32 (trailing a)) <<< 2).toNat
      = 4 * a.toNat / 2 ^ (trailing a + 3) * 2 ^ (trailing a + 3) % 2 ^ 64 := by
  obtain ⟨hlt, hzero, -⟩ := trailing_bits ha
  generalize trailing a = t at *
  have hlast : (ofNat 32 t).toNat = t := by
    rw [toNat_ofNat]
    omega
  -- `mbits` clears the bits below `t`
  have hmbits : (mbits a (ofNat 32 63) (ofNat 32 t)).toNat
      = a.toNat / 2 ^ t * 2 ^ t := by
    apply Nat.eq_of_testBit_eq
    intro j
    rw [testBit_toNat, getLsbD_mbits a (by decide), hlast, Nat.testBit_mul_two_pow,
      Nat.testBit_div_two_pow]
    by_cases hj : t ≤ j
    · rw [Nat.sub_add_cancel hj, testBit_toNat]
      by_cases h63 : j ≤ 63
      · simp [hj, h63, Nat.not_lt.mpr hj]
      · simp [BitVec.getLsbD_of_ge a j (by omega)]
    · simp [hj, Nat.lt_of_not_le hj]
  -- bit `t` is clear, so nothing is lost by clearing it as well
  have heven : a.toNat / 2 ^ t = 2 * (a.toNat / 2 ^ (t + 1)) := by
    have hbit : a.toNat.testBit t = false := by rw [testBit_toNat, hzero]
    rw [Nat.testBit_eq_decide_div_mod_eq, decide_eq_false_iff_not] at hbit
    rw [Nat.pow_succ, ← Nat.div_div_eq_div_mul]
    omega
  have hpow : 2 ^ (t + 3) = 4 * 2 ^ (t + 1) := by
    rw [Nat.pow_succ, Nat.pow_succ, Nat.pow_succ]
    omega
  have hlo : 4 * a.toNat / 2 ^ (t + 3) = a.toNat / 2 ^ (t + 1) := by
    rw [hpow]
    exact Nat.mul_div_mul_left _ _ (by decide)
  rw [BitVec.toNat_shiftLeft, hmbits, heven, hlo, Nat.shiftLeft_eq, hpow, Nat.pow_succ]
  congr 1
  ring

theorem pmpGetAField_cases (cfg : BitVec 8) :
    pmpGetAField cfg = PMP_OFF ∨ pmpGetAField cfg = PMP_TOR ∨ pmpGetAField cfg = PMP_NA4 ∨
      pmpGetAField cfg = PMP_NAPOT := by
  revert cfg
  decide

theorem toNat_shiftLeft_two (a : Addr) : (a <<< 2).toNat = 4 * a.toNat % 2 ^ 64 := by
  rw [BitVec.toNat_shiftLeft, Nat.shiftLeft_eq]
  congr 1
  omega

/-- The range the program computes has the ends of `bounds`. -/
theorem range_plain {r : Regs n} {i : Fin n} {range : AddrRange} (h : r.range i = some range) :
    ∃ s e : Addr, range = plainRange s e ∧ s.toNat = (r.bounds i).lo ∧
      e.toNat = (r.bounds i).hi := by
  unfold Regs.range ruleRange at h
  unfold Regs.bounds
  rcases pmpGetAField_cases (r.cfg i) with hf | hf | hf | hf
  · rw [hf, if_pos rfl] at h
    rw [hf, if_neg (by decide), if_neg (by decide), if_neg (by decide)]
    exact ⟨0, 0, (Option.some.inj h).symm, rfl, rfl⟩
  · rw [hf, if_neg (by decide), if_pos rfl] at h
    rw [hf, if_pos rfl]
    refine ⟨_, _, (Option.some.inj h).symm, toNat_shiftLeft_two _, ?_⟩
    have hone : (1 : Addr).toNat = 1 := rfl
    rw [toNat_sub, toNat_shiftLeft_two, hone]
    show _ = (4 * (r.addr i).toNat + (2 ^ 64 - 1)) % 2 ^ 64
    omega
  · rw [hf, if_neg (by decide), if_neg (by decide), if_pos rfl] at h
    rw [hf, if_neg (by decide), if_pos rfl]
    refine ⟨_, _, (Option.some.inj h).symm, toNat_shiftLeft_two _, ?_⟩
    have hone : (1 : Addr).toNat = 1 := rfl
    have hfour : (4 : Addr).toNat = 4 := rfl
    rw [toNat_sub, toNat_add, hone, hfour]
    show _ = ((r.addr i).toNat + 3) % 2 ^ 64
    omega
  · rw [hf, if_neg (by decide), if_neg (by decide), if_neg (by decide), if_pos rfl] at h
    rw [hf, if_neg (by decide), if_neg (by decide), if_pos rfl]
    unfold pmpDecodeNapot at h
    by_cases hall : r.addr i = allOnes 64
    · rw [if_pos hall] at h
      rw [if_pos (by rw [hall]; exact trailing_allOnes)]
      exact ⟨_, _, (Option.some.inj h).symm, rfl, rfl⟩
    · rw [if_neg hall] at h
      obtain ⟨width, hwidth, hrange⟩ := Option.map_eq_some_iff.mp h
      have hbase := toNat_napotBase hall
      have ht := (trailing_bits hall).1
      have hlo : (r.region i).lo = 4 * (r.addr i).toNat / 2 ^ (trailing (r.addr i) + 3)
          * 2 ^ (trailing (r.addr i) + 3) := by
        unfold Regs.region
        rw [hf, if_neg (by decide), if_neg (by decide), if_pos rfl]
      have hhi : (r.region i).hi = (r.region i).lo + 2 ^ (trailing (r.addr i) + 3) := by
        unfold Regs.region
        rw [hf, if_neg (by decide), if_neg (by decide), if_pos rfl]
      rw [← hlo] at hbase
      rw [if_neg (by omega)]
      refine ⟨_, _, hrange.symm, hbase, ?_⟩
      show (mbits (r.addr i) (ofNat 32 63) (ofNat 32 (trailing (r.addr i))) <<< 2
        + width).toNat = _
      rw [toNat_add, hbase, hhi]
      have hwidth' : powMinusOne (trailing (r.addr i) + 3) = some width := hwidth
      have hpos : 0 < 2 ^ (trailing (r.addr i) + 3) := Nat.two_pow_pos _
      unfold powMinusOne at hwidth'
      by_cases hsmall : trailing (r.addr i) ≤ 50
      · rw [if_pos (by omega)] at hwidth'
        rw [if_pos hsmall, ← Option.some.inj hwidth', toNat_ofNat]
        show _ = ((r.region i).lo + 2 ^ (trailing (r.addr i) + 3) - 1) % 2 ^ 64
        omega
      · rw [if_neg (by omega)] at hwidth'
        by_cases hfits : trailing (r.addr i) + 3 < 64
        · rw [if_pos hfits] at hwidth'
          rw [if_neg hsmall, ← Option.some.inj hwidth', toNat_ofNat]
          show _ = ((r.region i).lo + 2 ^ (trailing (r.addr i) + 3) - 0) % 2 ^ 64
          omega
        · rw [if_neg hfits] at hwidth'
          cases hwidth'

theorem matched_iff_sees {r : Regs n} {i : Fin n} {range : AddrRange} (h : r.range i = some range)
    (req : Request) : matched range req = true ↔ Sees r req i := by
  obtain ⟨s, e, rfl, hs, he⟩ := range_plain h
  rw [matched_plainRange, hs, he]
  exact Iff.rfl

/-- Nothing is seen of an entry that is off. -/
theorem enabled_of_sees {r : Regs n} {req : Request} {i : Fin n} (h : Sees r req i) :
    r.enabled i = true := by
  unfold Regs.enabled
  by_contra hoff
  have hf : pmpGetAField (r.cfg i) = PMP_OFF := by simpa using hoff
  have hlt := h.1.2
  unfold Regs.bounds at hlt
  rw [hf, if_neg (by decide), if_neg (by decide), if_neg (by decide)] at hlt
  exact absurd hlt (Nat.not_lt_zero _)

/-! ## The check -/

theorem allowed_iff (r : Regs n) (mode : Mode) (i : Fin n) :
    allowed mode (r.cfg i) = true ↔ Permits r mode i := by
  unfold Permits
  generalize r.cfg i = cfg
  revert cfg
  cases mode <;> decide

theorem createAddrfault_ne (vaddr : Addr) (mode : Mode) : createAddrfault vaddr mode ≠ .NoFault :=
  nofun

/-- The loop asks the first entry that it sees. -/
theorem checkLoop_eq {t : Table n} {r : Regs n} (h : Current t r) (req : Request) (mode : Mode)
    (vaddr : Addr) (is : List (Fin n)) :
    checkLoop t req mode vaddr is none = .NoFault ↔
      scan (fun i => matched (t.pmpTable i).pmpAddr req) (fun i => allowed mode (r.cfg i)) is
        = true := by
  induction is with
  | nil => exact iff_of_false (createAddrfault_ne _ _) nofun
  | cons i is ih =>
    rw [checkLoop, scan]
    by_cases hm : matched (t.pmpTable i).pmpAddr req = true
    · have hon := enabled_of_sees ((matched_iff_sees (h.range i) req).mp hm)
      have hne : PMP_OFF ≠ pmpGetAField (t.pmpTable i).pmpCfg := by
        rw [h.cfg i]
        intro heq
        unfold Regs.enabled at hon
        rw [← heq] at hon
        cases hon
      simp only [if_pos hm, if_pos hne]
      rw [h.cfg i]
      by_cases ha : allowed mode (r.cfg i) = true
      · rw [if_pos ha]
        exact iff_of_true rfl ha
      · rw [if_neg ha]
        exact iff_of_false (createAddrfault_ne _ _) ha
    · simp only [if_neg hm]
      exact ih

/-- A table with an enabled entry has rules. -/
theorem Current.rules_pos {t : Table n} {r : Regs n} (h : Current t r) {i : Fin n}
    (hi : r.enabled i = true) : t.numRules ≠ 0 := by
  rw [h.rules]
  unfold Table.countRules
  intro hzero
  rw [List.countP_eq_zero] at hzero
  apply hzero i (List.mem_finRange i)
  rw [h.cfg i]
  exact hi

theorem pmpCheck_iff {t : Table n} {r : Regs n} (h : Current t r) {i : Fin n}
    (hi : r.enabled i = true) (req : Request) (mode : Mode) {pmode : PrivilegeMode}
    (hpmode : pmode ≠ .PRV_M) (status : Status) (vaddr : Addr) :
    pmpCheck t req mode pmode status vaddr = .NoFault ↔
      (shouldCheckPMP pmode mode status = true → Decides (Sees r req) (Permits r mode)) := by
  unfold pmpCheck
  by_cases hs : shouldCheckPMP pmode mode status = true
  · have hrules : ¬ (t.numRules = 0 ∨ pmode = .PRV_M) := not_or.mpr ⟨h.rules_pos hi, hpmode⟩
    rw [if_neg (by simp [hs]), if_neg hrules, checkLoop_eq h, scan_finRange]
    simp only [matched_iff_sees (h.range _) req, allowed_iff, hs, forall_true_left]
  · rw [if_pos (by simp [hs])]
    exact iff_of_true rfl fun hyes => absurd hyes hs

/-- The program's search and the rule's answer alike. -/
theorem alike_iff (r : Regs n) (mode : Mode) (req : Request) :
    (Decides (Sees r req) (Permits r mode) ↔ Grants r mode req) ↔ Alike r mode req := by
  rw [iff_comm (a := Decides (Sees r req) (Permits r mode))]
  unfold Grants
  rw [decides_iff_decides]
  apply forall_congr'
  intro k
  apply imp_congr_right
  intro _
  refine and_congr ?_ Iff.rfl
  constructor
  · intro hboth ht hsee hp
    exact ((hboth ht hsee).mpr hp).1
  · intro hcov ht hsee
    exact ⟨And.right, fun hp => ⟨hcov ht hsee hp, hp⟩⟩

/-- `pmpCheck` grants what the priority rule grants just when every range has been defined and the
    two searches are alike, or the access is not checked and the rule grants it. -/
theorem priority_iff (ws : List (Write n)) (req : Request) (mode : Mode) {pmode : PrivilegeMode}
    (hpmode : pmode ≠ .PRV_M) (status : Status) (vaddr : Addr)
    (hon : ∃ i, (regs n ws).enabled i = true) :
    (∃ t, run n ws = some t ∧
        (pmpCheck t req mode pmode status vaddr = .NoFault ↔ Grants (regs n ws) mode req)) ↔
      Decodes ws ∧ (if shouldCheckPMP pmode mode status = true then Alike (regs n ws) mode req
        else Grants (regs n ws) mode req) := by
  obtain ⟨i, hi⟩ := hon
  rw [← run_isSome_iff, Option.isSome_iff_exists, ← exists_and_right]
  apply exists_congr
  intro t
  apply and_congr_right
  intro hrun
  rw [pmpCheck_iff (current_run hrun) hi req mode hpmode status vaddr]
  by_cases hs : shouldCheckPMP pmode mode status = true
  · rw [if_pos hs]
    simp only [hs, forall_true_left]
    exact alike_iff (regs n ws) mode req
  · rw [if_neg hs]
    simp [hs]

/-! ## Where the program misses the rule -/

/-- Entry 0 permits reads up to `0x2000`. -/
def readBelow : List (Write 2) := [.addr 0 0x800, .cfg 0 0x09]

/-- Entry 0 forbids the eight bytes at `0x1000`, entry 1 permits reads below `0x4000`. -/
def forbidEight : List (Write 2) := [.addr 0 0x400, .cfg 0 0x18, .addr 1 0x7ff, .cfg 1 0x19]

/-- Four bytes that lie within the first entry. -/
theorem priority_readBelow : ∃ t, run 2 readBelow = some t ∧
      (pmpCheck t ⟨0x1000, 4, none⟩ .Read .PRV_U ⟨false, 0⟩ 0 = .NoFault ↔
        Grants (regs 2 readBelow) .Read ⟨0x1000, 4, none⟩) :=
  (priority_iff readBelow ⟨0x1000, 4, none⟩ .Read (by decide) ⟨false, 0⟩ 0 ⟨0, by decide⟩).mpr
    ⟨(run_isSome_iff readBelow).mp (by decide), by decide⟩

/-- The last word below `0x2000` is refused; and a read that begins below the forbidden bytes and
    ends among them is granted. -/
theorem boundary_missed :
    ((run 2 readBelow).map fun t => pmpCheck t ⟨0x1ffc, 4, none⟩ .Read .PRV_U ⟨false, 0⟩ 0)
        = some (.AddressFault 0 .LOAD_ACCESS) ∧
      Grants (regs 2 readBelow) .Read ⟨0x1ffc, 4, none⟩ ∧
    ((run 2 forbidEight).map fun t => pmpCheck t ⟨0xffc, 8, none⟩ .Read .PRV_U ⟨false, 0⟩ 0)
        = some .NoFault ∧
      ¬ Grants (regs 2 forbidEight) .Read ⟨0xffc, 8, none⟩ := by
  decide

end Gem5Dvr.Pmp
