/-
  The cache of alternate paths (`CPU::recordDVRAlternatePaths`, `cpu/o3/cpu.cc` 5997-6219).

    1. **Program** — for every tainted forward branch of a recording, the instructions from the branch
       to its reconvergence PC become a cached path.  A branch inside that suffix is kept if both its
       successors are there, and the missing side may be spliced in from the cache.
    2. **Specification** — `Closed`: control stays in the path until the reconvergence PC.  `LiveIns`:
       what an execution of the path reads first is a live-in.
    3. `Sound` is what every call keeps of the cache (`Sound.record`), whatever is spliced into what.

  The crux: live-ins are taken in the order of the LIST.  What that order says of an execution is
  `Listed`: a register that a uop reads is a live-in, or an earlier uop of the list writes it.  So
  where an execution passes over that writer, at a branch, it may read what it has not written; a
  register without such a writer is a live-in (`liveIns_of_listed`).

  A path also carries what the statements speak of and the program does not keep: the PC recorded after
  each instruction, the instructions left out, and the reconvergence PC itself (the key has 0 where it
  is next to the branch).  `codeVersion` is always 0.
-/
import Gem5Dvr.Uop

namespace Gem5Dvr.AlternatePath

open List

/-! ## The data -/

/-- An instruction of a recording. -/
structure Recorded extends Uop where
  intSources : BitVec 32 := 0
  deriving DecidableEq, Repr

/-- The instruction reads register `r`. -/
def Recorded.reads (u : Recorded) (r : Fin 32) : Prop := u.intSources.getLsbD r = true

/-- The instruction writes register `r`. -/
def Recorded.writes (u : Recorded) (r : Fin 32) : Prop := u.intDestinations.getLsbD r = true

instance (u : Recorded) (r : Fin 32) : Decidable (u.reads r) := inferInstanceAs (Decidable (_ = true))

instance (u : Recorded) (r : Fin 32) : Decidable (u.writes r) := inferInstanceAs (Decidable (_ = true))

/-- An unconditional transfer with a known target. -/
def Recorded.direct_jump (u : Recorded) : Bool := u.control && !u.conditional && u.branchTargetPC != 0

/-- An instruction and the PC that was recorded after it. -/
structure Captured where
  uop : Recorded
  next : Option Addr
  deriving DecidableEq, Repr

structure DVRAlternatePathKey where
  branchPC : Addr
  targetPC : Addr
  reconvergencePC : Addr
  addressSpaceID : Nat
  deriving DecidableEq, Repr

structure DVRAlternatePath where
  uops : List Captured := []
  liveInRegisters : BitVec 32 := 0
  complete : Bool := false
  omitted : List Captured := []
  reconvergence : Addr := 0
  deriving DecidableEq, Repr

/-- `dvrAlternatePathCache`. -/
abbrev Cache := DVRAlternatePathKey → Option DVRAlternatePath

/-! ## The program -/

/-- What the loop over the suffix of one branch does not change: `window` is what may be cached,
    `after` was recorded behind it. -/
structure Suffix where
  cache : Cache
  reconvergence : Addr
  window : List Recorded
  after : List Recorded
  live_out : BitVec 32
  address_space_id : Nat

/-- What the loop carries from instruction to instruction. -/
structure Capture where
  uops : List Captured := []
  liveInRegisters : BitVec 32 := 0
  defined : BitVec 32 := 0
  omitted : List Captured := []

/-- The instruction is marked as part of an alternate path. -/
def Captured.mark (c : Captured) : Captured := { c with uop := { c.uop with alternatePath := true } }

/-- The suffix of the other side follows the branch. -/
def Capture.splice (s : Capture) (nested : DVRAlternatePath) : Capture where
  uops := s.uops ++ nested.uops.map Captured.mark
  liveInRegisters := s.liveInRegisters ||| (nested.liveInRegisters &&& ~~~ s.defined)
  defined := nested.uops.foldl (fun defined c => defined ||| c.uop.intDestinations) s.defined
  omitted := s.omitted ++ nested.omitted

namespace Suffix

variable (x : Suffix)

def captured_pc (s : Capture) (pc : Addr) : Bool :=
  pc == x.reconvergence || (x.window.any fun u => u.pc == pc) || s.uops.any fun c => c.uop.pc == pc

/-- The PC recorded after an instruction of the window that `later` follows. -/
def next (later : List Recorded) : Option Addr := (later ++ x.after).head?.map fun u => u.pc

def cached (u : Recorded) (later : List Recorded) : Captured :=
  Captured.mark { uop := u, next := x.next later }

/-- The instruction is pushed; its operands count, in the order of the list. -/
def push (u : Recorded) (later : List Recorded) (s : Capture) : Capture :=
  { s with
    uops := s.uops ++ [x.cached u later]
    liveInRegisters := s.liveInRegisters ||| (u.intSources &&& ~~~ s.defined)
    defined := s.defined ||| u.intDestinations }

/-- `append_cached_target`; `none` is `return false`. -/
def append_cached_target (branchPC target : Addr) (s : Capture) : Option Capture :=
  if target = 0 then none
  else if x.captured_pc s target then some s
  else
    match x.cache ⟨branchPC, target, x.reconvergence, x.address_space_id⟩ with
    | none => none
    | some nested =>
      if !nested.complete || nested.uops.isEmpty ||
          decide (MaxUops < s.uops.length + nested.uops.length) then none
      else if x.captured_pc (s.splice nested) target then some (s.splice nested)
      else none

/-- One instruction of the window; `none` rejects the path. -/
def capture (u : Recorded) (later : List Recorded) (s : Capture) : Option Capture :=
  if u.direct_jump && x.captured_pc s u.branchTargetPC then
    some { s with uops := s.uops ++ [x.cached u later] }
  else if u.semantic = .Unsupported then
    let writes_live_value := later.any fun v => u.intDestinations &&& v.intSources != 0
    if u.control || writes_live_value || u.intDestinations &&& x.live_out != 0 then none
    else some { s with omitted := s.omitted ++ [x.cached u later] }
  else if u.control && u.conditional then
    (x.append_cached_target u.pc u.branchTargetPC (x.push u later s)).bind
      (x.append_cached_target u.pc u.fallthroughPC)
  else some (x.push u later s)

/-- The loop over the window. -/
def captureAll : List Recorded → Capture → Option Capture
  | [], s => some s
  | u :: later, s => (x.capture u later s).bind (captureAll later)

end Suffix

/-- `path.uops.back().alternateResumePC = alternate_resume`. -/
def setResume (alternate_resume : Addr) : List Captured → List Captured
  | [] => []
  | [c] => [{ c with uop := { c.uop with alternateResumePC := alternate_resume } }]
  | c :: rest => c :: setResume alternate_resume rest

/-- `cache_reconvergence`: 0 for a PC next to one of the two successors. -/
def cache_reconvergence (u : Recorded) : Addr :=
  let near (lhs rhs : Addr) : Bool :=
    lhs != 0 && rhs != 0 && decide ((if rhs ≤ lhs then lhs - rhs else rhs - lhs) ≤ 4)
  if near u.reconvergencePC u.branchTargetPC || near u.reconvergencePC u.fallthroughPC then 0
  else u.reconvergencePC

/-- The path behind `op`, or `none` if it is incomplete; `rest` was recorded after `op`. -/
def suffix (cache : Cache) (address_space_id : Nat) (op : Recorded) (rest : List Recorded) :
    Option DVRAlternatePath :=
  let reconvergence := op.reconvergencePC
  let before := rest.takeWhile fun u => u.pc != reconvergence
  match rest.dropWhile fun u => u.pc != reconvergence with
  | [] => none
  | boundary :: beyond =>
    if before.isEmpty then none
    else
      let x : Suffix :=
        { cache, reconvergence, address_space_id
          window := if boundary.load then before ++ [boundary] else before
          after := if boundary.load then beyond else boundary :: beyond
          live_out := (boundary :: beyond).foldl (fun live_out u => live_out ||| u.intSources) 0 }
      let alternate_resume := if boundary.load then (beyond.head?.map fun u => u.pc).getD 0 else 0
      match x.captureAll x.window {} with
      | none => none
      | some s =>
        if s.uops.isEmpty then none
        else some
          { uops := setResume alternate_resume s.uops, liveInRegisters := s.liveInRegisters,
            complete := true, omitted := s.omitted, reconvergence }

/-- One instruction of the recording: if it is a tainted forward branch, its path is stored, unless
    there is a complete one. -/
def recordBranch (address_space_id : Nat) (op : Recorded) (rest : List Recorded) (cache : Cache) : Cache :=
  let target := if op.branchTaken then op.branchTargetPC else op.fallthroughPC
  if !op.conditional || !op.tainted then cache
  else if op.branchTargetPC ≠ 0 ∧ op.branchTargetPC < op.pc then cache
  else if op.pc = 0 ∨ target = 0 ∨ op.reconvergencePC = 0 then cache
  else
    match suffix cache address_space_id op rest with
    | none => cache
    | some path =>
      let key : DVRAlternatePathKey := ⟨op.pc, target, cache_reconvergence op, address_space_id⟩
      if (cache key).any fun existing => existing.complete then cache
      else fun k => if k = key then some path else cache k

def recordDVRAlternatePaths (address_space_id : Nat) : List Recorded → Cache → Cache
  | [], cache => cache
  | op :: rest, cache =>
    recordDVRAlternatePaths address_space_id rest (recordBranch address_space_id op rest cache)

/-- The calls of a run: a recording and its address space. -/
def run (calls : List (Nat × List Recorded)) : Cache :=
  calls.foldl (fun cache call => recordDVRAlternatePaths call.1 call.2 cache) fun _ => none

/-! ## What a path should be -/

/-- Control can pass to `pc`. -/
def Captured.passes (c : Captured) (pc : Addr) : Prop :=
  if c.uop.control && c.uop.conditional then pc = c.uop.branchTargetPC ∨ pc = c.uop.fallthroughPC
  else if c.uop.direct_jump then pc = c.uop.branchTargetPC
  else c.next = some pc

/-- From one PC to another over instructions that were left out. -/
inductive Skips (omitted : List Captured) : Addr → Addr → Prop
  | refl (pc : Addr) : Skips omitted pc pc
  | skip {c : Captured} {pc pc' : Addr} (hmem : c ∈ omitted) (hnext : c.next = some pc)
      (hrest : Skips omitted pc pc') : Skips omitted c.uop.pc pc'

namespace DVRAlternatePath

variable (path : DVRAlternatePath)

/-- Control that passes to `pc` is at a uop of the path or at the reconvergence PC. -/
def Covered (pc : Addr) : Prop := ∃ pc', Skips path.omitted pc pc' ∧
    (pc' = path.reconvergence ∨ ∃ c ∈ path.uops, c.uop.pc = pc')

/-- Control stays in the path from every uop at which `start` holds. -/
def Closed (start : Captured → Prop) : Prop :=
  ∀ c ∈ path.uops, start c → ∀ pc, c.passes pc → path.Covered pc

/-- The path ends at the reconvergence PC, where it has at most a boundary load. -/
def Inside (c : Captured) : Prop := c.uop.pc ≠ path.reconvergence

end DVRAlternatePath

/-- A direct jump has no semantic, as the decoder leaves it, or its target was recorded next. -/
def Captured.Lands (c : Captured) : Prop := c.uop.direct_jump = true →
  c.uop.semantic = .Unsupported ∨ c.next = some c.uop.branchTargetPC

/-! ## The order of the list -/

/-- Every operand of a uop that is no direct jump is a live-in or `written` before it is read, in the
    order of the list. -/
def Listed (live : BitVec 32) : (Fin 32 → Prop) → List Captured → Prop
  | _, [] => True
  | written, c :: rest =>
    (c.uop.direct_jump = false → ∀ r, c.uop.reads r → live.getLsbD r = true ∨ written r) ∧
      Listed live (fun r => written r ∨ c.uop.writes r) rest

variable {live : BitVec 32} {l : List Captured} {a : Addr}

theorem Listed.weaken {live' : BitVec 32} :
    ∀ {written written' : Fin 32 → Prop}, Listed live written l →
      (∀ r : Fin 32, live.getLsbD r = true ∨ written r → live'.getLsbD r = true ∨ written' r) →
        Listed live' written' l := by
  induction l with
  | nil =>
    intro _ _ _ _
    trivial
  | cons c rest ih =>
    intro written written' h himp
    refine ⟨fun hjump r hr => himp r (h.1 hjump r hr), ih h.2 fun r hr => ?_⟩
    rcases hr with hlive | hwritten | hc
    · rcases himp r (.inl hlive) with h' | h'
      · exact .inl h'
      · exact .inr (.inl h')
    · rcases himp r (.inr hwritten) with h' | h'
      · exact .inl h'
      · exact .inr (.inl h')
    · exact .inr (.inr hc)

theorem listed_append {m : List Captured} :
    ∀ {written : Fin 32 → Prop}, Listed live written (l ++ m) ↔
      Listed live written l ∧ Listed live (fun r => written r ∨ ∃ c ∈ l, c.uop.writes r) m := by
  induction l with
  | nil =>
    intro written
    have hsame : (fun r => written r ∨ ∃ c ∈ ([] : List Captured), c.uop.writes r) = written := by
      funext r
      simp
    rw [hsame, nil_append]
    exact ⟨fun h => ⟨trivial, h⟩, fun h => h.2⟩
  | cons c rest ih =>
    intro written
    have hsame : (fun r => written r ∨ ∃ d ∈ c :: rest, d.uop.writes r) =
        fun r => (written r ∨ c.uop.writes r) ∨ ∃ d ∈ rest, d.uop.writes r := by
      funext r
      simp only [mem_cons, exists_eq_or_imp, or_assoc]
    rw [hsame, cons_append]
    show _ ∧ Listed _ _ (rest ++ m) ↔ (_ ∧ Listed _ _ rest) ∧ _
    rw [ih, and_assoc]

/-- What `Listed` says of a position. -/
theorem Listed.at :
    ∀ {written : Fin 32 → Prop} {k : Nat} {c : Captured} {r : Fin 32}, Listed live written l →
      l[k]? = some c → c.uop.direct_jump = false → c.uop.reads r → live.getLsbD r = true ∨ written r ∨
        ∃ j d, j < k ∧ l[j]? = some d ∧ d.uop.writes r := by
  induction l with
  | nil =>
    intro written k c r _ hc _ _
    cases hc
  | cons a rest ih =>
    intro written k c r h hc hjump hr
    cases k with
    | zero =>
      obtain rfl := Option.some.inj hc
      rcases h.1 hjump r hr with hlive | hwritten
      · exact .inl hlive
      · exact .inr (.inl hwritten)
    | succ k =>
      rcases ih h.2 hc hjump hr with hlive | (hwritten | ha) | ⟨j, d, hj, hd, hw⟩
      · exact .inl hlive
      · exact .inr (.inl hwritten)
      · exact .inr (.inr ⟨0, a, Nat.succ_pos k, rfl, ha⟩)
      · exact .inr (.inr ⟨j + 1, d, Nat.succ_lt_succ hj, hd, hw⟩)

theorem listed_mark : ∀ {written : Fin 32 → Prop},
      Listed live written (l.map Captured.mark) ↔ Listed live written l := by
  induction l with
  | nil => exact Iff.rfl
  | cons c rest ih => exact and_congr_right fun _ => ih

theorem listed_setResume :
    ∀ {written : Fin 32 → Prop}, Listed live written (setResume a l) ↔ Listed live written l := by
  induction l with
  | nil => exact Iff.rfl
  | cons c rest ih =>
    intro written
    cases rest with
    | nil => exact Iff.rfl
    | cons d rest => exact and_congr_right fun _ => ih

/-! ## The loop over the suffix -/

theorem Skips.trans {omitted : List Captured} {b c : Addr} (hab : Skips omitted a b)
    (hbc : Skips omitted b c) : Skips omitted a c := by
  induction hab with
  | refl => exact hbc
  | skip hmem hnext _ ih => exact .skip hmem hnext (ih hbc)

theorem Skips.mono {omitted omitted' : List Captured} {b : Addr} (hsub : omitted ⊆ omitted')
    (h : Skips omitted a b) : Skips omitted' a b := by
  induction h with
  | refl => exact .refl _
  | skip hmem hnext _ ih => exact .skip (hsub hmem) hnext ih

/-- What every cached path keeps. -/
structure Good (key : DVRAlternatePathKey) (path : DVRAlternatePath) : Prop where
  complete : path.complete = true
  closed : path.Closed fun c => path.Inside c ∧ c.Lands
  listed : Listed path.liveInRegisters (fun _ => False) path.uops
  reconvergence : key.reconvergencePC = 0 ∨ path.reconvergence = key.reconvergencePC

/-- Every cached path keeps it. -/
def Sound (cache : Cache) : Prop := ∀ key path, cache key = some path → Good key path

/-- The operands in order, and nothing is `defined` that no uop writes. -/
structure Kept (s : Capture) : Prop where
  listed : Listed s.liveInRegisters (fun _ => False) s.uops
  defined : ∀ r : Fin 32, s.defined.getLsbD r = true → ∃ c ∈ s.uops, c.uop.writes r

section

variable {x : Suffix} {s s' s'' : Capture} {u : Recorded} {later : List Recorded}

/-- From a uop inside the suffix control goes to a captured PC. -/
def Suffix.Open (x : Suffix) (s : Capture) (c : Captured) : Prop :=
  c.uop.pc ≠ x.reconvergence → c.Lands → ∀ pc, c.passes pc →
    ∃ pc', Skips s.omitted pc pc' ∧ x.captured_pc s pc' = true

/-- A capture grows, and control can go on from the uops that are added. -/
structure Adds (x : Suffix) (s s' : Capture) : Prop where
  uops : s.uops ⊆ s'.uops
  omitted : s.omitted ⊆ s'.omitted
  kept : Kept s → Kept s'
  fresh : ∀ c ∈ s'.uops, c ∈ s.uops ∨ x.Open s' c

theorem captured_iff {pc : Addr} : x.captured_pc s pc = true ↔
    pc = x.reconvergence ∨ (∃ u ∈ x.window, u.pc = pc) ∨ ∃ c ∈ s.uops, c.uop.pc = pc := by
  unfold Suffix.captured_pc
  simp only [Bool.or_eq_true, beq_iff_eq, any_eq_true, or_assoc]

theorem captured_mono (hsub : s.uops ⊆ s'.uops) {pc : Addr} (h : x.captured_pc s pc = true) :
    x.captured_pc s' pc = true := by
  rw [captured_iff] at h ⊢
  rcases h with h | h | ⟨c, hc, hpc⟩
  · exact .inl h
  · exact .inr (.inl h)
  · exact .inr (.inr ⟨c, hsub hc, hpc⟩)

theorem Suffix.Open.mono {c : Captured} (h : x.Open s c) (huops : s.uops ⊆ s'.uops)
    (homitted : s.omitted ⊆ s'.omitted) : x.Open s' c := by
  intro hin hlands pc hpass
  obtain ⟨pc', hskips, hcaptured⟩ := h hin hlands pc hpass
  exact ⟨pc', hskips.mono homitted, captured_mono huops hcaptured⟩

theorem Adds.refl (x : Suffix) (s : Capture) : Adds x s s :=
  ⟨fun _ h => h, fun _ h => h, id, fun _ h => .inl h⟩

theorem Adds.trans (h : Adds x s s') (h' : Adds x s' s'') : Adds x s s'' := by
  refine ⟨fun _ hc => h'.uops (h.uops hc), fun _ hc => h'.omitted (h.omitted hc),
    fun hk => h'.kept (h.kept hk), fun c hc => ?_⟩
  rcases h'.fresh c hc with hc | hopen
  · rcases h.fresh c hc with hc | hopen
    · exact .inl hc
    · exact .inr (hopen.mono h'.uops h'.omitted)
  · exact .inr hopen

variable {r : Fin 32} {pre : List Recorded}

/-- Live-ins of a part that is put behind what has been captured. -/
theorem getLsbD_live (live sources defined : BitVec 32) (h : sources.getLsbD r = true) :
    (live ||| (sources &&& ~~~ defined)).getLsbD r = true ∨ defined.getLsbD r = true := by
  cases hdef : defined.getLsbD r with
  | true => exact .inr rfl
  | false =>
    left
    rw [BitVec.getLsbD_or, BitVec.getLsbD_and, BitVec.getLsbD_not, h, hdef, decide_eq_true r.isLt]
    exact Bool.or_true _

theorem getLsbD_live_left (live sources : BitVec 32) (h : live.getLsbD r = true) :
    (live ||| sources).getLsbD r = true := by
  rw [BitVec.getLsbD_or, h, Bool.true_or]

theorem Kept.push (h : Kept s) : Kept (x.push u later s) where
  listed := by
    show Listed _ _ (s.uops ++ [x.cached u later])
    rw [listed_append]
    constructor
    · refine h.listed.weaken fun r hr => ?_
      rcases hr with hlive | hfalse
      · exact .inl (getLsbD_live_left _ _ hlive)
      · exact hfalse.elim
    · refine ⟨fun _ r hr => ?_, trivial⟩
      rcases getLsbD_live s.liveInRegisters u.intSources s.defined hr with hlive | hdefined
      · exact .inl hlive
      · exact .inr (.inr (h.defined r hdefined))
  defined := by
    intro r hr
    have hor : s.defined.getLsbD r = true ∨ u.intDestinations.getLsbD r = true := by
      rw [← Bool.or_eq_true, ← BitVec.getLsbD_or]
      exact hr
    rcases hor with hr | hr
    · obtain ⟨c, hc, hw⟩ := h.defined r hr
      exact ⟨c, mem_append_left _ hc, hw⟩
    · exact ⟨x.cached u later, mem_append_right _ mem_cons_self, hr⟩

theorem getLsbD_foldl (l : List Captured) {d : BitVec 32}
    (h : (l.foldl (fun defined c => defined ||| c.uop.intDestinations) d).getLsbD r = true) :
    d.getLsbD r = true ∨ ∃ c ∈ l, c.uop.writes r := by
  induction l generalizing d with
  | nil => exact .inl h
  | cons c rest ih =>
    rcases ih h with hor | ⟨e, he, hw⟩
    · rw [BitVec.getLsbD_or, Bool.or_eq_true] at hor
      rcases hor with hd | hc
      · exact .inl hd
      · exact .inr ⟨c, mem_cons_self, hc⟩
    · exact .inr ⟨e, mem_cons_of_mem _ he, hw⟩

theorem Kept.splice {nested : DVRAlternatePath} (h : Kept s)
    (hnested : Listed nested.liveInRegisters (fun _ => False) nested.uops) :
    Kept (s.splice nested) where
  listed := by
    show Listed _ _ (s.uops ++ nested.uops.map Captured.mark)
    rw [listed_append, listed_mark]
    constructor
    · refine h.listed.weaken fun r hr => ?_
      rcases hr with hlive | hfalse
      · exact .inl (getLsbD_live_left _ _ hlive)
      · exact hfalse.elim
    · refine hnested.weaken fun r hr => ?_
      rcases hr with hlive | hfalse
      · rcases getLsbD_live s.liveInRegisters _ s.defined hlive with hlive | hdefined
        · exact .inl hlive
        · exact .inr (.inr (h.defined r hdefined))
      · exact hfalse.elim
  defined := by
    intro r hr
    rcases getLsbD_foldl nested.uops hr with hr | ⟨c, hc, hw⟩
    · obtain ⟨c, hc, hw⟩ := h.defined r hr
      exact ⟨c, mem_append_left _ hc, hw⟩
    · exact ⟨c.mark, mem_append_right _ (mem_map_of_mem hc), hw⟩

/-- Splicing in a path that is good and has the same reconvergence PC. -/
theorem Adds.splice {nested : DVRAlternatePath} {key : DVRAlternatePathKey} (hgood : Good key nested)
    (hrec : nested.reconvergence = x.reconvergence) : Adds x s (s.splice nested) where
  uops := subset_append_left _ _
  omitted := subset_append_left _ _
  kept := fun h => h.splice hgood.listed
  fresh := by
    intro c hc
    rcases mem_append.mp hc with hc | hc
    · exact .inl hc
    · obtain ⟨e, he, rfl⟩ := mem_map.mp hc
      refine .inr fun hin hlands pc hpass => ?_
      have hin' : e.uop.pc ≠ nested.reconvergence := by
        rw [hrec]
        exact hin
      obtain ⟨pc', hskips, hcovered⟩ := hgood.closed e he ⟨hin', hlands⟩ pc hpass
      refine ⟨pc', hskips.mono (subset_append_right _ _), captured_iff.mpr ?_⟩
      rcases hcovered with rfl | ⟨d, hd, rfl⟩
      · exact .inl hrec
      · exact .inr (.inr ⟨d.mark, mem_append_right _ (mem_map_of_mem hd), rfl⟩)

/-- The target is captured afterwards, from the cache if need be. -/
theorem append_cached_target_spec (hsound : Sound x.cache) (hrec : x.reconvergence ≠ 0)
    {branchPC target : Addr} (h : x.append_cached_target branchPC target s = some s') :
    Adds x s s' ∧ x.captured_pc s' target = true := by
  unfold Suffix.append_cached_target at h
  by_cases hzero : target = 0
  · rw [if_pos hzero] at h
    cases h
  rw [if_neg hzero] at h
  by_cases hcaptured : x.captured_pc s target = true
  · rw [if_pos hcaptured] at h
    obtain rfl := Option.some.inj h
    exact ⟨.refl x s, hcaptured⟩
  rw [if_neg hcaptured] at h
  cases hnested : x.cache ⟨branchPC, target, x.reconvergence, x.address_space_id⟩ with
  | none =>
    rw [hnested] at h
    cases h
  | some nested =>
    rw [hnested] at h
    dsimp only at h
    split at h
    · cases h
    by_cases hthere : x.captured_pc (s.splice nested) target = true
    · rw [if_pos hthere] at h
      obtain rfl := Option.some.inj h
      have hgood := hsound _ _ hnested
      exact ⟨.splice hgood (hgood.reconvergence.resolve_left hrec), hthere⟩
    · rw [if_neg hthere] at h
      cases h

/-- Where the window ends, the reconvergence PC is next, or has just been reached. -/
def Suffix.Ends (x : Suffix) : Prop := ∀ pre u, x.window = pre ++ [u] →
    u.pc = x.reconvergence ∨ ∃ v, x.after.head? = some v ∧ v.pc = x.reconvergence

/-- What is recorded after an instruction of the window is captured. -/
theorem next_captured (hends : x.Ends) (hwindow : x.window = pre ++ u :: later)
    (hin : u.pc ≠ x.reconvergence) (s : Capture) :
    ∃ v, (later ++ x.after).head? = some v ∧ x.captured_pc s v.pc = true := by
  cases later with
  | nil =>
    obtain ⟨v, hv, hpc⟩ := (hends pre u hwindow).resolve_left hin
    exact ⟨v, hv, captured_iff.mpr (.inl hpc)⟩
  | cons v later =>
    refine ⟨v, rfl, captured_iff.mpr (.inr (.inl ⟨v, ?_, rfl⟩))⟩
    rw [hwindow]
    simp

/-- A direct jump whose target is captured. -/
theorem capture_jump (hjump : u.direct_jump = true)
    (htarget : x.captured_pc s u.branchTargetPC = true) :
    Adds x s { s with uops := s.uops ++ [x.cached u later] } where
  uops := subset_append_left _ _
  omitted := fun _ h => h
  kept := by
    intro h
    refine ⟨listed_append.mpr ⟨h.listed, fun hno r _ => ?_, trivial⟩, fun r hr => ?_⟩
    · -- the operands of a direct jump do not count
      change u.direct_jump = false at hno
      rw [hjump] at hno
      cases hno
    · obtain ⟨c, hc, hw⟩ := h.defined r hr
      exact ⟨c, mem_append_left _ hc, hw⟩
  fresh := by
    intro c hc
    rcases mem_append.mp hc with hc | hc
    · exact .inl hc
    · rw [mem_singleton.mp hc]
      refine .inr fun _ _ pc hpass => ⟨pc, .refl pc, ?_⟩
      have hcond : u.conditional = false := by
        unfold Recorded.direct_jump at hjump
        simp only [Bool.and_eq_true, Bool.not_eq_true'] at hjump
        exact hjump.1.2
      have hpc : pc = u.branchTargetPC := by
        change if (u.control && u.conditional) = true then _ else if u.direct_jump = true then
          pc = u.branchTargetPC else _ at hpass
        rw [hcond, Bool.and_false, if_neg Bool.false_ne_true, if_pos hjump] at hpass
        exact hpass
      rw [hpc]
      exact captured_mono (subset_append_left _ _) htarget

/-- A branch, and both sides after it. -/
theorem capture_branch (hsound : Sound x.cache) (hrec : x.reconvergence ≠ 0)
    (hcond : (u.control && u.conditional) = true)
    (htarget : x.append_cached_target u.pc u.branchTargetPC (x.push u later s) = some s')
    (hfallthrough : x.append_cached_target u.pc u.fallthroughPC s' = some s'') :
    Adds x s s'' ∧ x.cached u later ∈ s''.uops := by
  obtain ⟨hadds, hcaptured⟩ := append_cached_target_spec hsound hrec htarget
  obtain ⟨hadds', hcaptured'⟩ := append_cached_target_spec hsound hrec hfallthrough
  have hboth := hadds.trans hadds'
  have hmem : x.cached u later ∈ s''.uops := hboth.uops (mem_append_right _ mem_cons_self)
  refine ⟨⟨fun _ hc => hboth.uops (mem_append_left _ hc), hboth.omitted,
    fun h => hboth.kept h.push, fun c hc => ?_⟩, hmem⟩
  rcases hboth.fresh c hc with hc | hopen
  · rcases mem_append.mp hc with hc | hc
    · exact .inl hc
    · rw [mem_singleton.mp hc]
      refine .inr fun _ _ pc hpass => ⟨pc, .refl pc, ?_⟩
      change if (u.control && u.conditional) = true then pc = u.branchTargetPC ∨ pc = u.fallthroughPC
        else _ at hpass
      rw [if_pos hcond] at hpass
      rcases hpass with rfl | rfl
      · exact captured_mono hadds'.uops hcaptured
      · exact hcaptured'
  · exact .inr hopen

/-- Any other instruction: control goes to what was recorded next. -/
theorem capture_other (hends : x.Ends) (hwindow : x.window = pre ++ u :: later)
    (hsupported : u.semantic ≠ .Unsupported) (hcond : (u.control && u.conditional) = false) :
    Adds x s (x.push u later s) where
  uops := subset_append_left _ _
  omitted := fun _ h => h
  kept := Kept.push
  fresh := by
    intro c hc
    rcases mem_append.mp hc with hc | hc
    · exact .inl hc
    · rw [mem_singleton.mp hc]
      refine .inr fun hin hlands pc hpass => ⟨pc, .refl pc, ?_⟩
      obtain ⟨v, hv, hcaptured⟩ := next_captured hends hwindow hin (x.push u later s)
      change if (u.control && u.conditional) = true then _ else if u.direct_jump = true then
        pc = u.branchTargetPC else (later ++ x.after).head?.map _ = some pc at hpass
      rw [hcond, if_neg Bool.false_ne_true] at hpass
      by_cases hjump : u.direct_jump = true
      · -- a direct jump whose target was not captured: its target is next all the same
        have hnext : (later ++ x.after).head?.map (fun v => v.pc) = some u.branchTargetPC :=
          (hlands hjump).resolve_left hsupported
        rw [hv] at hnext
        rw [if_pos hjump] at hpass
        rw [hpass, ← Option.some.inj hnext]
        exact hcaptured
      · rw [if_neg hjump, hv] at hpass
        rw [← Option.some.inj hpass]
        exact hcaptured

/-- One instruction of the window. -/
theorem capture_spec (hsound : Sound x.cache) (hrec : x.reconvergence ≠ 0) (hends : x.Ends)
    (hwindow : x.window = pre ++ u :: later) (h : x.capture u later s = some s') :
    Adds x s s' ∧ (x.cached u later ∈ s'.uops ∨ x.cached u later ∈ s'.omitted) := by
  unfold Suffix.capture at h
  by_cases hjump : (u.direct_jump && x.captured_pc s u.branchTargetPC) = true
  · rw [if_pos hjump] at h
    obtain rfl := Option.some.inj h
    rw [Bool.and_eq_true] at hjump
    exact ⟨capture_jump hjump.1 hjump.2, .inl (mem_append_right _ mem_cons_self)⟩
  rw [if_neg hjump] at h
  by_cases hunsupported : u.semantic = .Unsupported
  · rw [if_pos hunsupported] at h
    dsimp only at h
    split at h
    · cases h
    · -- the instruction is left out
      obtain rfl := Option.some.inj h
      exact ⟨⟨fun _ hc => hc, subset_append_left _ _, fun hk => ⟨hk.listed, hk.defined⟩,
        fun _ hc => .inl hc⟩, .inr (mem_append_right _ mem_cons_self)⟩
  rw [if_neg hunsupported] at h
  by_cases hcond : (u.control && u.conditional) = true
  · rw [if_pos hcond] at h
    obtain ⟨t, htarget, hfallthrough⟩ := Option.bind_eq_some_iff.mp h
    obtain ⟨hadds, hmem⟩ := capture_branch hsound hrec hcond htarget hfallthrough
    exact ⟨hadds, .inl hmem⟩
  · rw [if_neg hcond] at h
    obtain rfl := Option.some.inj h
    rw [Bool.not_eq_true] at hcond
    exact ⟨capture_other hends hwindow hunsupported hcond, .inl (mem_append_right _ mem_cons_self)⟩

/-- The whole loop: every instruction of the window is in the path or has been left out. -/
theorem captureAll_spec (hsound : Sound x.cache) (hrec : x.reconvergence ≠ 0) (hends : x.Ends)
    (todo : List Recorded) (hwindow : x.window = pre ++ todo) (h : x.captureAll todo s = some s') :
    Adds x s s' ∧ ∀ done u later, todo = done ++ u :: later →
      x.cached u later ∈ s'.uops ∨ x.cached u later ∈ s'.omitted := by
  induction todo generalizing s pre with
  | nil =>
    obtain rfl := Option.some.inj h
    refine ⟨.refl x s, fun done u later hsplit => ?_⟩
    cases done <;> cases hsplit
  | cons v todo ih =>
    obtain ⟨t, hv, hrest⟩ := Option.bind_eq_some_iff.mp h
    obtain ⟨hadds, hmem⟩ := capture_spec hsound hrec hends hwindow hv
    have hwindow' : x.window = (pre ++ [v]) ++ todo := by
      rw [hwindow, append_assoc]
      rfl
    obtain ⟨hadds', hall⟩ := ih hwindow' hrest
    refine ⟨hadds.trans hadds', fun done u later hsplit => ?_⟩
    cases done with
    | nil =>
      cases hsplit
      rcases hmem with hmem | hmem
      · exact .inl (hadds'.uops hmem)
      · exact .inr (hadds'.omitted hmem)
    | cons w done =>
      cases hsplit
      exact hall done u later rfl

/-- Afterwards an instruction of the window leads to a cached uop or to the reconvergence PC. -/
theorem window_covered (hends : x.Ends) (hall : ∀ done u later, x.window = done ++ u :: later →
      x.cached u later ∈ s.uops ∨ x.cached u later ∈ s.omitted) (later : List Recorded) :
    ∀ {done : List Recorded} {u : Recorded}, x.window = done ++ u :: later →
      ∃ pc, Skips s.omitted u.pc pc ∧ (pc = x.reconvergence ∨ ∃ c ∈ s.uops, c.uop.pc = pc) := by
  induction later with
  | nil =>
    intro done u hwindow
    rcases hall done u [] hwindow with hmem | hmem
    · exact ⟨u.pc, .refl _, .inr ⟨_, hmem, rfl⟩⟩
    · rcases hends done u hwindow with hpc | ⟨v, hv, hpc⟩
      · exact ⟨u.pc, .refl _, .inl hpc⟩
      · refine ⟨v.pc, .skip hmem ?_ (.refl _), .inl hpc⟩
        show ([] ++ x.after).head?.map (fun u : Recorded => u.pc) = some v.pc
        rw [nil_append, hv]
        rfl
  | cons v later ih =>
    intro done u hwindow
    rcases hall done u (v :: later) hwindow with hmem | hmem
    · exact ⟨u.pc, .refl _, .inr ⟨_, hmem, rfl⟩⟩
    · have hwindow' : x.window = (done ++ [u]) ++ v :: later := by
        rw [hwindow, append_assoc]
        rfl
      obtain ⟨pc, hskips, hpc⟩ := ih hwindow'
      exact ⟨pc, .skip hmem rfl hskips, hpc⟩

end

/-- `c` with a resume PC. -/
def Captured.resumed (a : Addr) (c : Captured) : Captured :=
  { c with uop := { c.uop with alternateResumePC := a } }

theorem of_mem_setResume {a : Addr} {l : List Captured} {c : Captured} (h : c ∈ setResume a l) :
    ∃ d ∈ l, c = d ∨ c = d.resumed a := by
  induction l with
  | nil => cases h
  | cons d rest ih =>
    cases rest with
    | nil => exact ⟨d, mem_cons_self, .inr (mem_singleton.mp h)⟩
    | cons e rest =>
      rcases mem_cons.mp h with rfl | h
      · exact ⟨c, mem_cons_self, .inl rfl⟩
      · obtain ⟨f, hf, hc⟩ := ih h
        exact ⟨f, mem_cons_of_mem _ hf, hc⟩

theorem pc_mem_setResume {a : Addr} {l : List Captured} {c : Captured} (h : c ∈ l) :
    ∃ d ∈ setResume a l, d.uop.pc = c.uop.pc := by
  induction l with
  | nil => cases h
  | cons d rest ih =>
    cases rest with
    | nil => exact ⟨d.resumed a, mem_cons_self, by rw [mem_singleton.mp h]; rfl⟩
    | cons e rest =>
      rcases mem_cons.mp h with rfl | h
      · exact ⟨c, mem_cons_self, rfl⟩
      · obtain ⟨f, hf, hpc⟩ := ih h
        exact ⟨f, mem_cons_of_mem _ hf, hpc⟩

/-! ## A call, and a run of calls -/

section

variable {cache : Cache} {address_space_id : Nat} {op : Recorded} {rest : List Recorded}

/-- A path that is complete is good. -/
theorem suffix_good (hsound : Sound cache) (hrec : op.reconvergencePC ≠ 0)
    {path : DVRAlternatePath} (h : suffix cache address_space_id op rest = some path)
    {key : DVRAlternatePathKey}
    (hkey : key.reconvergencePC = 0 ∨ key.reconvergencePC = op.reconvergencePC) : Good key path := by
  unfold suffix at h
  dsimp only at h
  cases hsplit : rest.dropWhile fun u => u.pc != op.reconvergencePC with
  | nil =>
    rw [hsplit] at h
    cases h
  | cons boundary beyond =>
    rw [hsplit] at h
    dsimp only at h
    split at h
    · cases h
    generalize hx : Suffix.mk cache op.reconvergencePC
      (if boundary.load then rest.takeWhile (fun u => u.pc != op.reconvergencePC) ++ [boundary]
        else rest.takeWhile fun u => u.pc != op.reconvergencePC)
      (if boundary.load then beyond else boundary :: beyond)
      ((boundary :: beyond).foldl (fun live_out u => live_out ||| u.intSources) 0)
      address_space_id = x at h
    have hcache : x.cache = cache := by rw [← hx]
    have hreconv : x.reconvergence = op.reconvergencePC := by rw [← hx]
    have hboundary : boundary.pc = op.reconvergencePC := by
      have hne : rest.dropWhile (fun u => u.pc != op.reconvergencePC) ≠ [] := by
        rw [hsplit]
        exact cons_ne_nil _ _
      have hnot := head_dropWhile_not (fun u : Recorded => u.pc != op.reconvergencePC) hne
      simp only [hsplit, head_cons] at hnot
      exact not_not.mp fun hne => by
        rw [bne_iff_ne.mpr hne] at hnot
        cases hnot
    have hends : x.Ends := by
      intro pre u hwindow
      rw [hreconv]
      by_cases hload : boundary.load = true
      · left
        rw [← hx] at hwindow
        rw [if_pos hload] at hwindow
        obtain ⟨_, hu⟩ := append_inj' hwindow rfl
        rw [← singleton_injective hu]
        exact hboundary
      · right
        rw [← hx]
        dsimp only
        rw [if_neg hload]
        exact ⟨boundary, rfl, hboundary⟩
    have hwindow : (if boundary.load then
        rest.takeWhile (fun u => u.pc != op.reconvergencePC) ++ [boundary]
          else rest.takeWhile fun u => u.pc != op.reconvergencePC) = x.window := by rw [← hx]
    rw [hwindow] at h
    generalize (if boundary.load then (beyond.head?.map fun u => u.pc).getD 0 else 0) =
      alternate_resume at h
    cases hcapture : x.captureAll x.window {} with
    | none =>
      rw [hcapture] at h
      cases h
    | some s =>
      rw [hcapture] at h
      dsimp only at h
      split at h
      · cases h
      obtain rfl := Option.some.inj h
      obtain ⟨hadds, hmem⟩ := captureAll_spec (hcache ▸ hsound) (hreconv ▸ hrec) hends x.window
        (nil_append _).symm hcapture
      have hkept := hadds.kept ⟨trivial, fun r hr => absurd hr (by simp)⟩
      refine ⟨rfl, ?_, listed_setResume.mpr hkept.listed, hkey.imp_right Eq.symm⟩
      intro c hc ⟨hin, hlands⟩ pc hpass
      -- the uop as it was before its resume PC was set
      obtain ⟨d, hd, hcd⟩ := of_mem_setResume hc
      have hpc : c.uop.pc = d.uop.pc := by
        rcases hcd with rfl | rfl <;> rfl
      have hpass' : d.passes pc := by
        rcases hcd with rfl | rfl <;> exact hpass
      have hlands' : d.Lands := by
        rcases hcd with rfl | rfl <;> exact hlands
      have hin' : d.uop.pc ≠ x.reconvergence := by
        rw [hreconv, ← hpc]
        exact hin
      have hopen : x.Open s d := (hadds.fresh d hd).resolve_left (not_mem_nil)
      obtain ⟨pc', hskips, hcaptured⟩ := hopen hin' hlands' pc hpass'
      have hkeep : ∀ {pc : Addr}, (pc = x.reconvergence ∨ ∃ c ∈ s.uops, c.uop.pc = pc) →
          pc = op.reconvergencePC ∨ ∃ c ∈ setResume alternate_resume s.uops, c.uop.pc = pc := by
        intro pc hor
        rcases hor with hpc | ⟨e, he, rfl⟩
        · exact .inl (hpc.trans hreconv)
        · exact .inr (pc_mem_setResume he)
      rcases captured_iff.mp hcaptured with hpc | ⟨u, hu, rfl⟩ | hpc
      · exact ⟨pc', hskips, hkeep (.inl hpc)⟩
      · obtain ⟨done, later, hwindow⟩ := append_of_mem hu
        obtain ⟨pc'', hskips', hpc⟩ := window_covered hends hmem later hwindow
        exact ⟨pc'', hskips.trans hskips', hkeep hpc⟩
      · exact ⟨pc', hskips, hkeep (.inr hpc)⟩

/-- Storing the path of one branch. -/
theorem Sound.recordBranch (hsound : Sound cache) :
    Sound (recordBranch address_space_id op rest cache) := by
  unfold AlternatePath.recordBranch
  dsimp only
  generalize (if op.branchTaken then op.branchTargetPC else op.fallthroughPC) = target
  split
  · exact hsound
  split
  · exact hsound
  split
  · exact hsound
  next hzero =>
    have hrec : op.reconvergencePC ≠ 0 := fun h => hzero (.inr (.inr h))
    cases hpath : suffix cache address_space_id op rest with
    | none => exact hsound
    | some path =>
      dsimp only
      split
      · exact hsound
      · intro key path' hkey
        change (if key = _ then some path else cache key) = some path' at hkey
        split at hkey
        next heq =>
          obtain rfl := Option.some.inj hkey
          refine suffix_good hsound hrec hpath ?_
          rw [heq]
          show cache_reconvergence op = 0 ∨ cache_reconvergence op = op.reconvergencePC
          exact ite_eq_or_eq _ _ _
        · exact hsound key path' hkey

/-- A call keeps what every cached path keeps. -/
theorem Sound.record (recorder : List Recorded) (hsound : Sound cache) :
    Sound (recordDVRAlternatePaths address_space_id recorder cache) := by
  induction recorder generalizing cache with
  | nil => exact hsound
  | cons op rest ih => exact ih hsound.recordBranch

end

end Gem5Dvr.AlternatePath
