/-
  The stride detector (`DVRStrideDetector`, `cpu/o3/pre.hh` 34-117, `pre.cc` 14-185) under
  speculation.

  The table (RPT) learns a stride for each load PC at COMMIT (`observe`), and is asked at DISPATCH
  (`observeDispatch`) whether a load is a candidate.  While a discovery is open the dispatch side
  keeps one bit for each table entry — has this stride been seen in this generation? — and since
  dispatch is speculative every bit it sets is logged, for `squashDiscovery` to undo.

  1. **Program** — the seven methods.  The bits are packed 64 to a word as in the source; an entry
     number is a `Fin n`, so an access out of bounds cannot be written.  The log is a list with its
     BACK first.

  2. **The crux (`Undone`)** — a run and the same run without its dispatches from `s` on differ by
     a TAIL of the log: the writes of the tail are from `s` on, and a bit of the shorter run is the
     bit of the longer one, cleared when the tail names its entry.  Evicting an entry clears both
     bits and may leave the tail naming it; that is harmless, because nothing but a logged dispatch
     sets a bit again.

  A squash at `s` removes the tail, which leaves the bits of the shorter run
  (`Undone.squashDiscovery`).
-/
import Gem5Dvr.Uop
import Mathlib.Data.List.FinRange
import Mathlib.Data.List.TakeWhile
import Mathlib.Logic.Function.Basic

namespace Gem5Dvr.StrideDetector

open List Function

scoped instance (priority := 2000) neZeroSucc (n : Nat) : NeZero (n + 1) := ⟨Nat.succ_ne_zero n⟩

/-! ## The program -/

/-- The confidence of a candidate. -/
def CandidateConfidence : Nat := 2
/-- Where the confidence stops. -/
def MaxConfidence : Nat := 3

/-- A load with a stride. -/
structure Candidate where
  pc : Addr
  address : Addr
  stride : BitVec 64
  repeatedDuringDiscovery : Bool := false
  deriving DecidableEq, Repr

/-- The last address of a load, and its stride. -/
structure Entry where
  valid : Bool := false
  pc : Addr := 0
  lastAddress : Addr := 0
  stride : BitVec 64 := 0
  confidence : Nat := 0
  age : BitVec 64 := 0
  candidatePending : Bool := false
  deriving DecidableEq, Repr

/-- A bit that a discovery has written. -/
structure DiscoverySeenWrite (n : Nat) where
  sequence : Nat
  entry : Fin n
  deriving DecidableEq, Repr

/-- `discoveryBits`: one bit for each entry, 64 to a word. -/
abbrev Bits (n : Nat) := Fin ((n + 63) / 64) → BitVec 64

/-- The word that holds the bit of an entry. -/
def word {n : Nat} (entry : Fin n) : Fin ((n + 63) / 64) := ⟨entry / 64, by omega⟩

/-- The bit of an entry. -/
def discoverySeen {n : Nat} (bits : Bits n) (entry : Fin n) : Bool :=
  (bits (word entry) &&& 1#64 <<< (entry.val % 64)) != 0

/-- Write it. -/
def setDiscoverySeen {n : Nat} (bits : Bits n) (entry : Fin n) (value : Bool) : Bits n :=
  let bit := 1#64 <<< (entry.val % 64)
  update bits (word entry)
    (if value then bits (word entry) ||| bit else bits (word entry) &&& ~~~bit)

/-- The fields of `DVRStrideDetector`; `discoverySeenWrites` has its back first. -/
structure Detector (n : Nat) where
  entries : Fin n → Entry := fun _ => {}
  discoveryBits : Bits n := fun _ => 0
  discoverySeenWrites : List (DiscoverySeenWrite n) := []
  timestamp : BitVec 64 := 0

namespace Detector

variable {n : Nat}

/-- The seen bit of an entry. -/
def seen (d : Detector n) (entry : Fin n) : Bool := discoverySeen d.discoveryBits entry

/-- The search of `observe` for the entry of a PC. -/
def lookup (entries : Fin n → Entry) (pc : Addr) : Option (Fin n) :=
  (finRange n).find? fun i => (entries i).valid && (entries i).pc == pc

/-- The search of `observe` for an entry to install a new PC in: the first free one, else the oldest;
    `entry` is the oldest of those passed. -/
def victim (entries : Fin n → Entry) : List (Fin n) → Fin n → Fin n
  | [], entry => entry
  | candidate :: rest, entry =>
      if !(entries candidate).valid then candidate
      else victim entries rest
        (if (entries candidate).age < (entries entry).age then candidate else entry)

/-- What `observe` makes of the entry of a PC it knows. -/
def train (entry : Entry) (address : Addr) (timestamp : BitVec 64) : Entry :=
  let observed_stride := address - entry.lastAddress
  let old_confidence := entry.confidence
  let learnt : Entry :=
    if observed_stride ≠ 0 ∧ observed_stride = entry.stride then
      if entry.confidence < MaxConfidence then { entry with confidence := entry.confidence + 1 }
      else entry
    else
      let confidence := entry.confidence - 1
      { entry with
        confidence := confidence
        stride := if confidence = 0 then observed_stride else entry.stride }
  let pending :=
    if learnt.confidence < CandidateConfidence then false
    else if old_confidence < CandidateConfidence then true
    else learnt.candidatePending
  { learnt with candidatePending := pending, lastAddress := address, age := timestamp }

/-- `front` stands for `entries.front()`: the table is not empty. -/
def observe (front : Fin n) (d : Detector n) (pc address : Addr) : Detector n × Option Candidate :=
  let timestamp := d.timestamp + 1
  match lookup d.entries pc with
  | none =>
      let entry := victim d.entries (finRange n) front
      ({ d with
          timestamp := timestamp
          discoveryBits := setDiscoverySeen d.discoveryBits entry false
          entries := update d.entries entry
            { valid := true, pc := pc, lastAddress := address, age := timestamp } }, none)
  | some i =>
      let entry := train (d.entries i) address timestamp
      ({ d with timestamp := timestamp, entries := update d.entries i entry },
        if entry.stride ≠ 0 ∧ entry.candidatePending then some ⟨pc, address, entry.stride, false⟩
        else none)

/-- The load's entry is trained. -/
def admitted (entry : Entry) (pc : Addr) : Bool :=
  entry.valid && entry.pc == pc && entry.stride != 0 &&
    decide (CandidateConfidence ≤ entry.confidence)

/-- The loop of `observeDispatch` over the entries still to come. -/
def observeDispatchFrom (pc : Addr) (discovery_active : Bool) (trigger_pc : Addr) (sequence : Nat) :
    List (Fin n) → Detector n → Detector n × Option Candidate
  | [], d => (d, none)
  | index :: rest, d =>
      let entry := d.entries index
      if !admitted entry pc then
        observeDispatchFrom pc discovery_active trigger_pc sequence rest d
      else if discovery_active then
        if !d.seen index then
          -- the first occurrence only sets the bit
          observeDispatchFrom pc discovery_active trigger_pc sequence rest
            { d with
              discoverySeenWrites := ⟨sequence, index⟩ :: d.discoverySeenWrites
              discoveryBits := setDiscoverySeen d.discoveryBits index true }
        else
          (d, some ⟨pc, entry.lastAddress + entry.stride, entry.stride, pc != trigger_pc⟩)
      else if entry.candidatePending then
        let consumed := { entry with candidatePending := false }
        ({ d with entries := update d.entries index consumed },
          some ⟨pc, entry.lastAddress + entry.stride, entry.stride, false⟩)
      else observeDispatchFrom pc discovery_active trigger_pc sequence rest d

/-- A load is dispatched; in a discovery it may repeat. -/
def observeDispatch (d : Detector n) (pc : Addr) (discovery_active : Bool) (trigger_pc : Addr)
    (sequence : Nat) : Detector n × Option Candidate :=
  observeDispatchFrom pc discovery_active trigger_pc sequence (finRange n) d

/-- Only the trigger has been seen. -/
def beginDiscovery (d : Detector n) (trigger_pc : Addr) : Detector n :=
  { d with
    discoverySeenWrites := []
    discoveryBits :=
      match lookup d.entries trigger_pc with
      | none => fun _ => 0
      | some index => setDiscoverySeen (fun _ => 0) index true }

/-- The loop of `squashDiscovery`: undo from the back of the log. -/
def undo (squash_sequence : Nat) :
    List (DiscoverySeenWrite n) → Bits n → List (DiscoverySeenWrite n) × Bits n
  | [], bits => ([], bits)
  | w :: rest, bits =>
      if squash_sequence ≤ w.sequence then
        undo squash_sequence rest (setDiscoverySeen bits w.entry false)
      else (w :: rest, bits)

/-- The bits of the squashed loads are taken back. -/
def squashDiscovery (d : Detector n) (squash_sequence : Nat) : Detector n :=
  let (writes, bits) := undo squash_sequence d.discoverySeenWrites d.discoveryBits
  { d with discoverySeenWrites := writes, discoveryBits := bits }

/-- The entry ready to notify once more. -/
def rearm (entry : Entry) : Entry :=
  let pending := entry.valid && entry.stride != 0 && decide (CandidateConfidence ≤ entry.confidence)
  { entry with candidatePending := pending }

/-- The discovery is over. -/
def endDiscovery (d : Detector n) : Detector n :=
  { d with
    discoveryBits := fun _ => 0
    discoverySeenWrites := []
    entries := fun i => rearm (d.entries i) }

/-- As constructed. -/
def reset (_ : Detector n) : Detector n := {}

end Detector

/-! ## Calls -/

/-- One call on the detector. -/
inductive Event
  | observe (pc address : Addr)
  | observeDispatch (pc : Addr) (discovery_active : Bool) (trigger_pc : Addr) (sequence : Nat)
  | beginDiscovery (trigger_pc : Addr)
  | squashDiscovery (squash_sequence : Nat)
  | endDiscovery
  | reset
  deriving DecidableEq, Repr

/-- The detector after one call. -/
def step {n : Nat} (front : Fin n) (d : Detector n) : Event → Detector n
  | .observe pc address => (d.observe front pc address).1
  | .observeDispatch pc discovery_active trigger_pc sequence =>
      (d.observeDispatch pc discovery_active trigger_pc sequence).1
  | .beginDiscovery trigger_pc => d.beginDiscovery trigger_pc
  | .squashDiscovery squash_sequence => d.squashDiscovery squash_sequence
  | .endDiscovery => d.endDiscovery
  | .reset => d.reset

/-- A detector of `n + 1` entries — the constructor asserts that there is one — after a sequence of
    calls. -/
def run (n : Nat) (es : List Event) : Detector (n + 1) := es.foldl (step 0) {}

/-- The sequence number of a dispatch. -/
def Event.sequence? : Event → Option Nat
  | .observeDispatch _ _ _ sequence => some sequence
  | _ => none

/-- The call is not a dispatch from `s` on. -/
def Event.before (s : Nat) (e : Event) : Bool := e.sequence?.all (· < s)

/-- Dispatch is in sequence order, and a squashed number is not used again. -/
def InOrder (es : List Event) : Prop := (es.filterMap Event.sequence?).Pairwise (· < ·)

instance (es : List Event) : Decidable (InOrder es) := inferInstanceAs (Decidable (List.Pairwise _ _))

/-! ## Bits -/

section bits

variable {n : Nat}

theorem discoverySeen_eq (bits : Bits n) (entry : Fin n) :
    discoverySeen bits entry = (bits (word entry)).getLsbD (entry.val % 64) := by
  have hlt : entry.val % 64 < 64 := Nat.mod_lt _ (by decide)
  have hne : BitVec.twoPow 64 (entry.val % 64) ≠ 0#64 := by
    intro h0
    have hbit := congrArg (fun v => v.getLsbD (entry.val % 64)) h0
    simp [hlt] at hbit
  show ((bits (word entry) &&& BitVec.twoPow 64 (entry.val % 64)) != 0#64) = _
  rw [BitVec.and_twoPow]
  cases (bits (word entry)).getLsbD (entry.val % 64) with
  | true => simpa using hne
  | false => simp

/-- Setting a bit of one word, read at any bit. -/
theorem getLsbD_bit (x : BitVec 64) {i j : Nat} (hj : j < 64) (value : Bool) :
    (if value then x ||| 1#64 <<< i else x &&& ~~~(1#64 <<< i)).getLsbD j
      = if j = i then value else x.getLsbD j := by
  show (if value then x ||| BitVec.twoPow 64 i else x &&& ~~~BitVec.twoPow 64 i).getLsbD j = _
  by_cases hij : j = i
  · subst hij
    cases value <;> simp [hj]
  · cases value <;> simp [hij, hj]

theorem discoverySeen_set (bits : Bits n) (entry other : Fin n) (value : Bool) :
    discoverySeen (setDiscoverySeen bits entry value) other
      = if other = entry then value else discoverySeen bits other := by
  have hlt : other.val % 64 < 64 := Nat.mod_lt _ (by decide)
  rw [discoverySeen_eq, discoverySeen_eq]
  by_cases hw : word other = word entry
  · -- one word: the entries differ just when their bits do
    have hdiv : other.val / 64 = entry.val / 64 := congrArg Fin.val hw
    have hiff : other.val % 64 = entry.val % 64 ↔ other = entry := by
      constructor
      · intro hmod
        apply Fin.ext
        omega
      · intro heq
        rw [heq]
    simp only [setDiscoverySeen]
    rw [hw, update_self, getLsbD_bit _ hlt]
    simp only [hiff]
  · have hne : other ≠ entry := fun heq => hw (heq ▸ rfl)
    simp only [setDiscoverySeen]
    rw [update_of_ne hw, if_neg hne]

end bits

/-! ## A run and the run without its late dispatches -/

namespace Detector

variable {n : Nat}

/-- An entry without its notification flag, the one thing a dispatch changes in the table. -/
def trained (entry : Entry) : Entry := { entry with candidatePending := false }

theorem trained_eq {a b : Entry} (h : trained a = trained b) :
    a.valid = b.valid ∧ a.pc = b.pc ∧ a.age = b.age := by
  simp only [trained, Entry.mk.injEq] at h
  exact ⟨h.1, h.2.1, h.2.2.2.2.2.1⟩

/-- `short` is `long` without the dispatches from `s` on: the log of `long` has a further `tail`. -/
structure Undone (s : Nat) (long short : Detector n) : Prop where
  table : ∀ i, trained (long.entries i) = trained (short.entries i)
  timestamp : long.timestamp = short.timestamp
  log : ∃ tail, long.discoverySeenWrites = tail ++ short.discoverySeenWrites ∧
    (∀ w ∈ tail, s ≤ w.sequence) ∧
    ∀ i, short.seen i = (long.seen i && !(tail.map DiscoverySeenWrite.entry).contains i)
  early : ∀ w ∈ short.discoverySeenWrites, w.sequence < s

variable {s : Nat} {long short : Detector n}

theorem lookup_congr {a b : Fin n → Entry} (h : ∀ i, trained (a i) = trained (b i)) (pc : Addr) :
    lookup a pc = lookup b pc := by
  have hp : (fun i => (a i).valid && (a i).pc == pc) = fun i => (b i).valid && (b i).pc == pc := by
    funext i
    obtain ⟨hv, hpc, -⟩ := trained_eq (h i)
    rw [hv, hpc]
  rw [lookup, hp, lookup]

theorem victim_congr {a b : Fin n → Entry} (h : ∀ i, trained (a i) = trained (b i))
    (l : List (Fin n)) (entry : Fin n) : victim a l entry = victim b l entry := by
  induction l generalizing entry with
  | nil => rfl
  | cons c rest ih =>
    obtain ⟨hv, -, hc⟩ := trained_eq (h c)
    obtain ⟨-, -, he⟩ := trained_eq (h entry)
    rw [victim, victim, hv, hc, he, ih]

theorem train_congr {a b : Entry} (h : trained a = trained b) (address : Addr)
    (timestamp : BitVec 64) :
    trained (train a address timestamp) = trained (train b address timestamp) := by
  obtain ⟨v', p', l', st', c', g', q'⟩ := b
  obtain ⟨rfl, rfl, rfl, rfl, rfl, rfl, -⟩ := h
  simp only [train, trained]
  split_ifs <;> rfl

theorem update_congr {a b : Fin n → Entry} (h : ∀ i, trained (a i) = trained (b i)) (k : Fin n)
    {x y : Entry} (hxy : trained x = trained y) (i : Fin n) :
    trained (update a k x i) = trained (update b k y i) := by
  by_cases hik : i = k
  · subst hik
    rw [update_self, update_self, hxy]
  · rw [update_of_ne hik, update_of_ne hik, h i]

theorem Undone.refl {d : Detector n} (h : ∀ w ∈ d.discoverySeenWrites, w.sequence < s) :
    Undone s d d where
  table _ := rfl
  timestamp := rfl
  log := ⟨[], rfl, by simp, by simp⟩
  early := h

/-- Commit-side training is the same in both; reusing an entry clears its bit in both. -/
theorem Undone.observe (h : Undone s long short) (front : Fin n) (pc address : Addr) :
    Undone s (long.observe front pc address).1 (short.observe front pc address).1 := by
  obtain ⟨tail, hlog, htail, hseen⟩ := h.log
  unfold Detector.observe
  simp only [lookup_congr h.table pc, h.timestamp, victim_congr h.table]
  cases lookup short.entries pc with
  | none =>
    refine ⟨update_congr h.table _ rfl, rfl, ⟨tail, hlog, htail, ?_⟩, h.early⟩
    intro i
    have hi := hseen i
    simp only [seen, discoverySeen_set] at hi ⊢
    split_ifs with hv
    · rfl
    · exact hi
  | some k =>
    exact ⟨update_congr h.table k (train_congr (h.table k) address _), rfl,
      ⟨tail, hlog, htail, hseen⟩, h.early⟩

/-- Clearing everything forgets the difference. -/
theorem Undone.of_clear (table : ∀ i, trained (long.entries i) = trained (short.entries i))
    (timestamp : long.timestamp = short.timestamp)
    (hl : long.discoverySeenWrites = []) (hs : short.discoverySeenWrites = [])
    (hbits : long.discoveryBits = short.discoveryBits) : Undone s long short where
  table := table
  timestamp := timestamp
  log := ⟨[], by rw [hl, hs]; rfl, by simp, fun i => by simp [seen, hbits]⟩
  early := by simp [hs]

theorem Undone.beginDiscovery (h : Undone s long short) (trigger_pc : Addr) :
    Undone s (long.beginDiscovery trigger_pc) (short.beginDiscovery trigger_pc) := by
  refine Undone.of_clear h.table h.timestamp rfl rfl ?_
  simp only [Detector.beginDiscovery, lookup_congr h.table]

theorem Undone.endDiscovery (h : Undone s long short) :
    Undone s long.endDiscovery short.endDiscovery :=
  Undone.of_clear (fun i => by simpa [Detector.endDiscovery, rearm, trained] using h.table i)
    h.timestamp rfl rfl rfl

/-! ### Undoing -/

/-- The writes of a tail that are all from `s` on are all undone. -/
theorem undo_append {s : Nat} (tail rest : List (DiscoverySeenWrite n))
    (h : ∀ w ∈ tail, s ≤ w.sequence) (bits : Bits n) :
    undo s (tail ++ rest) bits = undo s rest
      (tail.foldl (fun b w => setDiscoverySeen b w.entry false) bits) := by
  induction tail generalizing bits with
  | nil => rfl
  | cons w tail ih =>
    rw [cons_append, undo, if_pos (h w mem_cons_self), foldl_cons]
    exact ih (fun w' hw' => h w' (mem_cons_of_mem w hw')) _

theorem discoverySeen_foldl_clear (tail : List (DiscoverySeenWrite n)) (bits : Bits n) (i : Fin n) :
    discoverySeen (tail.foldl (fun b w => setDiscoverySeen b w.entry false) bits) i
      = (discoverySeen bits i && !(tail.map DiscoverySeenWrite.entry).contains i) := by
  induction tail generalizing bits with
  | nil => simp
  | cons w tail ih =>
    rw [foldl_cons, ih, discoverySeen_set]
    by_cases hi : i = w.entry <;> simp [hi]

/-- Below a log that is all early, undoing stops inside the tail. -/
theorem undo_append_early {q : Nat} (tail : List (DiscoverySeenWrite n))
    {rest : List (DiscoverySeenWrite n)} (h : ∀ w ∈ rest, w.sequence < q) (bits : Bits n) :
    ∃ popped kept, tail = popped ++ kept ∧ undo q (tail ++ rest) bits = (kept ++ rest,
      popped.foldl (fun b w => setDiscoverySeen b w.entry false) bits) := by
  induction tail generalizing bits with
  | nil =>
    refine ⟨[], [], rfl, ?_⟩
    cases rest with
    | nil => rfl
    | cons w rest =>
      have hw := h w mem_cons_self
      rw [nil_append, undo, if_neg (by omega)]
      rfl
  | cons w tail ih =>
    by_cases hw : q ≤ w.sequence
    · obtain ⟨popped, kept, rfl, heq⟩ := ih (setDiscoverySeen bits w.entry false)
      refine ⟨w :: popped, kept, rfl, ?_⟩
      rw [cons_append, undo, if_pos hw, heq]
      rfl
    · refine ⟨[], w :: tail, rfl, ?_⟩
      rw [cons_append, undo, if_neg hw]
      rfl

/-- Undoing does not read the bits. -/
theorem undo_congr {q : Nat} (log : List (DiscoverySeenWrite n)) {b c : Bits n}
    (h : ∀ i, discoverySeen b i = discoverySeen c i) :
    (undo q log b).1 = (undo q log c).1 ∧
      ∀ i, discoverySeen (undo q log b).2 i = discoverySeen (undo q log c).2 i := by
  induction log generalizing b c with
  | nil => exact ⟨rfl, h⟩
  | cons w log ih =>
    by_cases hw : q ≤ w.sequence
    · rw [undo, undo, if_pos hw, if_pos hw]
      apply ih
      intro i
      rw [discoverySeen_set, discoverySeen_set, h i]
    · rw [undo, undo, if_neg hw, if_neg hw]
      exact ⟨rfl, h⟩

theorem undo_subset {q : Nat} (log : List (DiscoverySeenWrite n)) (bits : Bits n) :
    ∀ w ∈ (undo q log bits).1, w ∈ log := by
  induction log generalizing bits with
  | nil => simp [undo]
  | cons w log ih =>
    intro w' hw'
    rw [undo] at hw'
    split_ifs at hw' with hw
    · exact mem_cons_of_mem w (ih _ w' hw')
    · exact hw'

theorem Undone.squashDiscovery (h : Undone s long short) (q : Nat) :
    Undone s (long.squashDiscovery q) (short.squashDiscovery q) := by
  obtain ⟨tail, hlog, htail, hseen⟩ := h.log
  by_cases hq : s ≤ q
  · -- the squash reaches into the tail only
    have hearly : ∀ w ∈ short.discoverySeenWrites, w.sequence < q :=
      fun w hw => Nat.lt_of_lt_of_le (h.early w hw) hq
    obtain ⟨popped, kept, rfl, hlong⟩ := undo_append_early tail hearly long.discoveryBits
    obtain ⟨none', none'', hnil, hshort⟩ := undo_append_early [] hearly short.discoveryBits
    obtain ⟨rfl, rfl⟩ := append_eq_nil_iff.mp hnil.symm
    simp only [nil_append, foldl_nil] at hshort
    refine ⟨h.table, h.timestamp, ⟨kept, ?_, ?_, ?_⟩, ?_⟩
    · simp only [Detector.squashDiscovery, hlog, hlong, hshort]
    · exact fun w hw => htail w (mem_append_right popped hw)
    · intro i
      have hi := hseen i
      simp only [seen] at hi
      simp only [seen, Detector.squashDiscovery, hlog, hlong, hshort, discoverySeen_foldl_clear, hi,
        map_append, contains_append, Bool.not_or, Bool.and_assoc]
    · simp only [Detector.squashDiscovery, hshort]
      exact h.early
  · -- the squash takes the whole tail and goes on alike
    have hall : ∀ w ∈ tail, q ≤ w.sequence := fun w hw => by have := htail w hw; omega
    have hbits : ∀ i, discoverySeen (tail.foldl (fun b w => setDiscoverySeen b w.entry false)
        long.discoveryBits) i = discoverySeen short.discoveryBits i := by
      intro i
      rw [discoverySeen_foldl_clear]
      exact (hseen i).symm
    obtain ⟨hlogs, hsame⟩ := undo_congr (q := q) short.discoverySeenWrites hbits
    refine ⟨h.table, h.timestamp, ⟨[], ?_, by simp, ?_⟩, ?_⟩
    · simp only [Detector.squashDiscovery, hlog, undo_append tail _ hall, hlogs, nil_append]
    · intro i
      simp only [seen, Detector.squashDiscovery, hlog, undo_append tail _ hall, hsame i]
      simp
    · exact fun w hw => h.early w (undo_subset _ _ w hw)

/-- A squash at `s` leaves the bits of the shorter run. -/
theorem Undone.seen_squash (h : Undone s long short) (i : Fin n) :
    (long.squashDiscovery s).seen i = short.seen i := by
  obtain ⟨tail, hlog, htail, hseen⟩ := h.log
  obtain ⟨popped, kept, hnil, hshort⟩ := undo_append_early [] h.early
    (tail.foldl (fun b w => setDiscoverySeen b w.entry false) long.discoveryBits)
  obtain ⟨rfl, rfl⟩ := append_eq_nil_iff.mp hnil.symm
  simp only [nil_append, foldl_nil] at hshort
  simp only [seen, Detector.squashDiscovery, hlog, undo_append tail _ htail, hshort,
    discoverySeen_foldl_clear]
  exact (hseen i).symm

/-! ### Late dispatches -/

/-- A dispatch from `s` on only lengthens the tail. -/
theorem Undone.observeDispatchFrom {q : Nat} (hq : s ≤ q) (pc : Addr) (discovery_active : Bool)
    (trigger_pc : Addr) (l : List (Fin n)) (h : Undone s long short) :
    Undone s (observeDispatchFrom pc discovery_active trigger_pc q l long).1 short := by
  induction l generalizing long with
  | nil => exact h
  | cons index rest ih =>
    rw [Detector.observeDispatchFrom]
    split_ifs with hadm hact hseen hpend
    · exact ih h
    · apply ih
      obtain ⟨tail, hlog, htail, hbits⟩ := h.log
      refine ⟨h.table, h.timestamp, ⟨⟨q, index⟩ :: tail, by rw [hlog]; rfl, ?_, ?_⟩, h.early⟩
      · rintro w (_ | ⟨_, hw⟩)
        · exact hq
        · exact htail w hw
      · intro i
        have hi := hbits i
        simp only [seen, discoverySeen_set, map_cons, contains_cons] at hi ⊢
        by_cases hidx : i = index
        · -- the bit was clear, so it is clear in the shorter run
          subst hidx
          simp only [seen, Bool.not_eq_eq_eq_not, Bool.not_true] at hseen
          simp [hi, hseen]
        · have hne : (i == index) = false := by simpa using hidx
          rw [hi, if_neg hidx, hne, Bool.false_or]
    · exact h
    · refine ⟨?_, h.timestamp, h.log, h.early⟩
      intro i
      by_cases hidx : i = index
      · subst hidx
        simp only [update_self]
        exact h.table i
      · simp only [update_of_ne hidx]
        exact h.table i
    · exact ih h

end Detector

/-! ## Runs -/

open Detector

/-- The log names only dispatches from below `s`. -/
def Early {n : Nat} (s : Nat) (d : Detector n) : Prop := ∀ w ∈ d.discoverySeenWrites, w.sequence < s

variable {n s : Nat} {es : List Event}

theorem Early.observeDispatchFrom {q : Nat} (hq : q < s) (pc : Addr) (discovery_active : Bool)
    (trigger_pc : Addr) (l : List (Fin n)) {d : Detector n} (h : Early s d) :
    Early s (observeDispatchFrom pc discovery_active trigger_pc q l d).1 := by
  induction l generalizing d with
  | nil => exact h
  | cons index rest ih =>
    rw [Detector.observeDispatchFrom]
    split_ifs with hadm hact hseen hpend
    · exact ih h
    · apply ih
      rintro w (_ | ⟨_, hw⟩)
      · exact hq
      · exact h w hw
    · exact h
    · exact h
    · exact ih h

theorem Early.step {d : Detector n} (h : Early s d) (front : Fin n) {e : Event}
    (he : e.before s = true) : Early s (step front d e) := by
  cases e with
  | observe pc address =>
    simp only [StrideDetector.step, Detector.observe]
    cases lookup d.entries pc with
    | none => exact h
    | some k => exact h
  | observeDispatch pc discovery_active trigger_pc q =>
    have hq : q < s := by simpa [Event.before, Event.sequence?] using he
    exact h.observeDispatchFrom hq pc discovery_active trigger_pc _
  | beginDiscovery trigger_pc => simp [Early, StrideDetector.step, Detector.beginDiscovery]
  | squashDiscovery q => exact fun w hw => h w (undo_subset _ _ w hw)
  | endDiscovery => simp [Early, StrideDetector.step, Detector.endDiscovery]
  | reset => simp [Early, StrideDetector.step, Detector.reset]

theorem Early.run (front : Fin n) {d : Detector n}
    (hes : ∀ e ∈ es, e.before s = true) (h : Early s d) :
    Early s (es.foldl (StrideDetector.step front) d) := by
  induction es generalizing d with
  | nil => exact h
  | cons e es ih =>
    exact ih (fun e' he' => hes e' (mem_cons_of_mem e he')) (h.step front (hes e mem_cons_self))

variable {n : Nat} {s : Nat} {long short : Detector n}

/-- A call that is not a dispatch is made in both runs. -/
theorem Undone.step_both (h : Undone s long short) (front : Fin n) {e : Event}
    (he : e.sequence? = none) : Undone s (step front long e) (step front short e) := by
  cases e with
  | observe pc address => exact h.observe front pc address
  | observeDispatch pc discovery_active trigger_pc sequence => cases he
  | beginDiscovery trigger_pc => exact h.beginDiscovery trigger_pc
  | squashDiscovery q => exact h.squashDiscovery q
  | endDiscovery => exact h.endDiscovery
  | reset => exact Undone.refl (by simp [step, Detector.reset])

/-- Over calls whose dispatches are all from `s` on, the shorter run makes the others. -/
theorem Undone.run (front : Fin n)
    (hlate : ∀ e ∈ es, ∀ q, e.sequence? = some q → s ≤ q) (h : Undone s long short) :
    Undone s (es.foldl (step front) long) ((es.filter (Event.before s)).foldl (step front) short) := by
  induction es generalizing long short with
  | nil => exact h
  | cons e es ih =>
    have hes : ∀ e' ∈ es, ∀ q, e'.sequence? = some q → s ≤ q :=
      fun e' he' => hlate e' (mem_cons_of_mem e he')
    cases he : e.sequence? with
    | none =>
      rw [filter_cons_of_pos (by simp [Event.before, he])]
      exact ih hes (Undone.step_both h front he)
    | some q =>
      have hq : s ≤ q := hlate e mem_cons_self q he
      rw [filter_cons_of_neg (by simp [Event.before, he, hq])]
      apply ih hes
      cases e with
      | observeDispatch pc discovery_active trigger_pc sequence =>
        cases he
        exact h.observeDispatchFrom hq pc discovery_active trigger_pc _
      | _ => cases he

/-- A run in sequence order is a run before `s` and one whose dispatches are all from `s` on. -/
theorem InOrder.split (h : InOrder es) (s : Nat) :
    ∃ pre post, es = pre ++ post ∧ (∀ e ∈ pre, e.before s = true) ∧
      ∀ e ∈ post, ∀ q, e.sequence? = some q → s ≤ q := by
  refine ⟨es.takeWhile (Event.before s), es.dropWhile (Event.before s),
    takeWhile_append_dropWhile.symm, fun e he => mem_takeWhile_imp he, ?_⟩
  have hpost : InOrder (es.dropWhile (Event.before s)) := by
    have hsub := dropWhile_sublist (Event.before s) (l := es)
    exact List.Pairwise.sublist (hsub.filterMap _) h
  cases hd : es.dropWhile (Event.before s) with
  | nil => simp
  | cons e0 post =>
    have hne : es.dropWhile (Event.before s) ≠ [] := by simp [hd]
    have he0 : e0.before s = false := by
      have hhead := head_dropWhile_not (Event.before s) hne
      simpa [hd] using hhead
    obtain ⟨q0, hq0, hs⟩ : ∃ q0, e0.sequence? = some q0 ∧ s ≤ q0 := by
      cases hq : e0.sequence? with
      | none => simp [Event.before, hq] at he0
      | some q0 => exact ⟨q0, rfl, by simpa [Event.before, hq] using he0⟩
    rw [hd, InOrder, pairwise_filterMap, pairwise_cons] at hpost
    rintro e (_ | ⟨_, he⟩) q hq
    · rw [hq0] at hq
      cases hq
      exact hs
    · exact Nat.le_trans hs (hpost.1 e he q0 hq0 q hq).le

/-- The seen bits after a squash at `s` are those of the same calls without the dispatches from `s`
    on. -/
theorem run_squash_seen (h : InOrder es) (s : Nat) (i : Fin (n + 1)) :
    (run n (es ++ [Event.squashDiscovery s])).seen i
      = (run n ((es ++ [Event.squashDiscovery s]).filter (Event.before s))).seen i := by
  obtain ⟨pre, post, rfl, hpre, hpost⟩ := h.split s
  have hearly : Early s (run n pre) := Early.run 0 hpre (fun w hw => by cases hw)
  have hundone := Undone.run 0 hpost (Undone.refl hearly)
  have hfilter : pre.filter (Event.before s) = pre := filter_eq_self.mpr hpre
  have hrest : [Event.squashDiscovery s].filter (Event.before s) = [.squashDiscovery s] := rfl
  rw [filter_append, filter_append, hfilter, hrest]
  simp only [run, foldl_append, foldl_cons, foldl_nil]
  have hshort := Undone.refl (s := s) hundone.early
  exact (hundone.seen_squash i).trans (hshort.seen_squash i).symm

end Gem5Dvr.StrideDetector
