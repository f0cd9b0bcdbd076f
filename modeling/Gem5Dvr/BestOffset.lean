/-
  The best-offset prefetcher (`mem/cache/prefetch/bop.cc` 117-266, `bop.hh`), with the delay queue
  off.

    1. The functions of the source: `hash`, `insertIntoRR`, `tag`, `testRR`, `bestOffsetLearning` in
       its two halves (the score, then the turn of the offset list), `calculatePrefetch` and
       `notifyFill`.
    2. `Watch`: beside the prefetcher, what each entry of the recent-requests table was written for,
       and for each offset how often in the phase its line was in the table.
    3. `Learns`: a score rises just when the line is in the table, and the first phase ends with an
       offset of maximal score that is a positive multiple of the stride.

  The crux is `tag`.  It shifts an address by the block size where the number of the line is the
  address shifted by its logarithm, so a tag less an offset is in general not the tag of the line
  that offset below.  `Tells` is the condition that at one access the tags the table holds do stand
  to each other as their lines; where it always holds, the learning finds the stride.

  The list of offsets is any list of 16-bit offsets without zero.
-/
import Mathlib.Data.Fintype.Basic
import Mathlib.Logic.Function.Basic
import Mathlib.Tactic.Ring
import Mathlib.Tactic.Linarith
import Gem5Dvr.Lib.Trace

namespace Gem5Dvr.BestOffset

open List Function

/-! ## The functions of the source -/

abbrev Addr := BitVec 64

inductive RRWay where
  | Left
  | Right
  deriving DecidableEq

/-- The value of the enumerator. -/
def RRWay.toNat : RRWay → Nat
  | Left => 0
  | Right => 1

/-- The parameters, past the checks of the constructor: the number of entries and the block size are
    powers of two.  `shiftPast` is what the machine answers to a shift by 64 or more, which the
    language leaves open. -/
structure Params where
  lBlkSize : Nat
  lBlkSize_lt : lBlkSize < 32
  tagBits : Nat
  tagBits_lt : tagBits < 32
  rrBits : Nat
  rrBits_lt : rrBits < 32
  scoreMax : Nat
  roundMax : Nat
  badScore : Nat
  listSize : Nat
  listSize_pos : 0 < listSize
  offset : Fin listSize → Int
  offset_ne_zero : ∀ q, offset q ≠ 0
  offset_int16 : ∀ q, -2 ^ 15 ≤ offset q ∧ offset q < 2 ^ 15
  shiftPast : Addr → Nat → Addr

namespace Params

variable (p : Params)

def blkSize : Nat := 2 ^ p.lBlkSize

def rrEntries : Nat := 2 ^ p.rrBits

theorem rrEntries_pos : 0 < p.rrEntries := Nat.two_pow_pos p.rrBits

def tagMask : Nat := 2 ^ p.tagBits - 1

/-- `addr >> n`. -/
def shiftRight (addr : Addr) (n : Nat) : Addr :=
  if n < 64 then addr >>> n else p.shiftPast addr n

/-- `BOP::tag`: the shift is by the block size. -/
def tag (addr : Addr) : Addr := p.shiftRight addr p.blkSize &&& BitVec.ofNat 64 p.tagMask

/-- `BOP::hash`, a position of the table. -/
def hash (addr : Addr) (way : RRWay) : Fin p.rrEntries :=
  let hash1 := addr >>> way.toNat
  let hash2 := hash1 >>> p.rrBits
  ⟨(hash1 ^^^ hash2).toNat &&& (p.rrEntries - 1),
    Nat.lt_of_le_of_lt Nat.and_le_right (Nat.sub_lt p.rrEntries_pos Nat.one_pos)⟩

/-- An offset as an address, with its sign extended. -/
def offsetAddr (q : Fin p.listSize) : Addr := BitVec.ofInt 64 (p.offset q)

/-- The number of the line an address lies in. -/
def line (addr : Addr) : Int := (addr.toNat / p.blkSize : Nat)

/-- The begin of the offset list. -/
def begin : Fin p.listSize := ⟨0, p.listSize_pos⟩

end Params

/-- The state of the prefetcher.  `score` are the second fields of `offsetsList`, eight bits wide,
    and `iter` is `offsetsListIterator`. -/
structure Bop (p : Params) where
  rrLeft : Fin p.rrEntries → Addr
  rrRight : Fin p.rrEntries → Addr
  score : Fin p.listSize → Nat
  iter : Fin p.listSize
  issuePrefetchRequests : Bool
  bestOffset : Addr
  phaseBestOffset : Addr
  bestScore : Nat
  round : Nat

variable {p : Params}

namespace Bop

/-- The state the constructor leaves. -/
def init (p : Params) : Bop p where
  rrLeft := fun _ => 0
  rrRight := fun _ => 0
  score := fun _ => 0
  iter := p.begin
  issuePrefetchRequests := false
  bestOffset := 1
  phaseBestOffset := 0
  bestScore := 0
  round := 0

variable (s : Bop p)

def insertIntoRR (addr : Addr) : RRWay → Bop p
  | .Left => { s with rrLeft := update s.rrLeft (p.hash addr .Left) addr }
  | .Right => { s with rrRight := update s.rrRight (p.hash addr .Right) addr }

def resetScores : Bop p := { s with score := fun _ => 0 }

def testRR (addr : Addr) : Bool :=
  decide (∃ i, s.rrLeft i = addr) || decide (∃ i, s.rrRight i = addr)

/-- The score of the offset under test after a hit; an eight-bit counter. -/
def raised : Nat := (s.score s.iter + 1) % 256

/-- A hit. -/
def raise : Bop p :=
  if s.raised > s.bestScore then
    { s with
      score := update s.score s.iter s.raised
      bestScore := s.raised
      phaseBestOffset := p.offsetAddr s.iter }
  else { s with score := update s.score s.iter s.raised }

/-- The first half of `bestOffsetLearning`: the offset under test is scored. -/
def scoreOffset (x : Addr) : Bop p := if s.testRR (x - p.offsetAddr s.iter) then s.raise else s

/-- The offset under test is the last one. -/
def lastOffset : Bool := decide (s.iter.val + 1 = p.listSize)

/-- The round that ends is the last one of its phase. -/
def phaseOver : Bool :=
  decide (s.bestScore ≥ p.scoreMax) || decide ((s.round + 1) % 2 ^ 32 = p.roundMax)

/-- The end of a phase. -/
def endPhase : Bop p := { s with
    bestOffset := s.phaseBestOffset
    round := 0
    bestScore := 0
    phaseBestOffset := 0
    issuePrefetchRequests := true }.resetScores

/-- The end of a round. -/
def endRound : Bop p :=
  if s.phaseOver then { s with iter := p.begin }.endPhase
  else if s.bestScore ≤ p.badScore then
    { s with iter := p.begin, round := (s.round + 1) % 2 ^ 32, issuePrefetchRequests := false }
  else { s with iter := p.begin, round := (s.round + 1) % 2 ^ 32 }

/-- The second half of `bestOffsetLearning`: the iterator moves on. -/
def moveOn : Bop p :=
  if h : s.iter.val + 1 < p.listSize then { s with iter := ⟨s.iter.val + 1, h⟩ } else s.endRound

def bestOffsetLearning (x : Addr) : Bop p := (s.scoreOffset x).moveOn

/-- `calculatePrefetch`, with the address it asks for. -/
def calculatePrefetch (addr : Addr) : Bop p × Option Addr :=
  let s' := (s.insertIntoRR (p.tag addr) .Left).bestOffsetLearning (p.tag addr)
  (s', if s'.issuePrefetchRequests then some (addr + s'.bestOffset <<< p.lBlkSize) else none)

def notifyFill (addr : Addr) (isHWPrefetch : Bool) : Bop p :=
  if isHWPrefetch && s.issuePrefetchRequests then
    s.insertIntoRR (p.tag addr - s.bestOffset) .Right
  else s

end Bop

/-- What the prefetcher is told of. -/
inductive Event where
  | access (addr : Addr)
  | fill (addr : Addr) (isHWPrefetch : Bool)

/-- The addresses accessed. -/
def accesses : List Event → List Addr
  | [] => []
  | .access addr :: es => addr :: accesses es
  | .fill _ _ :: es => accesses es

@[simp] theorem accesses_append (es fs : List Event) :
    accesses (es ++ fs) = accesses es ++ accesses fs := by
  induction es with
  | nil => rfl
  | cons e es ih =>
    cases e with
    | access addr => exact congrArg (addr :: ·) ih
    | fill addr hw => exact ih

/-! ## The lines behind the table -/

/-- What an entry of the table was written for: the line of an address, less the offset in use at
    the fill of a prefetch. -/
structure Record where
  addr : Addr
  back : Int

namespace Record

variable (p) (r : Record)

def tag : Addr := p.tag r.addr - BitVec.ofInt 64 r.back

def line : Int := p.line r.addr - r.back

end Record

/-- The prefetcher, what its entries were written for, how often in this phase each offset under
    test had its line in the table, and how many phases are over. -/
structure Watch (p : Params) where
  bop : Bop p
  left : Fin p.rrEntries → Option Record
  right : Fin p.rrEntries → Option Record
  hits : Fin p.listSize → Nat
  phases : Nat

namespace Watch

def init (p : Params) : Watch p := ⟨Bop.init p, fun _ => none, fun _ => none, fun _ => 0, 0⟩

variable (w : Watch p)

/-- An access writes its tag. -/
def insert (addr : Addr) : Watch p := { w with
    bop := w.bop.insertIntoRR (p.tag addr) .Left
    left := update w.left (p.hash (p.tag addr) .Left) (some ⟨addr, 0⟩) }

/-- A line is in the table. -/
def Holds (l : Int) : Prop :=
  ∃ i, (w.left i).map (Record.line p) = some l ∨ (w.right i).map (Record.line p) = some l

instance (l : Int) : Decidable (w.Holds l) :=
  inferInstanceAs (Decidable (∃ i, (w.left i).map (Record.line p) = some l ∨
    (w.right i).map (Record.line p) = some l))

/-- The line below the line of `addr` by the offset under test. -/
def wanted (addr : Addr) : Int := p.line addr - p.offset w.bop.iter

/-- The hits after an access whose tag has been written. -/
def tally (addr : Addr) : Fin p.listSize → Nat :=
  if w.Holds (w.wanted addr) then update w.hits w.bop.iter (w.hits w.bop.iter + 1)
  else w.hits

/-- The access ends a phase. -/
def endsPhase (addr : Addr) : Bool :=
  let scored := (w.insert addr).bop.scoreOffset (p.tag addr)
  scored.lastOffset && scored.phaseOver

/-- The access, with what is observed of it. -/
def access (addr : Addr) : Watch p :=
  let v := w.insert addr
  { v with
    bop := (w.bop.calculatePrefetch addr).1
    hits := if w.endsPhase addr then fun _ => 0 else v.tally addr
    phases := if w.endsPhase addr then w.phases + 1 else w.phases }

/-- The fill, with what is observed of it. -/
def fill (addr : Addr) (isHWPrefetch : Bool) : Watch p := { w with
    bop := w.bop.notifyFill addr isHWPrefetch
    right :=
      if isHWPrefetch && w.bop.issuePrefetchRequests then
        update w.right (p.hash (p.tag addr - w.bop.bestOffset) .Right)
          (some ⟨addr, w.bop.bestOffset.toInt⟩)
      else w.right }

def step (w : Watch p) : Event → Watch p
  | .access addr => w.access addr
  | .fill addr isHWPrefetch => w.fill addr isHWPrefetch

end Watch

/-- The prefetcher after the events, watched from the start. -/
def watch (p : Params) (es : List Event) : Watch p := es.foldl Watch.step (Watch.init p)

/-! ## Learning, and when it finds the stride -/

/-- A run whose accesses go to the lines `L`, `L + D`, `L + 2 D`, … -/
structure Strided (p : Params) (L D : Int) (es : List Event) : Prop where
  mem : ∃ q, p.offset q = D
  lines : ∀ n : Fin (accesses es).length, p.line ((accesses es).get n) = L + n * D

/-- At an access the score of the offset under test rises by one when the line below by the offset
    is in the table, and no score changes otherwise. -/
def Scored (w : Watch p) (addr : Addr) : Prop :=
  let v := w.insert addr
  ∀ q, (v.bop.scoreOffset (p.tag addr)).score q =
    if q = w.bop.iter ∧ v.Holds (v.wanted addr) then w.bop.score q + 1 else w.bop.score q

/-- The access that ends a phase leaves an offset of maximal score, a positive multiple of the
    stride whose line was in the table when it was tested. -/
def Chosen (D : Int) (w : Watch p) (addr : Addr) : Prop :=
  let v := w.insert addr
  ∃ q, (w.access addr).bop.bestOffset = p.offsetAddr q ∧
    (∀ q', (v.bop.scoreOffset (p.tag addr)).score q' ≤ (v.bop.scoreOffset (p.tag addr)).score q) ∧
    0 < v.tally addr q ∧ ∃ j : Nat, 0 < j ∧ p.offset q = j * D

/-- The learning finds the stride. -/
def Learns (p : Params) (D : Int) (es : List Event) : Prop :=
  ∀ pre addr, pre ++ [.access addr] <+: es → Scored (watch p pre) addr ∧
      ((watch p pre).phases = 0 → (watch p pre).endsPhase addr = true → Chosen D (watch p pre) addr)

/-- An entry has the tag looked up just when it was written for the line looked up. -/
def Agrees (v : Watch p) (addr : Addr) (r : Record) : Prop :=
  r.tag p = p.tag addr - p.offsetAddr v.bop.iter ↔ r.line p = v.wanted addr

instance (v : Watch p) (addr : Addr) (r : Record) : Decidable (Agrees v addr r) :=
  inferInstanceAs (Decidable (_ ↔ _))

/-- At one access the tags of the table tell its lines, and no entry that was never written is taken
    for a line. -/
def Tells (v : Watch p) (addr : Addr) : Prop :=
  (∀ i, (∀ r ∈ v.left i, Agrees v addr r) ∧ ∀ r ∈ v.right i, Agrees v addr r) ∧
    ∀ i, v.left i = none ∨ v.right i = none → p.tag addr ≠ p.offsetAddr v.bop.iter

instance (v : Watch p) (addr : Addr) : Decidable (Tells v addr) :=
  inferInstanceAs (Decidable (_ ∧ _))

/-- The condition on a step: the tags tell the lines, a score that rises has room in its eight bits,
    and the first phase does not end before some offset has met its line in the table. -/
def Good (w : Watch p) : Event → Prop
  | .access addr =>
      Tells (w.insert addr) addr ∧
        ((w.insert addr).Holds ((w.insert addr).wanted addr) → w.bop.score w.bop.iter < 255) ∧
        (w.phases = 0 → w.endsPhase addr = true → ∃ q, 0 < (w.insert addr).tally addr q)
  | .fill _ _ => True

instance (w : Watch p) : (e : Event) → Decidable (Good w e)
  | .access _ => inferInstanceAs (Decidable (_ ∧ _))
  | .fill _ _ => inferInstanceAs (Decidable True)

/-! ## The table -/

/-- Each entry holds the tag of what it was written for, and zero before. -/
structure Recorded (w : Watch p) : Prop where
  left : ∀ i, w.bop.rrLeft i = (w.left i).elim 0 (Record.tag p)
  right : ∀ i, w.bop.rrRight i = (w.right i).elim 0 (Record.tag p)

theorem recorded_init : Recorded (Watch.init p) := ⟨fun _ => rfl, fun _ => rfl⟩

theorem Recorded.insert {w : Watch p} (h : Recorded w) (addr : Addr) :
    Recorded (w.insert addr) := by
  refine ⟨fun i => ?_, h.right⟩
  show update w.bop.rrLeft _ _ i = (update w.left _ _ i).elim 0 (Record.tag p)
  by_cases hi : i = p.hash (p.tag addr) .Left
  · subst hi
    rw [update_self, update_self]
    show p.tag addr = p.tag addr - BitVec.ofInt 64 0
    simp
  · rw [update_of_ne hi, update_of_ne hi]
    exact h.left i

theorem Recorded.fill {w : Watch p} (h : Recorded w) (addr : Addr) (hw : Bool) :
    Recorded (w.fill addr hw) := by
  by_cases hc : (hw && w.bop.issuePrefetchRequests) = true
  · have hb : (w.fill addr hw).bop = w.bop.insertIntoRR (p.tag addr - w.bop.bestOffset) .Right :=
      if_pos hc
    have hr : (w.fill addr hw).right = _ := if_pos hc
    refine ⟨fun i => ?_, fun i => ?_⟩
    · rw [hb]
      exact h.left i
    · rw [hb, hr]
      show update w.bop.rrRight _ _ i = _
      by_cases hi : i = p.hash (p.tag addr - w.bop.bestOffset) .Right
      · subst hi
        rw [update_self, update_self]
        show _ = p.tag addr - BitVec.ofInt 64 w.bop.bestOffset.toInt
        rw [BitVec.ofInt_toInt]
      · rw [update_of_ne hi, update_of_ne hi]
        exact h.right i
  · have hb : (w.fill addr hw).bop = w.bop := if_neg hc
    have hr : (w.fill addr hw).right = w.right := if_neg hc
    refine ⟨fun i => ?_, fun i => ?_⟩
    · rw [hb]
      exact h.left i
    · rw [hb, hr]
      exact h.right i

/-- An entry is taken for the line looked up just when it was written for it. -/
theorem entry_eq_iff {v : Watch p} {addr x : Addr} {o : Option Record}
    (hx : x = o.elim 0 (Record.tag p)) (hagree : ∀ r ∈ o, Agrees v addr r)
    (hnone : o = none → p.tag addr ≠ p.offsetAddr v.bop.iter) :
    x = p.tag addr - p.offsetAddr v.bop.iter ↔ o.map (Record.line p) = some (v.wanted addr) := by
  cases o with
  | none =>
    have hne : p.tag addr - p.offsetAddr v.bop.iter ≠ 0 := by
      intro h0
      exact hnone rfl (by simpa [BitVec.sub_eq_iff_eq_add] using h0)
    subst hx
    exact ⟨fun h => absurd h hne.symm, fun h => by simp at h⟩
  | some r =>
    subst hx
    exact (hagree r rfl).trans (by simp)

/-- Where the tags tell the lines, the lookup finds what it should. -/
theorem Recorded.testRR_iff {v : Watch p} (h : Recorded v) {addr : Addr} (ht : Tells v addr) :
    v.bop.testRR (p.tag addr - p.offsetAddr v.bop.iter) = true ↔ v.Holds (v.wanted addr) := by
  have hleft : ∀ i, v.bop.rrLeft i = p.tag addr - p.offsetAddr v.bop.iter ↔
      (v.left i).map (Record.line p) = some (v.wanted addr) :=
    fun i => entry_eq_iff (h.left i) (ht.1 i).1 fun h0 => ht.2 i (Or.inl h0)
  have hright : ∀ i, v.bop.rrRight i = p.tag addr - p.offsetAddr v.bop.iter ↔
      (v.right i).map (Record.line p) = some (v.wanted addr) :=
    fun i => entry_eq_iff (h.right i) (ht.1 i).2 fun h0 => ht.2 i (Or.inr h0)
  show (decide (∃ i, _) || decide (∃ i, _)) = true ↔ _
  rw [Bool.or_eq_true, decide_eq_true_iff, decide_eq_true_iff]
  constructor
  · rintro (⟨i, hi⟩ | ⟨i, hi⟩)
    · exact ⟨i, Or.inl ((hleft i).mp hi)⟩
    · exact ⟨i, Or.inr ((hright i).mp hi)⟩
  · rintro ⟨i, hi | hi⟩
    · exact Or.inl ⟨i, (hleft i).mpr hi⟩
    · exact Or.inr ⟨i, (hright i).mpr hi⟩

/-! ## The scores -/

/-- The scores are the hits of the phase, and the best score is one of them. -/
structure Scores (s : Bop p) (hits : Fin p.listSize → Nat) : Prop where
  score : s.score = hits
  le_best : ∀ q, hits q ≤ s.bestScore
  champion : s.bestScore = 0 ∨ ∃ q, s.phaseBestOffset = p.offsetAddr q ∧ hits q = s.bestScore

theorem scores_init : Scores (Bop.init p) (fun _ => 0) := ⟨rfl, fun _ => Nat.le_refl 0, Or.inl rfl⟩

/-- What a hit does. -/
theorem raise_spec (s : Bop p) :
    s.raise.score = update s.score s.iter s.raised ∧ s.raise.iter = s.iter ∧
      s.raise.round = s.round ∧ s.bestScore ≤ s.raise.bestScore ∧
      s.raised ≤ s.raise.bestScore := by
  unfold Bop.raise
  split
  · next hgt => exact ⟨rfl, rfl, rfl, Nat.le_of_lt hgt, Nat.le_refl _⟩
  · next hle => exact ⟨rfl, rfl, rfl, Nat.le_refl _, Nat.le_of_not_lt hle⟩

theorem Scores.raise {s : Bop p} {hits : Fin p.listSize → Nat} (h : Scores s hits)
    (hsmall : hits s.iter < 255) :
    Scores s.raise (update hits s.iter (hits s.iter + 1)) := by
  have hraised : s.raised = hits s.iter + 1 := by
    show (s.score s.iter + 1) % 256 = _
    rw [h.score]
    omega
  obtain ⟨hscore, -, -, hbest, hle⟩ := raise_spec s
  refine ⟨by rw [hscore, h.score, hraised], fun q => ?_, ?_⟩
  · by_cases hq : q = s.iter
    · subst hq
      rw [update_self, ← hraised]
      exact hle
    · rw [update_of_ne hq]
      exact Nat.le_trans (h.le_best q) hbest
  · unfold Bop.raise
    split
    · exact Or.inr ⟨s.iter, rfl, by rw [update_self]; exact hraised.symm⟩
    · next hle =>
      -- the champion of before has at least this score, so it is another offset
      rcases h.champion with h0 | ⟨q, hq, hmax⟩
      · rw [hraised] at hle
        omega
      · refine Or.inr ⟨q, hq, ?_⟩
        have hne : q ≠ s.iter := by
          rintro rfl
          omega
        rw [update_of_ne hne]
        exact hmax

/-- The iterator moves on inside the round. -/
theorem moveOn_inside {s : Bop p} (h : s.lastOffset = false) :
    ∃ hlt : s.iter.val + 1 < p.listSize, s.moveOn = { s with iter := ⟨s.iter.val + 1, hlt⟩ } := by
  have hne : s.iter.val + 1 ≠ p.listSize := of_decide_eq_false h
  have hlt : s.iter.val + 1 < p.listSize := by
    omega
  exact ⟨hlt, dif_pos hlt⟩

/-- The iterator leaves the last offset. -/
theorem moveOn_last {s : Bop p} (h : s.lastOffset = true) : s.moveOn = s.endRound := by
  have heq : s.iter.val + 1 = p.listSize := of_decide_eq_true h
  exact dif_neg (by omega)

/-- The end of a round that is not the end of its phase. -/
theorem endRound_goes {s : Bop p} (hover : s.phaseOver = false) :
    s.endRound.score = s.score ∧ s.endRound.bestScore = s.bestScore ∧
      s.endRound.phaseBestOffset = s.phaseBestOffset ∧
      s.endRound.round = (s.round + 1) % 2 ^ 32 ∧ s.endRound.iter = p.begin := by
  unfold Bop.endRound
  rw [if_neg (by simp [hover])]
  split <;> exact ⟨rfl, rfl, rfl, rfl, rfl⟩

theorem endRound_silent {s : Bop p} (h : s.issuePrefetchRequests = false)
    (hover : s.phaseOver = false) : s.endRound.issuePrefetchRequests = false := by
  unfold Bop.endRound
  rw [if_neg (by simp [hover])]
  split
  · rfl
  · exact h

/-- The end of a phase. -/
theorem endRound_over {s : Bop p} (hover : s.phaseOver = true) :
    s.endRound = { s with iter := p.begin }.endPhase := if_pos hover

/-- The iterator moves on, after the score. -/
theorem Scores.moveOn {s : Bop p} {hits : Fin p.listSize → Nat} (h : Scores s hits) :
    Scores s.moveOn (if s.lastOffset && s.phaseOver then fun _ => 0 else hits) := by
  by_cases hlast : s.lastOffset = true
  · rw [moveOn_last hlast]
    by_cases hover : s.phaseOver = true
    · rw [if_pos (by simp [hlast, hover]), endRound_over hover]
      exact ⟨rfl, fun _ => Nat.le_refl 0, Or.inl rfl⟩
    · rw [Bool.not_eq_true] at hover
      obtain ⟨hscore, hbest, hphase, -, -⟩ := endRound_goes hover
      rw [if_neg (by simp [hover])]
      refine ⟨hscore.trans h.score, fun q => ?_, ?_⟩
      · rw [hbest]
        exact h.le_best q
      · rw [hbest, hphase]
        exact h.champion
  · rw [Bool.not_eq_true] at hlast
    obtain ⟨hlt, hmove⟩ := moveOn_inside hlast
    rw [if_neg (by simp [hlast]), hmove]
    exact ⟨h.score, h.le_best, h.champion⟩

/-! ## One access -/

theorem scoreOffset_issue (s : Bop p) (x : Addr) :
    (s.scoreOffset x).issuePrefetchRequests = s.issuePrefetchRequests := by
  unfold Bop.scoreOffset Bop.raise
  split
  · split <;> rfl
  · rfl

/-- The tables, which the learning only reads. -/
theorem bestOffsetLearning_tables (s : Bop p) (x : Addr) :
    (s.bestOffsetLearning x).rrLeft = s.rrLeft ∧ (s.bestOffsetLearning x).rrRight = s.rrRight := by
  have hscore : (s.scoreOffset x).rrLeft = s.rrLeft ∧ (s.scoreOffset x).rrRight = s.rrRight := by
    unfold Bop.scoreOffset Bop.raise
    split
    · split <;> exact ⟨rfl, rfl⟩
    · exact ⟨rfl, rfl⟩
  have hmove : ∀ t : Bop p, t.moveOn.rrLeft = t.rrLeft ∧ t.moveOn.rrRight = t.rrRight := by
    intro t
    unfold Bop.moveOn Bop.endRound
    split
    · exact ⟨rfl, rfl⟩
    · split
      · exact ⟨rfl, rfl⟩
      · split <;> exact ⟨rfl, rfl⟩
  exact ⟨(hmove _).1.trans hscore.1, (hmove _).2.trans hscore.2⟩

/-- What an access leaves of the prefetcher. -/
theorem access_bop (w : Watch p) (addr : Addr) :
    (w.access addr).bop = ((w.insert addr).bop.scoreOffset (p.tag addr)).moveOn := rfl

theorem Recorded.access {w : Watch p} (h : Recorded w) (addr : Addr) :
    Recorded (w.access addr) := by
  have hins := h.insert addr
  have htab := bestOffsetLearning_tables (w.insert addr).bop (p.tag addr)
  refine ⟨fun i => ?_, fun i => ?_⟩
  · exact (congrFun htab.1 i).trans (hins.left i)
  · exact (congrFun htab.2 i).trans (hins.right i)

/-- The offset under test has been scored. -/
theorem Scores.scoreOffset {w : Watch p} (h : Scores w.bop w.hits) (hrec : Recorded w)
    {addr : Addr} (ht : Tells (w.insert addr) addr)
    (hroom : (w.insert addr).Holds ((w.insert addr).wanted addr) → w.bop.score w.bop.iter < 255) :
    Scores ((w.insert addr).bop.scoreOffset (p.tag addr)) ((w.insert addr).tally addr) := by
  have hins : Scores (w.insert addr).bop w.hits := ⟨h.score, h.le_best, h.champion⟩
  have hiff := (hrec.insert addr).testRR_iff ht
  by_cases hin : (w.insert addr).Holds ((w.insert addr).wanted addr)
  · have hs : (w.insert addr).bop.scoreOffset (p.tag addr) = (w.insert addr).bop.raise :=
      if_pos (hiff.mpr hin)
    have htally : (w.insert addr).tally addr = _ := if_pos hin
    rw [hs, htally]
    exact hins.raise (h.score ▸ hroom hin)
  · have hs : (w.insert addr).bop.scoreOffset (p.tag addr) = (w.insert addr).bop :=
      if_neg fun hc => hin (hiff.mp hc)
    have htally : (w.insert addr).tally addr = w.hits := if_neg hin
    rw [hs, htally]
    exact hins

theorem Scores.scored {w : Watch p} (h : Scores w.bop w.hits) {addr : Addr}
    (hs : Scores ((w.insert addr).bop.scoreOffset (p.tag addr)) ((w.insert addr).tally addr)) :
    Scored w addr := by
  intro q
  show ((w.insert addr).bop.scoreOffset (p.tag addr)).score q = _
  rw [hs.score, h.score]
  by_cases hin : (w.insert addr).Holds ((w.insert addr).wanted addr)
  · have htally : (w.insert addr).tally addr =
        update w.hits w.bop.iter (w.hits w.bop.iter + 1) := if_pos hin
    rw [htally]
    by_cases hq : q = w.bop.iter
    · subst hq
      rw [if_pos ⟨rfl, hin⟩, update_self]
    · rw [if_neg fun hc => hq hc.1, update_of_ne hq]
  · have htally : (w.insert addr).tally addr = w.hits := if_neg hin
    rw [htally, if_neg fun hc => hin hc.2]

/-! ## The first phase -/

/-- Until the first phase ends no prefetch is issued, the table holds lines accessed, and only
    positive multiples of the stride have been hit.  `n` accesses have been made. -/
structure First (L D : Int) (n : Nat) (w : Watch p) : Prop where
  issue : w.bop.issuePrefetchRequests = false
  right : ∀ i, w.right i = none
  left : ∀ i r, w.left i = some r → ∃ k : Nat, k < n ∧ r.line p = L + k * D
  multiple : ∀ q, 0 < w.hits q → ∃ j : Nat, 0 < j ∧ p.offset q = j * D

theorem first_init (L D : Int) : First L D 0 (Watch.init p) where
  issue := rfl
  right := fun _ => rfl
  left := fun _ _ h => by cases h
  multiple := fun _ h => absurd h (Nat.lt_irrefl 0)

variable {L D : Int} {n : Nat} {w : Watch p} {addr : Addr}

theorem First.insert (h : First L D n w) (hline : p.line addr = L + n * D) :
    First L D (n + 1) (w.insert addr) where
  issue := h.issue
  right := h.right
  left := fun i r hr => by
    have hr' : update w.left (p.hash (p.tag addr) .Left) (some ⟨addr, 0⟩) i = some r := hr
    by_cases hi : i = p.hash (p.tag addr) .Left
    · subst hi
      rw [update_self] at hr'
      cases hr'
      exact ⟨n, Nat.lt_succ_self n, by rw [← hline]; exact Int.sub_zero _⟩
    · rw [update_of_ne hi] at hr'
      obtain ⟨k, hk, hl⟩ := h.left i r hr'
      exact ⟨k, Nat.lt_succ_of_lt hk, hl⟩
  multiple := h.multiple

/-- The line looked up is one accessed before, so the offset is a multiple of the stride. -/
theorem First.holds (h : First L D (n + 1) w) (hline : p.line addr = L + n * D)
    (hin : w.Holds (w.wanted addr)) : ∃ j : Nat, 0 < j ∧ p.offset w.bop.iter = j * D := by
  obtain ⟨i, hi | hi⟩ := hin
  · obtain ⟨r, hr, hl⟩ := Option.map_eq_some_iff.mp hi
    obtain ⟨k, hk, hrk⟩ := h.left i r hr
    have hd : p.offset w.bop.iter = ((n - k : Nat) : Int) * D := by
      have hw : L + k * D = L + n * D - p.offset w.bop.iter := by
        rw [← hrk, hl, ← hline]
        rfl
      rw [Nat.cast_sub (Nat.le_of_lt_succ hk), sub_mul]
      linarith only [hw]
    refine ⟨n - k, Nat.pos_of_ne_zero fun h0 => ?_, hd⟩
    rw [h0] at hd
    exact p.offset_ne_zero w.bop.iter (by simpa using hd)
  · rw [h.right i] at hi
    cases hi

theorem First.tally (h : First L D n w) (hline : p.line addr = L + n * D) (q : Fin p.listSize)
    (hq : 0 < (w.insert addr).tally addr q) : ∃ j : Nat, 0 < j ∧ p.offset q = j * D := by
  have hins := h.insert hline
  by_cases hin : (w.insert addr).Holds ((w.insert addr).wanted addr)
  · by_cases hiter : q = w.bop.iter
    · subst hiter
      exact hins.holds hline hin
    · have htally : (w.insert addr).tally addr =
          update w.hits w.bop.iter (w.hits w.bop.iter + 1) := if_pos hin
      rw [htally, update_of_ne hiter] at hq
      exact h.multiple q hq
  · have htally : (w.insert addr).tally addr = w.hits := if_neg hin
    rw [htally] at hq
    exact h.multiple q hq

theorem First.access (h : First L D n w) (hline : p.line addr = L + n * D)
    (hgoes : w.endsPhase addr = false) : First L D (n + 1) (w.access addr) where
  issue := by
    have ht : ((w.insert addr).bop.scoreOffset (p.tag addr)).issuePrefetchRequests = false :=
      (scoreOffset_issue _ _).trans h.issue
    rw [access_bop]
    unfold Watch.endsPhase at hgoes
    generalize (w.insert addr).bop.scoreOffset (p.tag addr) = t at ht hgoes ⊢
    by_cases hlast : t.lastOffset = true
    · rw [moveOn_last hlast]
      exact endRound_silent ht (by simpa [hlast] using hgoes)
    · rw [Bool.not_eq_true] at hlast
      obtain ⟨hlt, hmove⟩ := moveOn_inside hlast
      rw [hmove]
      exact ht
  right := h.right
  left := (h.insert hline).left
  multiple := fun q hq => by
    have hhits : (w.access addr).hits = (w.insert addr).tally addr := by
      show (if w.endsPhase addr then _ else _) = _
      rw [if_neg (by simp [hgoes])]
    rw [hhits] at hq
    exact h.tally hline q hq

/-- The access that ends the first phase. -/
theorem First.chosen (h : First L D n w) (hline : p.line addr = L + n * D)
    (hs : Scores ((w.insert addr).bop.scoreOffset (p.tag addr)) ((w.insert addr).tally addr))
    (hends : w.endsPhase addr = true) (hmet : ∃ q, 0 < (w.insert addr).tally addr q) :
    Chosen D w addr := by
  obtain ⟨q, hq⟩ := hmet
  rcases hs.champion with h0 | ⟨best, hbest, hmax⟩
  · have hle := hs.le_best q
    omega
  · have hpos : 0 < (w.insert addr).tally addr best := by
      rw [hmax]
      exact Nat.lt_of_lt_of_le hq (hs.le_best q)
    have hover := Bool.and_eq_true_iff.mp hends
    refine ⟨best, ?_, fun q' => ?_, hpos, h.tally hline best hpos⟩
    · rw [access_bop, moveOn_last hover.1, endRound_over hover.2]
      exact hbest
    · rw [hs.score, hmax]
      exact hs.le_best q'

/-! ## The run -/

/-- The invariant after `n` accesses. -/
structure Inv (L D : Int) (n : Nat) (w : Watch p) : Prop where
  recorded : Recorded w
  scores : Scores w.bop w.hits
  first : w.phases = 0 → First L D n w

theorem inv_init (L D : Int) : Inv L D 0 (Watch.init p) :=
  ⟨recorded_init, scores_init, fun _ => first_init L D⟩

theorem Inv.access (h : Inv L D n w) (hline : p.line addr = L + n * D)
    (hs : Scores ((w.insert addr).bop.scoreOffset (p.tag addr)) ((w.insert addr).tally addr)) :
    Inv L D (n + 1) (w.access addr) where
  recorded := h.recorded.access addr
  scores := hs.moveOn
  first := fun h0 => by
    have hphases : (if w.endsPhase addr then w.phases + 1 else w.phases) = 0 := h0
    by_cases hends : w.endsPhase addr = true
    · rw [if_pos hends] at hphases
      omega
    · rw [if_neg hends] at hphases
      exact (h.first hphases).access hline (Bool.not_eq_true _ ▸ hends)

theorem Inv.fill (h : Inv L D n w) (addr : Addr) (hw : Bool) : Inv L D n (w.fill addr hw) where
  recorded := h.recorded.fill addr hw
  scores := by
    show Scores (w.bop.notifyFill addr hw) w.hits
    unfold Bop.notifyFill
    split
    · exact ⟨h.scores.score, h.scores.le_best, h.scores.champion⟩
    · exact h.scores
  first := fun h0 => by
    have hf := h.first h0
    have hoff : ¬ (hw && w.bop.issuePrefetchRequests) = true := by simp [hf.issue]
    have hb : (w.fill addr hw).bop = w.bop := if_neg hoff
    have hr : (w.fill addr hw).right = w.right := if_neg hoff
    refine ⟨?_, fun i => ?_, hf.left, hf.multiple⟩
    · rw [hb]
      exact hf.issue
    · rw [hr]
      exact hf.right i

theorem watch_append (pre : List Event) (e : Event) :
    watch p (pre ++ [e]) = (watch p pre).step e := by
  unfold watch
  rw [foldl_append]
  rfl

/-- The line of the access after a prefix. -/
theorem Strided.line {es : List Event} (hs : Strided p L D es) {pre : List Event} {addr : Addr}
    (hpre : pre ++ [.access addr] <+: es) :
    p.line addr = L + ((accesses pre).length : Int) * D := by
  obtain ⟨post, rfl⟩ := hpre
  have hacc : accesses (pre ++ [.access addr] ++ post) = accesses pre ++ addr :: accesses post := by
    rw [accesses_append, accesses_append, append_assoc]
    rfl
  have hlt : (accesses pre).length < (accesses (pre ++ [.access addr] ++ post)).length := by
    rw [hacc, length_append, length_cons]
    omega
  have hline := hs.lines ⟨(accesses pre).length, hlt⟩
  have hget :
      (accesses (pre ++ [.access addr] ++ post)).get ⟨(accesses pre).length, hlt⟩ = addr := by
    rw [get_eq_getElem]
    simp only [hacc, getElem_append_right (Nat.le_refl _), Nat.sub_self, getElem_cons_zero]
  rw [hget] at hline
  exact hline

/-- Every prefix of a good run meets the invariant. -/
theorem inv_watch {es : List Event} (hs : Strided p L D es)
    (hok : Trace.Admits Good Watch.step (Watch.init p) es) (pre : List Event) (hpre : pre <+: es) :
    Inv L D (accesses pre).length (watch p pre) := by
  induction pre using reverseRecOn with
  | nil => exact inv_init L D
  | append_singleton pre e ih =>
    have hw := ih ((prefix_append pre [e]).trans hpre)
    obtain ⟨post, rfl⟩ := hpre
    rw [Trace.admits_append, Trace.admits_append] at hok
    have hgood : Good (watch p pre) e := hok.1.2.1
    rw [watch_append, accesses_append, length_append]
    cases e with
    | access addr =>
      exact hw.access (hs.line (prefix_append _ post))
        (hw.scores.scoreOffset hw.recorded hgood.1 hgood.2.1)
    | fill addr hwp => exact hw.fill addr hwp

/-- Best-offset learning finds the stride of every run in which the tags tell the lines. -/
theorem learns_of_good (p : Params) (L D : Int) (es : List Event) (hs : Strided p L D es)
    (hok : Trace.Admits Good Watch.step (Watch.init p) es) : Learns p D es := by
  intro pre addr hpre
  have hinv := inv_watch hs hok pre ((prefix_append pre _).trans hpre)
  have hline := hs.line hpre
  obtain ⟨post, rfl⟩ := hpre
  rw [Trace.admits_append, Trace.admits_append] at hok
  have hgood : Good (watch p pre) (.access addr) := hok.1.2.1
  have hscored := hinv.scores.scoreOffset hinv.recorded hgood.1 hgood.2.1
  refine ⟨hinv.scores.scored hscored, fun h0 hends => ?_⟩
  exact (hinv.first h0).chosen hline hscored hends (hgood.2.2 h0 hends)

/-- Blocks of two bytes, so that a tag drops one bit of the line; the offsets are `1` and `-1`. -/
def pairs : Params where
  lBlkSize := 1
  lBlkSize_lt := by omega
  tagBits := 12
  tagBits_lt := by omega
  rrBits := 2
  rrBits_lt := by omega
  scoreMax := 31
  roundMax := 3
  badScore := 1
  listSize := 2
  listSize_pos := by omega
  offset := fun q => if q.val = 0 then 1 else -1
  offset_ne_zero := by decide
  offset_int16 := by decide
  shiftPast := fun addr n => addr >>> (n % 64)

/-- The lines 8 to 13: the offset `1` meets its line at each even one. -/
def climb : List Event :=
  [.access 16, .access 18, .fill 18 true, .access 20, .access 22, .access 24, .access 26]

/-- The offset `1` has the full score. -/
theorem climb_learned : Learns pairs 1 climb := learns_of_good pairs 8 1 climb
    ⟨⟨⟨0, by decide⟩, rfl⟩, by decide +kernel⟩ (by decide +kernel)

/-- Blocks of thirty-two bytes, so that the tag of a line is its number shifted by 27 bits more. -/
def wide : Params := { pairs with lBlkSize := 5, lBlkSize_lt := by omega, roundMax := 2 }

/-- The lines 100 to 103. -/
def lost : List Event := [.access 3200, .access 3232, .access 3264, .access 3296]

/-- No line is past the tags, and the first phase ends at the fourth access with the offset 0. -/
theorem lost_not_learned : Strided wide 100 1 lost ∧
    (∀ n : Fin (accesses lost).length, wide.line ((accesses lost).get n) ≤ wide.tagMask) ∧
    ¬ Learns wide 1 lost := by
  refine ⟨⟨⟨⟨0, by decide⟩, rfl⟩, by decide +kernel⟩, by decide +kernel, fun h => ?_⟩
  obtain ⟨-, hphase⟩ := h [.access 3200, .access 3232, .access 3264] 3296 (prefix_refl _)
  obtain ⟨q, hbest, -⟩ := hphase (by decide +kernel) (by decide +kernel)
  revert q
  decide +kernel

end Gem5Dvr.BestOffset
