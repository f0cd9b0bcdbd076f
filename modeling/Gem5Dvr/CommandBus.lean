/-
  The command bus of a memory controller (`mem/mem_ctrl.cc` 652-826).

  Time is cut into windows of `commandWindow` ticks, each named by its first tick, and a window takes
  `maxCommandsPerWindow` commands.

    1. The functions of the source.  `burstTicks` is the multiset of booked windows; the loops run on
       fuel, and run out of it never (`verifySingleCmd_spec`, `verifyMultiCmd_spec`).
    2. `Bus`: `pruneBurstTick` at the start of each `doBurstAccess`, and the commands it asks for.
       The log keeps every answer, so it keeps the bookings that were pruned.
    3. The crux: a booking is pruned as soon as its window has BEGUN, and commands still go into that
       window, and the first of a pair into windows before it.  The bus is never oversubscribed in a
       run where what was pruned does not matter (`Keeps`).

  A `Tick` has 64 bits and is a `Nat` here.  A run of `n` calls stays below a bound on the ticks it is
  given plus `2 * n` windows (`ticks_below`): what follows is about runs that have this sum, and
  `max_multi_cmd_split` plus two windows, below `2^64`, where nothing wraps.
-/
import Mathlib.Data.List.Perm.Subperm
import Gem5Dvr.Lib.Trace

namespace Gem5Dvr.CommandBus

open List

/-! ## The functions of the source -/

/-- The parameters of the bus. -/
structure Config where
  commandWindow : Nat
  maxCommandsPerWindow : Nat
  window_pos : 0 < commandWindow
  max_pos : 0 < maxCommandsPerWindow

variable (c : Config)

/-- Drops the windows that have begun. -/
def pruneBurstTick (curTick : Nat) (burstTicks : List Nat) : List Nat :=
  burstTicks.filter fun it => !decide (curTick > it)

/-- The window of a tick. -/
def getBurstWindow (cmd_tick : Nat) : Nat := cmd_tick - cmd_tick % c.commandWindow

/-- The loop of `verifySingleCmd` over `burst_tick` and `cmd_at`. -/
def singleLoop (burstTicks : List Nat) : Nat → Nat → Nat → Option (Nat × Nat)
  | 0, _, _ => none
  | fuel + 1, burst_tick, cmd_at =>
    if burstTicks.count burst_tick ≥ c.maxCommandsPerWindow then
      singleLoop burstTicks fuel (burst_tick + c.commandWindow) (burst_tick + c.commandWindow)
    else some (burst_tick, cmd_at)

/-- A tick after every booking. -/
def horizon (burstTicks : List Nat) : Nat := burstTicks.foldr (fun it t => max (it + 1) t) 0

/-- `verifySingleCmd`: the window booked, and the tick of the command. -/
def verifySingleCmd (burstTicks : List Nat) (cmd_tick : Nat) : Option (Nat × Nat) :=
  singleLoop c burstTicks (horizon burstTicks + 1) (getBurstWindow c cmd_tick) cmd_tick

/-- The first loop of `verifyMultiCmd`, over `burst_offset`. -/
def offsetLoop (max_multi_cmd_split first_cmd_offset : Nat) : Nat → Nat → Nat
  | 0, burst_offset => burst_offset
  | fuel + 1, burst_offset =>
    if max_multi_cmd_split > first_cmd_offset + burst_offset then
      offsetLoop max_multi_cmd_split first_cmd_offset fuel (burst_offset + c.commandWindow)
    else burst_offset

/-- The earliest window for the first command of a pair. -/
def firstWindow (cmd_tick max_multi_cmd_split : Nat) : Nat :=
  let burst_tick := getBurstWindow c cmd_tick
  let burst_offset :=
    offsetLoop c max_multi_cmd_split (cmd_tick % c.commandWindow) max_multi_cmd_split 0
  burst_tick - min burst_offset burst_tick

/-- The local variables of the second loop. -/
structure Cursors where
  first_cmd_tick : Nat
  burst_tick : Nat
  cmd_at : Nat
  deriving DecidableEq, Repr

/-- The first command has room. -/
def firstCanIssue (count : Nat → Nat) (k : Cursors) : Bool :=
  count k.first_cmd_tick < c.maxCommandsPerWindow

/-- The second command has room. -/
def secondCanIssue (count : Nat → Nat) (k : Cursors) : Bool :=
  (if k.burst_tick = k.first_cmd_tick then count k.first_cmd_tick + 1 else count k.burst_tick) <
    c.maxCommandsPerWindow

/-- The body of the second loop where a command cannot issue. -/
def shift (count : Nat → Nat) (max_multi_cmd_split : Nat) (k : Cursors) : Cursors :=
  let same_burst := k.burst_tick = k.first_cmd_tick
  let first_can_issue := firstCanIssue c count k
  let second_can_issue := secondCanIssue c count k
  let k' := if second_can_issue then k
    else
      { k with
        burst_tick := k.burst_tick + c.commandWindow
        cmd_at := k.burst_tick + c.commandWindow }
  let gap_violated := ¬ same_burst ∧ k'.burst_tick - k'.first_cmd_tick > max_multi_cmd_split
  if ¬ first_can_issue ∨ ¬ second_can_issue ∧ gap_violated then
    { k' with first_cmd_tick := k.first_cmd_tick + c.commandWindow }
  else k'

/-- The second loop of `verifyMultiCmd`. -/
def multiLoop (count : Nat → Nat) (max_multi_cmd_split : Nat) : Nat → Cursors → Option Cursors
  | 0, _ => none
  | fuel + 1, k =>
    if firstCanIssue c count k && secondCanIssue c count k then some k
    else multiLoop count max_multi_cmd_split fuel (shift c count max_multi_cmd_split k)

/-- `verifyMultiCmd`: the windows booked, and the tick of the second command. -/
def verifyMultiCmd (burstTicks : List Nat) (cmd_tick max_multi_cmd_split : Nat) : Option Cursors :=
  let k : Cursors :=
    { first_cmd_tick := firstWindow c cmd_tick max_multi_cmd_split
      burst_tick := getBurstWindow c cmd_tick
      cmd_at := cmd_tick }
  multiLoop c (fun t => burstTicks.count t) max_multi_cmd_split (4 * horizon burstTicks + 2) k

/-! ## The bus -/

/-- What a call was asked for and what it did: the tick it returned and the windows it booked. -/
structure Answer where
  wanted : Nat
  cmd_at : Nat
  window : Nat
  first : Option Nat := none
  deriving DecidableEq, Repr

/-- What the answer booked. -/
def Answer.windows (a : Answer) : List Nat := a.window :: a.first.toList

/-- The bookings, and every answer. -/
structure Bus where
  curTick : Nat := 0
  burstTicks : List Nat := []
  log : List Answer := []
  deriving DecidableEq, Repr

/-- Every booking of the run. -/
def Bus.booked (s : Bus) : List Nat := s.log.flatMap Answer.windows

/-- `doBurstAccess` begins, at a tick; then it asks for commands. -/
inductive Event
  | doBurstAccess (curTick : Nat)
  | single (cmd_tick : Nat)
  | multi (cmd_tick max_multi_cmd_split : Nat)
  deriving DecidableEq, Repr

/-- A call. -/
def step (s : Bus) : Event → Option Bus
  | .doBurstAccess curTick =>
    some { s with curTick := curTick, burstTicks := pruneBurstTick curTick s.burstTicks }
  | .single cmd_tick =>
    (verifySingleCmd c s.burstTicks cmd_tick).map fun (burst_tick, cmd_at) =>
      { s with
        burstTicks := burst_tick :: s.burstTicks
        log := ⟨cmd_tick, cmd_at, burst_tick, none⟩ :: s.log }
  | .multi cmd_tick max_multi_cmd_split =>
    (verifyMultiCmd c s.burstTicks cmd_tick max_multi_cmd_split).map fun k =>
      { s with
        burstTicks := k.first_cmd_tick :: k.burst_tick :: s.burstTicks
        log := ⟨cmd_tick, k.cmd_at, k.burst_tick, some k.first_cmd_tick⟩ :: s.log }

/-- The clock does not go back, and commands are wanted from now on. -/
def Legal (s : Bus) : Event → Prop
  | .doBurstAccess curTick => s.curTick ≤ curTick
  | .single cmd_tick => s.curTick ≤ cmd_tick
  | .multi cmd_tick _ => s.curTick ≤ cmd_tick

/-- From a window on, room by the bookings that are left is room by all. -/
def RoomFrom (s : Bus) (start : Nat) : Prop := ∀ w ∈ s.booked, start ≤ w →
    (s.burstTicks.count w < c.maxCommandsPerWindow → s.booked.count w < c.maxCommandsPerWindow) ∧
      (s.burstTicks.count w + 1 < c.maxCommandsPerWindow →
        s.booked.count w + 1 < c.maxCommandsPerWindow)

/-- What was pruned does not matter to the windows that the call looks at. -/
def Keeps (s : Bus) : Event → Prop
  | .doBurstAccess _ => True
  | .single cmd_tick => RoomFrom c s (getBurstWindow c cmd_tick)
  | .multi cmd_tick max_multi_cmd_split => RoomFrom c s (firstWindow c cmd_tick max_multi_cmd_split)

instance (s : Bus) (e : Event) : Decidable (Legal s e) := by
  cases e <;> unfold Legal <;> infer_instance

instance (s : Bus) (e : Event) : Decidable (Keeps c s e) := by
  cases e <;> unfold Keeps RoomFrom <;> infer_instance

/-- The command is not early and is in the window it was booked in; the first of a pair is in a
    window not after that of the second. -/
structure Answer.Right (a : Answer) : Prop where
  not_early : a.wanted ≤ a.cmd_at
  in_window : getBurstWindow c a.cmd_at = a.window
  first_le : ∀ f ∈ a.first, getBurstWindow c f = f ∧ f ≤ a.window

variable {c}

/-! ## Windows -/

theorem getBurstWindow_eq_mul (t : Nat) :
    getBurstWindow c t = c.commandWindow * (t / c.commandWindow) := by
  unfold getBurstWindow
  have := Nat.mod_add_div t c.commandWindow
  omega

/-- A window starts at a multiple of its length. -/
def Aligned (c : Config) (t : Nat) : Prop := c.commandWindow ∣ t

theorem aligned_getBurstWindow (t : Nat) : Aligned c (getBurstWindow c t) := by
  rw [getBurstWindow_eq_mul]
  exact Nat.dvd_mul_right _ _

variable {t cmd_tick start : Nat} {burstTicks : List Nat} {k : Cursors} {s : Bus}

theorem Aligned.add (h : Aligned c t) : Aligned c (t + c.commandWindow) :=
  (Nat.dvd_add_right h).mpr (Nat.dvd_refl _)

theorem Aligned.window (h : Aligned c t) : getBurstWindow c t = t := by
  unfold getBurstWindow
  rw [Nat.mod_eq_zero_of_dvd h]
  rfl

/-- Two windows that differ are a length apart. -/
theorem Aligned.add_le {u : Nat} (ht : Aligned c t) (hu : Aligned c u) (hlt : t < u) :
    t + c.commandWindow ≤ u := by
  obtain ⟨k, rfl⟩ := ht
  obtain ⟨l, rfl⟩ := hu
  have hkl : k < l := Nat.lt_of_mul_lt_mul_left hlt
  calc c.commandWindow * k + c.commandWindow = c.commandWindow * (k + 1) := rfl
    _ ≤ c.commandWindow * l := Nat.mul_le_mul_left _ hkl

theorem lt_horizon (h : t ∈ burstTicks) : t < horizon burstTicks := by
  induction burstTicks with
  | nil => cases h
  | cons a l ih =>
    show t < max (a + 1) (horizon l)
    rcases mem_cons.mp h with rfl | h
    · omega
    · have := ih h
      omega

/-- There is room from the horizon on. -/
theorem count_horizon (h : horizon burstTicks ≤ t) : burstTicks.count t = 0 :=
  count_eq_zero.mpr fun hmem => absurd (lt_horizon hmem) (Nat.not_lt.mpr h)

/-! ## The loops -/

theorem singleLoop_spec (fuel burst_tick cmd_at : Nat)
    (haligned : Aligned c burst_tick) (hfuel : horizon burstTicks ≤ burst_tick + fuel) :
    ∃ b t, singleLoop c burstTicks (fuel + 1) burst_tick cmd_at = some (b, t) ∧ Aligned c b ∧
      burst_tick ≤ b ∧ burstTicks.count b < c.maxCommandsPerWindow ∧
        (b = burst_tick ∧ t = cmd_at ∨ burst_tick + c.commandWindow ≤ b ∧ t = b) := by
  induction fuel generalizing burst_tick cmd_at with
  | zero =>
    have hzero : burstTicks.count burst_tick = 0 := count_horizon hfuel
    refine ⟨burst_tick, cmd_at, ?_, haligned, Nat.le_refl _, ?_, .inl ⟨rfl, rfl⟩⟩
    · rw [singleLoop, hzero]
      exact if_neg (Nat.not_le.mpr c.max_pos)
    · rw [hzero]
      exact c.max_pos
  | succ fuel ih =>
    rw [singleLoop]
    split
    · have hpos := c.window_pos
      obtain ⟨b, t, hloop, hb, hle, hcount, hcases⟩ :=
        ih (burst_tick + c.commandWindow) (burst_tick + c.commandWindow) haligned.add (by omega)
      refine ⟨b, t, hloop, hb, by omega, hcount, .inr ⟨hle, ?_⟩⟩
      rcases hcases with ⟨rfl, rfl⟩ | ⟨-, rfl⟩
      · rfl
      · rfl
    · rename_i hroom
      exact ⟨burst_tick, cmd_at, rfl, haligned, Nat.le_refl _, Nat.not_le.mp hroom, .inl ⟨rfl, rfl⟩⟩

/-- `verifySingleCmd` ends, with a command in a window with room, not early. -/
theorem verifySingleCmd_spec (burstTicks : List Nat) (cmd_tick : Nat) :
    ∃ b t, verifySingleCmd c burstTicks cmd_tick = some (b, t) ∧ getBurstWindow c cmd_tick ≤ b ∧
      burstTicks.count b < c.maxCommandsPerWindow ∧ cmd_tick ≤ t ∧ getBurstWindow c t = b := by
  obtain ⟨b, t, hloop, hb, hle, hcount, hcases⟩ := singleLoop_spec (horizon burstTicks)
    (getBurstWindow c cmd_tick) cmd_tick (aligned_getBurstWindow cmd_tick) (Nat.le_add_left _ _)
  refine ⟨b, t, hloop, hle, hcount, ?_⟩
  rcases hcases with ⟨rfl, rfl⟩ | ⟨hlater, rfl⟩
  · exact ⟨Nat.le_refl _, rfl⟩
  · refine ⟨?_, hb.window⟩
    have hlt := Nat.mod_lt cmd_tick c.window_pos
    unfold getBurstWindow at hlater
    omega

/-- The first loop of `verifyMultiCmd` has ended when its fuel has. -/
theorem offsetLoop_spec (split offset fuel burst_offset : Nat)
    (haligned : Aligned c burst_offset) (hfuel : split ≤ offset + burst_offset + fuel) :
    Aligned c (offsetLoop c split offset fuel burst_offset) ∧
      ¬ split > offset + offsetLoop c split offset fuel burst_offset := by
  induction fuel generalizing burst_offset with
  | zero =>
    rw [offsetLoop]
    exact ⟨haligned, by omega⟩
  | succ fuel ih =>
    rw [offsetLoop]
    split
    · have hpos := c.window_pos
      exact ih _ haligned.add (by omega)
    · rename_i hdone
      exact ⟨haligned, hdone⟩

theorem firstWindow_spec (cmd_tick split : Nat) : Aligned c (firstWindow c cmd_tick split) ∧
      firstWindow c cmd_tick split ≤ getBurstWindow c cmd_tick := by
  obtain ⟨haligned, -⟩ := offsetLoop_spec (c := c) split (cmd_tick % c.commandWindow) split 0
    (Nat.dvd_zero _) (by omega)
  refine ⟨?_, Nat.sub_le _ _⟩
  unfold firstWindow
  dsimp only
  rcases Nat.le_total (getBurstWindow c cmd_tick)
    (offsetLoop c split (cmd_tick % c.commandWindow) split 0) with hle | hle
  · rw [Nat.min_eq_right hle, Nat.sub_self]
    exact Nat.dvd_zero _
  · rw [Nat.min_eq_left hle]
    exact Nat.dvd_sub (aligned_getBurstWindow cmd_tick) haligned

/-- What the second loop of `verifyMultiCmd` keeps of its variables. -/
structure Cursors.Inv (c : Config) (cmd_tick start : Nat) (k : Cursors) : Prop where
  first_aligned : Aligned c k.first_cmd_tick
  second_aligned : Aligned c k.burst_tick
  first_le : k.first_cmd_tick ≤ k.burst_tick
  start_le : start ≤ k.first_cmd_tick
  cmd_at_eq : k.burst_tick = getBurstWindow c cmd_tick ∧ k.cmd_at = cmd_tick ∨
    getBurstWindow c cmd_tick + c.commandWindow ≤ k.burst_tick ∧ k.cmd_at = k.burst_tick

/-- What each turn of the loop takes from: the way of both cursors to the horizon, and that they
    stand together. -/
def Cursors.left (horizon : Nat) (k : Cursors) : Nat :=
  2 * (horizon - k.first_cmd_tick) + 2 * (horizon - k.burst_tick) +
    if k.burst_tick = k.first_cmd_tick then 1 else 0

theorem full_lt_horizon (h : 0 < burstTicks.count t) :
    t < horizon burstTicks := lt_horizon (count_pos_iff.mp h)

/-- A window that cannot take the first command is booked. -/
theorem firstCannot_lt (h : firstCanIssue c (fun t => burstTicks.count t) k = false) :
    k.first_cmd_tick < horizon burstTicks := by
  unfold firstCanIssue at h
  simp only [decide_eq_false_iff_not, Nat.not_lt] at h
  exact full_lt_horizon (Nat.lt_of_lt_of_le c.max_pos h)

theorem secondCannot_lt (h : secondCanIssue c (fun t => burstTicks.count t) k = false)
    (hne : k.burst_tick ≠ k.first_cmd_tick) : k.burst_tick < horizon burstTicks := by
  unfold secondCanIssue at h
  rw [if_neg hne] at h
  simp only [decide_eq_false_iff_not, Nat.not_lt] at h
  exact full_lt_horizon (Nat.lt_of_lt_of_le c.max_pos h)

/-- The three ways to shift: the second command, the first, or both.  The first does not pass the
    second: where they stand together and the first cannot issue, neither can the second. -/
theorem shift_cases {count : Nat → Nat} (split : Nat)
    (h : (firstCanIssue c count k && secondCanIssue c count k) = false) :
    (secondCanIssue c count k = false ∧ shift c count split k =
      { k with
        burst_tick := k.burst_tick + c.commandWindow
        cmd_at := k.burst_tick + c.commandWindow }) ∨
    (secondCanIssue c count k = false ∧
      (k.burst_tick = k.first_cmd_tick → firstCanIssue c count k = false) ∧
      shift c count split k = ⟨k.first_cmd_tick + c.commandWindow, k.burst_tick + c.commandWindow,
          k.burst_tick + c.commandWindow⟩) ∨
    (firstCanIssue c count k = false ∧ k.burst_tick ≠ k.first_cmd_tick ∧ shift c count split k =
        { k with first_cmd_tick := k.first_cmd_tick + c.commandWindow }) := by
  have htogether : k.burst_tick = k.first_cmd_tick → firstCanIssue c count k = false →
      secondCanIssue c count k = false := by
    intro hsame hfirst
    unfold firstCanIssue at hfirst
    unfold secondCanIssue
    rw [if_pos hsame]
    simp only [decide_eq_false_iff_not, Nat.not_lt] at hfirst ⊢
    omega
  unfold shift
  cases hsecond : secondCanIssue c count k with
  | true =>
    have hfirst : firstCanIssue c count k = false := by simpa [hsecond] using h
    refine .inr (.inr ⟨hfirst, fun hsame => ?_, ?_⟩)
    · rw [htogether hsame hfirst] at hsecond
      cases hsecond
    · simp [hfirst]
  | false =>
    cases hfirst : firstCanIssue c count k with
    | false =>
      refine .inr (.inl ⟨rfl, fun _ => rfl, ?_⟩)
      simp
    | true =>
      by_cases hgap : ¬ k.burst_tick = k.first_cmd_tick ∧
          k.burst_tick + c.commandWindow - k.first_cmd_tick > split
      · refine .inr (.inl ⟨rfl, fun hsame => absurd hsame hgap.1, ?_⟩)
        simp [hgap]
      · refine .inl ⟨rfl, ?_⟩
        simp [hgap]

theorem Cursors.Inv.shift {count : Nat → Nat} {split : Nat} (hk : k.Inv c cmd_tick start)
    (h : (firstCanIssue c count k && secondCanIssue c count k) = false) :
    (shift c count split k).Inv c cmd_tick start := by
  have hlater : getBurstWindow c cmd_tick ≤ k.burst_tick := by
    rcases hk.cmd_at_eq with ⟨heq, -⟩ | ⟨hle, -⟩ <;> omega
  have hstart := hk.start_le
  have hle := hk.first_le
  rcases shift_cases split h with ⟨-, heq⟩ | ⟨-, -, heq⟩ | ⟨-, hne, heq⟩ <;> rw [heq]
  · exact ⟨hk.first_aligned, hk.second_aligned.add, by dsimp only; omega, hstart,
      .inr ⟨Nat.add_le_add_right hlater _, rfl⟩⟩
  · exact ⟨hk.first_aligned.add, hk.second_aligned.add, Nat.add_le_add_right hle _,
      Nat.le_trans hstart (Nat.le_add_right _ _), .inr ⟨Nat.add_le_add_right hlater _, rfl⟩⟩
  · exact ⟨hk.first_aligned.add, hk.second_aligned,
      hk.first_aligned.add_le hk.second_aligned (Nat.lt_of_le_of_ne hle (Ne.symm hne)),
      Nat.le_trans hstart (Nat.le_add_right _ _), hk.cmd_at_eq⟩

/-- Each turn of the loop takes from what is left. -/
theorem shift_left (split : Nat) (hk : k.Inv c cmd_tick start)
    (h : (firstCanIssue c (fun t => burstTicks.count t) k &&
      secondCanIssue c (fun t => burstTicks.count t) k) = false) :
    (shift c (fun t => burstTicks.count t) split k).left (horizon burstTicks) <
      k.left (horizon burstTicks) := by
  have hpos := c.window_pos
  have hle := hk.first_le
  rcases shift_cases split h with ⟨hsecond, heq⟩ | ⟨hsecond, hfirst, heq⟩ |
    ⟨hfirst, hne, heq⟩ <;> rw [heq] <;> unfold Cursors.left <;> dsimp only
  · by_cases hsame : k.burst_tick = k.first_cmd_tick
    · rw [if_pos hsame, if_neg (by omega)]
      omega
    · have hlt := secondCannot_lt hsecond hsame
      rw [if_neg hsame, if_neg (by omega)]
      omega
  · by_cases hsame : k.burst_tick = k.first_cmd_tick
    · have hlt := firstCannot_lt (hfirst hsame)
      rw [if_pos hsame, if_pos (by omega)]
      omega
    · have hlt := secondCannot_lt hsecond hsame
      rw [if_neg hsame, if_neg (by omega)]
      omega
  · have hlt := firstCannot_lt hfirst
    split <;> omega

theorem multiLoop_spec {split : Nat} (fuel : Nat)
    (hk : k.Inv c cmd_tick start) (hfuel : k.left (horizon burstTicks) ≤ fuel) :
    ∃ k', multiLoop c (fun t => burstTicks.count t) split (fuel + 1) k = some k' ∧
      k'.Inv c cmd_tick start ∧ firstCanIssue c (fun t => burstTicks.count t) k' = true ∧
        secondCanIssue c (fun t => burstTicks.count t) k' = true := by
  induction fuel generalizing k with
  | zero =>
    rw [multiLoop]
    split
    · rename_i hboth
      rw [Bool.and_eq_true] at hboth
      exact ⟨k, rfl, hk, hboth⟩
    · rename_i hnot
      have hless := shift_left split hk (Bool.not_eq_true _ ▸ hnot)
      omega
  | succ fuel ih =>
    rw [multiLoop]
    split
    · rename_i hboth
      rw [Bool.and_eq_true] at hboth
      exact ⟨k, rfl, hk, hboth⟩
    · rename_i hnot
      have hfalse := Bool.not_eq_true _ ▸ hnot
      have hless := shift_left split hk hfalse
      exact ih (hk.shift hfalse) (by omega)

/-- `verifyMultiCmd` ends, with both commands in windows with room. -/
theorem verifyMultiCmd_spec (burstTicks : List Nat) (cmd_tick split : Nat) :
    ∃ k, verifyMultiCmd c burstTicks cmd_tick split = some k ∧
      k.Inv c cmd_tick (firstWindow c cmd_tick split) ∧
        firstCanIssue c (fun t => burstTicks.count t) k = true ∧
          secondCanIssue c (fun t => burstTicks.count t) k = true := by
  obtain ⟨haligned, hle⟩ := firstWindow_spec (c := c) cmd_tick split
  refine multiLoop_spec _ ⟨haligned, aligned_getBurstWindow cmd_tick, hle, Nat.le_refl _,
    .inl ⟨rfl, rfl⟩⟩ ?_
  unfold Cursors.left
  split <;> omega

/-! ## One step -/

theorem Cursors.Inv.right (hk : k.Inv c cmd_tick start) :
    Answer.Right c ⟨cmd_tick, k.cmd_at, k.burst_tick, some k.first_cmd_tick⟩ := by
  have hlt := Nat.mod_lt cmd_tick c.window_pos
  constructor
  · show cmd_tick ≤ k.cmd_at
    rcases hk.cmd_at_eq with ⟨-, heq⟩ | ⟨hlater, heq⟩
    · exact Nat.le_of_eq heq.symm
    · unfold getBurstWindow at hlater
      omega
  · show getBurstWindow c k.cmd_at = k.burst_tick
    rcases hk.cmd_at_eq with ⟨hwindow, heq⟩ | ⟨-, heq⟩
    · rw [heq, hwindow]
    · rw [heq, hk.second_aligned.window]
  · rintro f ⟨⟩
    exact ⟨hk.first_aligned.window, hk.first_le⟩

/-- A booking that is left was made. -/
def Sub (s : Bus) : Prop := s.burstTicks.Subperm s.booked

/-- What every step keeps, whether or not the bus is oversubscribed: it has a result, its answers are
    right, and the bookings that are left were made. -/
theorem step_right (e : Event) (hsub : Sub s) (hlog : ∀ a ∈ s.log, a.Right c) :
    ∃ s', step c s e = some s' ∧ Sub s' ∧ ∀ a ∈ s'.log, a.Right c := by
  cases e with
  | doBurstAccess curTick =>
    exact ⟨_, rfl, Subperm.trans (filter_sublist.subperm) hsub, hlog⟩
  | single cmd_tick =>
    obtain ⟨b, t, hverify, -, -, hearly, hwindow⟩ :=
      verifySingleCmd_spec (c := c) s.burstTicks cmd_tick
    refine ⟨_, by rw [step, hverify]; rfl, ?_, ?_⟩
    · exact (subperm_cons b).mpr hsub
    · intro a ha
      rcases mem_cons.mp ha with rfl | ha
      · exact ⟨hearly, hwindow, fun f hf => by cases hf⟩
      · exact hlog a ha
  | multi cmd_tick split =>
    obtain ⟨k, hverify, hk, -, -⟩ := verifyMultiCmd_spec (c := c) s.burstTicks cmd_tick split
    refine ⟨_, by rw [step, hverify]; rfl, ?_, ?_⟩
    · refine Subperm.trans (Perm.swap k.burst_tick k.first_cmd_tick _).subperm ?_
      exact (subperm_cons _).mpr ((subperm_cons _).mpr hsub)
    · intro a ha
      rcases mem_cons.mp ha with rfl | ha
      · exact hk.right
      · exact hlog a ha

/-- No window has more commands than it takes. -/
def Fits (c : Config) (s : Bus) : Prop := ∀ w, s.booked.count w ≤ c.maxCommandsPerWindow

/-- Room by the bookings that are left is room by all, also in a window that was never booked. -/
theorem RoomFrom.room {w : Nat} (h : RoomFrom c s start) (hle : start ≤ w) (hsub : Sub s) :
    (s.burstTicks.count w < c.maxCommandsPerWindow → s.booked.count w < c.maxCommandsPerWindow) ∧
      (s.burstTicks.count w + 1 < c.maxCommandsPerWindow →
        s.booked.count w + 1 < c.maxCommandsPerWindow) := by
  by_cases hw : w ∈ s.booked
  · exact h w hw hle
  · have hzero : s.booked.count w = 0 := count_eq_zero.mpr hw
    have hcount := hsub.count_le w
    omega

theorem step_fits {s' : Bus} {e : Event} (hsub : Sub s) (hfits : Fits c s) (hkeeps : Keeps c s e)
    (hstep : step c s e = some s') : Fits c s' := by
  cases e with
  | doBurstAccess curTick =>
    cases hstep
    exact hfits
  | single cmd_tick =>
    obtain ⟨b, t, hverify, hle, hroom, -, -⟩ := verifySingleCmd_spec (c := c) s.burstTicks cmd_tick
    rw [step, hverify] at hstep
    cases hstep
    intro w
    have hroom' := (RoomFrom.room hkeeps hle hsub).1 hroom
    have hw := hfits w
    show (b :: s.booked).count w ≤ c.maxCommandsPerWindow
    rw [count_cons]
    split
    · rename_i heq
      rw [← beq_iff_eq.mp heq]
      omega
    · omega
  | multi cmd_tick split =>
    obtain ⟨k, hverify, hk, hfirst, hsecond⟩ :=
      verifyMultiCmd_spec (c := c) s.burstTicks cmd_tick split
    rw [step, hverify] at hstep
    cases hstep
    intro w
    unfold firstCanIssue at hfirst
    unfold secondCanIssue at hsecond
    rw [decide_eq_true_iff] at hfirst hsecond
    have hroom := RoomFrom.room hkeeps hk.start_le hsub
    have hw := hfits w
    show (k.burst_tick :: k.first_cmd_tick :: s.booked).count w ≤ c.maxCommandsPerWindow
    rw [count_cons, count_cons]
    by_cases hsame : k.burst_tick = k.first_cmd_tick
    · rw [if_pos hsame] at hsecond
      have htwo := hroom.2 hsecond
      rw [hsame]
      by_cases hfw : k.first_cmd_tick = w
      · rw [← hfw]
        simp only [beq_self_eq_true, if_true]
        omega
      · simp only [beq_iff_eq, hfw, if_false]
        omega
    · rw [if_neg hsame] at hsecond
      have hone := hroom.1 hfirst
      have htwo := (RoomFrom.room hkeeps (Nat.le_trans hk.start_le hk.first_le) hsub).1 hsecond
      by_cases hfw : k.first_cmd_tick = w
      · have hbw : ¬ k.burst_tick = w := fun hbw => hsame (hbw.trans hfw.symm)
        rw [← hfw] at hbw ⊢
        simp only [beq_iff_eq, hbw, if_false, if_true]
        omega
      · by_cases hbw : k.burst_tick = w
        · rw [← hbw] at hfw ⊢
          simp only [beq_iff_eq, hfw, if_false, if_true]
          omega
        · simp only [beq_iff_eq, hfw, hbw, if_false]
          omega

/-! ## How far the ticks go -/

/-- The tick that an event is given. -/
def Event.tick : Event → Nat
  | .doBurstAccess curTick => curTick
  | .single cmd_tick => cmd_tick
  | .multi cmd_tick _ => cmd_tick

variable {bound : Nat}

theorem getBurstWindow_le (t : Nat) : getBurstWindow c t ≤ t := Nat.sub_le _ _

theorem horizon_le (h : ∀ t ∈ burstTicks, t < bound) : horizon burstTicks ≤ bound := by
  induction burstTicks with
  | nil => exact Nat.zero_le _
  | cons a l ih =>
    exact Nat.max_le.mpr ⟨h a mem_cons_self, ih fun t ht => h t (mem_cons_of_mem a ht)⟩

/-- A full window is below the horizon, so the search ends within a window after it. -/
theorem singleLoop_lt {fuel burst_tick cmd_at b t : Nat}
    (hhorizon : horizon burstTicks + c.commandWindow ≤ bound) (hburst : burst_tick < bound)
    (hcmd : cmd_at < bound) (h : singleLoop c burstTicks fuel burst_tick cmd_at = some (b, t)) :
    b < bound ∧ t < bound := by
  induction fuel generalizing burst_tick cmd_at with
  | zero => cases h
  | succ fuel ih =>
    rw [singleLoop] at h
    split at h
    · rename_i hfull
      have hlt := full_lt_horizon (Nat.lt_of_lt_of_le c.max_pos hfull)
      exact ih (by omega) (by omega) h
    · cases h
      exact ⟨hburst, hcmd⟩

/-- The second cursor is within bounds, with a window to spare where the two stand together. -/
structure Cursors.Below (c : Config) (bound : Nat) (k : Cursors) : Prop where
  burst_tick_lt : k.burst_tick < bound
  cmd_at_lt : k.cmd_at < bound
  spare : k.burst_tick = k.first_cmd_tick → k.burst_tick + c.commandWindow < bound

theorem Cursors.Below.shift {split : Nat} (hk : k.Inv c cmd_tick start) (hb : k.Below c bound)
    (hhorizon : horizon burstTicks + 2 * c.commandWindow ≤ bound)
    (h : (firstCanIssue c (fun t => burstTicks.count t) k &&
      secondCanIssue c (fun t => burstTicks.count t) k) = false) :
    (shift c (fun t => burstTicks.count t) split k).Below c bound := by
  have hpos := c.window_pos
  have hle := hk.first_le
  have hburst := hb.burst_tick_lt
  have hspare := hb.spare
  rcases shift_cases split h with ⟨hsecond, heq⟩ | ⟨hsecond, hfirst, heq⟩ |
    ⟨hfirst, hne, heq⟩ <;> rw [heq]
  · have hlt : k.burst_tick + c.commandWindow < bound := by
      by_cases hsame : k.burst_tick = k.first_cmd_tick
      · exact hspare hsame
      · have := secondCannot_lt hsecond hsame
        omega
    exact ⟨hlt, hlt, fun hsame => by dsimp only at hsame; omega⟩
  · have hlt : k.burst_tick < horizon burstTicks := by
      by_cases hsame : k.burst_tick = k.first_cmd_tick
      · rw [hsame]
        exact firstCannot_lt (hfirst hsame)
      · exact secondCannot_lt hsecond hsame
    exact ⟨by dsimp only; omega, by dsimp only; omega, fun _ => by dsimp only; omega⟩
  · have hlt := firstCannot_lt hfirst
    exact ⟨hburst, hb.cmd_at_lt, fun hsame => by dsimp only at hsame ⊢; omega⟩

theorem multiLoop_below {split fuel : Nat} {k' : Cursors} (hk : k.Inv c cmd_tick start)
    (hb : k.Below c bound) (hhorizon : horizon burstTicks + 2 * c.commandWindow ≤ bound)
    (h : multiLoop c (fun t => burstTicks.count t) split fuel k = some k') : k'.Below c bound := by
  induction fuel generalizing k with
  | zero => cases h
  | succ fuel ih =>
    rw [multiLoop] at h
    split at h
    · cases h
      exact hb
    · rename_i hnot
      have hfalse := Bool.not_eq_true _ ▸ hnot
      exact ih (hk.shift hfalse) (.shift hk hb hhorizon hfalse) h

/-- The bookings that are left and the answers are below a tick. -/
structure Bus.Below (bound : Nat) (s : Bus) : Prop where
  burstTicks_lt : ∀ t ∈ s.burstTicks, t < bound
  cmd_at_lt : ∀ a ∈ s.log, a.cmd_at < bound

/-- A step goes at most two windows further. -/
theorem step_below {s' : Bus} {e : Event} (hb : s.Below bound) (he : e.tick < bound)
    (hstep : step c s e = some s') : s'.Below (bound + 2 * c.commandWindow) := by
  have hmore : ∀ {t}, t < bound → t < bound + 2 * c.commandWindow :=
    fun h => Nat.lt_add_right _ h
  have hhorizon := Nat.add_le_add_right (horizon_le hb.burstTicks_lt) (2 * c.commandWindow)
  cases e with
  | doBurstAccess curTick =>
    cases hstep
    exact ⟨fun t ht => hmore (hb.burstTicks_lt t (mem_of_mem_filter ht)),
      fun a ha => hmore (hb.cmd_at_lt a ha)⟩
  | single cmd_tick =>
    obtain ⟨⟨b, t⟩, hverify, rfl⟩ := Option.map_eq_some_iff.mp hstep
    obtain ⟨hlt, hlt'⟩ := singleLoop_lt (by omega)
      (hmore (Nat.lt_of_le_of_lt (getBurstWindow_le cmd_tick) he)) (hmore he) hverify
    exact ⟨forall_mem_cons.mpr ⟨hlt, fun t ht => hmore (hb.burstTicks_lt t ht)⟩,
      forall_mem_cons.mpr ⟨hlt', fun a ha => hmore (hb.cmd_at_lt a ha)⟩⟩
  | multi cmd_tick split =>
    obtain ⟨k, hverify, rfl⟩ := Option.map_eq_some_iff.mp hstep
    obtain ⟨haligned, hle⟩ := firstWindow_spec (c := c) cmd_tick split
    have hwindow := Nat.lt_of_le_of_lt (getBurstWindow_le (c := c) cmd_tick) he
    have hpos := c.window_pos
    have hk := multiLoop_below ⟨haligned, aligned_getBurstWindow cmd_tick, hle, Nat.le_refl _,
      .inl ⟨rfl, rfl⟩⟩ ⟨hmore hwindow, hmore he, fun _ => by dsimp only; omega⟩ hhorizon hverify
    obtain ⟨k', hverify', hinv, -, -⟩ := verifyMultiCmd_spec (c := c) s.burstTicks cmd_tick split
    cases hverify.symm.trans hverify'
    have hburst := hk.burst_tick_lt
    exact ⟨forall_mem_cons.mpr ⟨Nat.lt_of_le_of_lt hinv.first_le hburst,
        forall_mem_cons.mpr ⟨hburst, fun t ht => hmore (hb.burstTicks_lt t ht)⟩⟩,
      forall_mem_cons.mpr ⟨hk.cmd_at_lt, fun a ha => hmore (hb.cmd_at_lt a ha)⟩⟩

theorem run_below {s' : Bus} {later : Nat} {es : List Event} (hb : s.Below later)
    (hle : bound ≤ later) (hticks : ∀ e ∈ es, e.tick < bound)
    (hrun : Trace.runs (step c) s es = some s') :
    s'.Below (later + 2 * c.commandWindow * es.length) := by
  induction es generalizing s later with
  | nil =>
    cases hrun
    exact hb
  | cons e es ih =>
    obtain ⟨t, hstep, hrest⟩ := Option.bind_eq_some_iff.mp hrun
    obtain ⟨he, hes⟩ := forall_mem_cons.mp hticks
    have hnext := step_below hb (Nat.lt_of_lt_of_le he hle) hstep
    rw [length_cons, Nat.mul_succ, ← Nat.add_assoc, Nat.add_right_comm]
    exact ih hnext (Nat.le_trans hle (Nat.le_add_right _ _)) hes hrest

/-- Every tick of a run is below those it is given and two windows for each call. -/
theorem ticks_below {es : List Event} (hticks : ∀ e ∈ es, e.tick < bound)
    (hrun : Trace.runs (step c) {} es = some s) :
    s.Below (bound + 2 * c.commandWindow * es.length) :=
  run_below ⟨fun _ ht => (not_mem_nil ht).elim, fun _ ha => (not_mem_nil ha).elim⟩
    (Nat.le_refl _) hticks hrun

/-! ## Every run -/

theorem sub_start : Sub {} := Subperm.refl _

theorem log_start : ∀ a ∈ ({} : Bus).log, a.Right c := fun _ ha => (not_mem_nil ha).elim

/-- In every run the loops end, and the answers are right. -/
theorem calls_answered (c : Config) (es : List Event) :
    ∃ s, Trace.runs (step c) {} es = some s ∧ ∀ a ∈ s.log, a.Right c := by
  have hall : ∀ (es : List Event) (s : Bus), Trace.Obeys (fun _ _ => True) (step c) s es := by
    intro es
    induction es with
    | nil => exact fun _ => trivial
    | cons e es ih => exact fun _ => ⟨trivial, fun s' _ => ih s'⟩
  obtain ⟨s, hrun, -, hlog⟩ := Trace.Obeys.runs (fun s : Bus => Sub s ∧ ∀ a ∈ s.log, a.Right c)
    (fun s e hinv _ => step_right e hinv.1 hinv.2) ⟨sub_start, log_start⟩ (hall es {})
  exact ⟨s, hrun, hlog⟩

/-- **The command bus is not oversubscribed** in a run where what was pruned does not matter. -/
theorem command_bus_fits (c : Config) (es : List Event)
    (hkeeps : Trace.Obeys (Keeps c) (step c) {} es) :
    ∃ s, Trace.runs (step c) {} es = some s ∧ Fits c s ∧ ∀ a ∈ s.log, a.Right c := by
  have hstep : ∀ (s : Bus) (e : Event), (Sub s ∧ Fits c s ∧ ∀ a ∈ s.log, a.Right c) →
      Keeps c s e → ∃ s', step c s e = some s' ∧ Sub s' ∧ Fits c s' ∧ ∀ a ∈ s'.log, a.Right c := by
    rintro s e ⟨hsub, hfits, hlog⟩ hkeeps
    obtain ⟨s', hstep, hsub', hlog'⟩ := step_right (c := c) e hsub hlog
    exact ⟨s', hstep, hsub', step_fits hsub hfits hkeeps hstep, hlog'⟩
  have hstart : Fits c {} := fun _ => Nat.zero_le _
  obtain ⟨s, hrun, -, hfits, hlog⟩ := Trace.Obeys.runs
    (fun s : Bus => Sub s ∧ Fits c s ∧ ∀ a ∈ s.log, a.Right c) hstep
    ⟨sub_start, hstart, log_start⟩ hkeeps
  exact ⟨s, hrun, hfits, hlog⟩

/-! ## A window that has begun -/

/-- One command a window. -/
def narrow : Config where
  commandWindow := 10
  maxCommandsPerWindow := 1
  window_pos := by decide
  max_pos := by decide

/-- A run of all three calls. -/
theorem command_bus_fits_apart : ∃ s, Trace.runs (step narrow) {}
      [.doBurstAccess 0, .single 0, .multi 12 5, .doBurstAccess 20, .single 20] = some s ∧
        Fits narrow s ∧ ∀ a ∈ s.log, a.Right narrow :=
  command_bus_fits narrow _ (by decide +kernel)

/-- Two accesses in one window, each with a command. -/
def twoAccesses : List Event := [.doBurstAccess 0, .single 0, .doBurstAccess 5, .single 5]

/-- The first command is forgotten, and its window takes another. -/
theorem prune_oversubscribes :
    ¬ ∀ (c : Config) (es : List Event) (s : Bus), Trace.Obeys Legal (step c) {} es →
      Trace.runs (step c) {} es = some s → Fits c s := by
  intro h
  have hfits := h narrow twoAccesses
    { curTick := 5, burstTicks := [0], log := [⟨5, 5, 0, none⟩, ⟨0, 0, 0, none⟩] }
    (by decide +kernel) (by decide +kernel) 0
  revert hfits
  decide +kernel

end Gem5Dvr.CommandBus
