/-
  The commands of a DRAM interface in time (`mem/dram_interface.cc` 174-344, 346-617,
  `mem/dram_interface.hh`, `mem/mem_interface.hh`).

    1. The functions of the source: `activateBank`, `prechargeBank` and `doBurstAccess`, with the
       search for more hits that the adaptive page policies make.  An assertion or a panic leaves no
       result.
    2. `rule` and `ppdRule`: what each command asks of the later ones of its rank, as a table.
    3. The four `…AllowedAt` fields of the banks are read as floors (`Rank.floor`), one for each
       kind of command.  Each function raises the floors, issues at a floor or later, and leaves the
       floors beyond all that its command asks for (`Issues`).
    4. No run stops, and its commands keep the table and the activation window (`timing_respected`).

  The crux is `preAllowedAt`: an activation overwrites it and may lower it.  The floor for a
  precharge is `preAllowedAt` only while the row is open; of a closed bank it is `actAllowedAt`
  and `tRAS`.

  The checks of the command bus may delay a command and are otherwise arbitrary (`Bus`); the two that
  the controller makes are such (`Bus.ofController`).  Ticks do not wrap.
-/
import Mathlib.Algebra.GroupWithZero.Nat
import Mathlib.Data.Fintype.Card
import Mathlib.Logic.Function.Basic
import Gem5Dvr.CommandBus
import Gem5Dvr.Lib.Spacing
import Gem5Dvr.Lib.Trace

namespace Gem5Dvr.DramTiming

open List

open Spacing (Stamped Apart Spaced Clears Covers Windowed ring)

scoped instance neZero2 : NeZero 2 := ⟨by decide⟩
scoped instance neZero4 : NeZero 4 := ⟨by decide⟩

/-! ## The functions of the source -/

/-- The page policies. -/
inductive PageManage where
  | open'
  | open_adaptive
  | close
  | close_adaptive
  deriving DecidableEq

/-- The parameters.  The last field is a check of the constructor. -/
structure Params where
  ranksPerChannel : Nat
  banksPerRank : Nat
  bankGroupsPerRank : Nat
  tRL : Nat
  tWL : Nat
  tBURST : Nat
  tBURST_MIN : Nat
  tBURST_MAX : Nat
  tCCD_L : Nat
  tCCD_L_WR : Nat
  tRCD_RD : Nat
  tRCD_WR : Nat
  tRP : Nat
  tRAS : Nat
  tWR : Nat
  tRTP : Nat
  tRRD : Nat
  tRRD_L : Nat
  tPPD : Nat
  tXAW : Nat
  tRTW : Nat
  tWTR : Nat
  tWTR_L : Nat
  tCS : Nat
  activationLimit : Nat
  pageMgmt : PageManage
  maxAccessesPerRow : Nat
  dataClockSync : Bool
  twoCycleActivate : Bool
  pseudoChannel : Nat
  tRRD_le : 0 < bankGroupsPerRank → tRRD ≤ tRRD_L

namespace Params

variable (P : Params)

/-- There are bank groups. -/
def bankGroupArch : Bool := decide (P.bankGroupsPerRank > 0)
/-- A burst may go between two of a bank group. -/
def burstInterleave : Bool := decide (P.tBURST ≠ P.tBURST_MIN)
/-- The delay of the clock's resynchronisation. -/
def clkResyncDelay : Nat := P.tBURST_MAX
/-- From a write to a read of its bank group. -/
def wrToRdDlySameBG : Nat := P.tWL + P.tBURST_MAX + P.tWTR_L
/-- From a read to a write of its bank group. -/
def rdToWrDlySameBG : Nat := P.tRTW + P.tBURST_MAX
/-- From a write to a read. -/
def writeToReadDelay : Nat := P.tBURST + P.tWTR + P.tWL
/-- From a read to a write. -/
def readToWriteDelay : Nat := P.tBURST + P.tRTW
/-- From a rank to another. -/
def rankToRankDelay : Nat := P.tBURST + P.tCS

/-- A bank of a rank. -/
abbrev BankId := Fin P.banksPerRank

/-- `bankgr` of a bank, as the constructor of a rank sets it. -/
def bankgr (b : P.BankId) : Nat := if P.bankGroupArch then b.val % P.bankGroupsPerRank else b.val

/-- Two banks in one group, where there are groups. -/
def sameGroup (a b : P.BankId) : Bool := P.bankGroupArch && P.bankgr a == P.bankgr b

/-- The delay from an activation of bank `a` to one of bank `b`. -/
def actDelay (a b : P.BankId) : Nat := if P.sameGroup a b then P.tRRD_L else P.tRRD

end Params

/-- The state of a bank; a row may be open. -/
structure Bank where
  openRow : Option Nat
  rdAllowedAt : Nat
  wrAllowedAt : Nat
  preAllowedAt : Nat
  actAllowedAt : Nat
  rowAccesses : Nat

/-- A bank as it is constructed. -/
def Bank.init : Bank := ⟨none, 0, 0, 0, 0, 0⟩

/-- `col_allowed_at`. -/
def Bank.colAllowedAt (bank : Bank) (read : Bool) : Nat :=
  if read then bank.rdAllowedAt else bank.wrAllowedAt

/-- The commands of a rank; a precharge is explicit or goes with a burst. -/
inductive Kind (P : Params) where
  | ACT (b : P.BankId)
  | RD (b : P.BankId)
  | WR (b : P.BankId)
  | PRE (b : P.BankId) (explicit : Bool)
  deriving DecidableEq

/-- The banks, and the last activations. -/
structure Rank (P : Params) where
  banks : P.BankId → Bank
  numBanksActive : Nat
  actTicks : List Nat
  lastBurstTick : Nat
  cmdList : List (Stamped (Kind P))

/-- `verifySingleCmd` and `verifyMultiCmd` as one command finds them: each may delay. -/
structure Bus where
  single : Nat → Nat
  multi : Nat → Nat
  le_single : ∀ t, t ≤ single t
  le_multi : ∀ t, t ≤ multi t

/-- The checks of the controller, where windows are booked and a pair may be split so far. -/
def Bus.ofController (c : CommandBus.Config) (burstTicks : List Nat) (split : Nat) : Bus where
  single t := ((CommandBus.verifySingleCmd c burstTicks t).map Prod.snd).getD t
  multi t := ((CommandBus.verifyMultiCmd c burstTicks t split).map (·.cmd_at)).getD t
  le_single t := by
    obtain ⟨b, t', h, -, -, hle, -⟩ := CommandBus.verifySingleCmd_spec (c := c) burstTicks t
    rw [h]
    exact hle
  le_multi t := by
    obtain ⟨k, h, hinv, -⟩ := CommandBus.verifyMultiCmd_spec (c := c) burstTicks t split
    rw [h]
    show t ≤ k.cmd_at
    rcases hinv.cmd_at_eq with ⟨-, hk⟩ | ⟨hle, hk⟩
    · exact Nat.le_of_eq hk.symm
    · -- the window booked begins after the one the command was asked for in
      have hmod := Nat.mod_lt t c.window_pos
      rw [CommandBus.getBurstWindow] at hle
      omega

variable {P : Params}

namespace Rank

/-- A rank as it is constructed. -/
def init (P : Params) : Rank P := ⟨fun _ => .init, 0, .replicate P.activationLimit 0, 0, []⟩

variable (r : Rank P)

/-- One bank is changed. -/
def setBank (b : P.BankId) (f : Bank → Bank) : Rank P :=
  { r with banks := Function.update r.banks b (f (r.banks b)) }

/-- Every bank is changed. -/
def mapBanks (f : P.BankId → Bank → Bank) : Rank P := { r with banks := fun i => f i (r.banks i) }

/-- `cmdList.push_back`. -/
def push (k : Kind P) (at_ : Nat) : Rank P := { r with cmdList := r.cmdList ++ [⟨k, at_⟩] }

/-- The row opens. -/
def openRow (b : P.BankId) (act_at : Nat) (row : Nat) : Rank P := { r.setBank b fun bank =>
      { bank with
        openRow := some row
        rowAccesses := 0
        preAllowedAt := act_at + P.tRAS
        rdAllowedAt := max (act_at + P.tRCD_RD) bank.rdAllowedAt
        wrAllowedAt := max (act_at + P.tRCD_WR) bank.wrAllowedAt } with
    numBanksActive := r.numBanksActive + 1 }

/-- No activation of the rank before `tRRD`. -/
def enforceRRD (b : P.BankId) (act_at : Nat) : Rank P := r.mapBanks fun i bank =>
    { bank with actAllowedAt := max (act_at + P.actDelay b i) bank.actAllowedAt }

/-- The book keeping of `tXAW`: the newest activation in front, the oldest goes. -/
def pushAct (act_at : Nat) : Rank P := { r with actTicks := act_at :: r.actTicks.dropLast }

/-- `actTicks.back()` is set, and the activation is within `tXAW` of it.  The difference is unsigned,
    so it is not small where it would be negative. -/
def tooEarly (oldest act_at : Nat) (P : Params) : Bool :=
  decide (oldest ≠ 0) && decide (oldest ≤ act_at) && decide (act_at - oldest < P.tXAW)

/-- The next activation is pushed behind the window. -/
def enforceXAW (oldest act_at : Nat) : Rank P :=
  if tooEarly oldest act_at P then
    r.mapBanks fun _ bank =>
      { bank with actAllowedAt := max (oldest + P.tXAW) bank.actAllowedAt }
  else r

/-- The part of `activateBank` on `actTicks`, which is empty where the limit is off; a panic where
    the window is broken. -/
def window (act_at : Nat) : Option (Rank P) :=
  match r.actTicks.getLast? with
  | none => some r
  | some oldest =>
    if tooEarly oldest act_at P then none
    else some ((r.pushAct act_at).enforceXAW ((r.pushAct act_at).actTicks.getLast?.getD 0) act_at)

/-- Opens a row, and puts off what has to wait for it. -/
def activateBank (bus : Bus) (b : P.BankId) (act_tick : Nat) (row : Nat) : Option (Rank P) :=
  let act_at := if P.twoCycleActivate then bus.multi act_tick else bus.single act_tick
  if r.actTicks.length = P.activationLimit ∧ (r.banks b).openRow = none ∧
      r.numBanksActive + 1 ≤ P.banksPerRank then
    (((r.openRow b act_at row).push (.ACT b) act_at).enforceRRD b act_at).window act_at
  else none

/-- The row closes at `pre_at`. -/
def closeRow (b : P.BankId) (pre_at : Nat) (auto_or_preall : Bool) : Rank P :=
  let closed := r.setBank b fun bank => { bank with openRow := none }
  let held :=
    if auto_or_preall then closed.setBank b fun bank => { bank with preAllowedAt := pre_at }
    else closed.mapBanks fun _ bank =>
      { bank with preAllowedAt := max (pre_at + P.tPPD) bank.preAllowedAt }
  let done := held.setBank b fun bank =>
    { bank with actAllowedAt := max bank.actAllowedAt (pre_at + P.tRP) }
  { done with numBanksActive := done.numBanksActive - 1 }.push (.PRE b !auto_or_preall) pre_at

/-- Closes a row. -/
def prechargeBank (bus : Bus) (b : P.BankId) (pre_tick : Nat) (auto_or_preall : Bool) :
    Option (Rank P) :=
  let pre_at := if auto_or_preall then pre_tick else bus.single pre_tick
  if (r.banks b).openRow ≠ none ∧ r.numBanksActive ≠ 0 then
    some (r.closeRow b pre_at auto_or_preall)
  else none

end Rank

/-- A packet; the index stands for its identity. -/
structure MemPacket (P : Params) where
  index : Nat
  read : Bool
  rank : Fin P.ranksPerChannel
  bank : P.BankId
  row : Nat
  pseudoChannel : Nat

/-- One queue searched for more hits and for a bank conflict; the search ends at a hit. -/
def searchQueue (pkt : MemPacket P) : Bool × Bool → List (MemPacket P) → Bool × Bool
  | found, [] => found
  | (true, conflict), _ :: _ => (true, conflict)
  | (false, conflict), p :: ps =>
    if p.pseudoChannel ≠ P.pseudoChannel then searchQueue pkt (false, conflict) ps
    else if p.index = pkt.index then searchQueue pkt (false, conflict) ps
    else
      let same_rank_bank := decide (pkt.rank = p.rank) && decide (pkt.bank = p.bank)
      let same_row := decide (pkt.row = p.row)
      searchQueue pkt (same_rank_bank && same_row, conflict || (same_rank_bank && !same_row)) ps

/-- The decision for an auto-precharge, after the access has been counted. -/
def autoPrecharge (pkt : MemPacket P) (rowAccesses : Nat) (queue : List (List (MemPacket P))) :
    Bool :=
  if decide (P.pageMgmt = .close) || decide (rowAccesses = P.maxAccessesPerRow) then true
  else if decide (P.pageMgmt = .open_adaptive) || decide (P.pageMgmt = .close_adaptive) then
    let found := queue.foldl (searchQueue pkt) (false, false)
    !found.1 && (found.2 || decide (P.pageMgmt = .close_adaptive))
  else false

/-- One call: the time, the packet, the queues, and what the command bus answers. -/
structure Call (P : Params) where
  curTick : Nat
  pkt : MemPacket P
  queue : List (List (MemPacket P))
  preBus : Bus
  actBus : Bus
  colBus : Bus

namespace Rank

variable (r : Rank P)

/-- The first part of `doBurstAccess`: the row of the packet is open afterwards. -/
def openFor (c : Call P) : Option (Rank P) :=
  let b := c.pkt.bank
  if (r.banks b).openRow = some c.pkt.row then some r
  else
    (if (r.banks b).openRow ≠ none then
        r.prechargeBank c.preBus b (max (r.banks b).preAllowedAt c.curTick) false
      else some r).bind fun r' =>
        r'.activateBank c.actBus b (max (r'.banks b).actAllowedAt c.curTick) c.pkt.row

/-- The data clock has run off since the last burst.  The difference is unsigned, so it is large
    where it would be negative. -/
def unsynced (c : Call P) (cmd_at : Nat) : Bool :=
  let max_sync := P.clkResyncDelay + if c.pkt.read then P.tRL else P.tWL
  decide (cmd_at < r.lastBurstTick) || decide (cmd_at - r.lastBurstTick > max_sync)

/-- The command after the bus has been asked. -/
def colTick (c : Call P) (next_burst_at : Nat) : Nat :=
  let col_allowed_at := (r.banks c.pkt.bank).colAllowedAt c.pkt.read
  let cmd_at := max (max col_allowed_at next_burst_at) c.curTick
  if P.dataClockSync && r.unsynced c cmd_at then c.colBus.multi cmd_at else c.colBus.single cmd_at

/-- `cmd_at` and `burst_gap`, at a boundary where bursts interleave. -/
def burstAt (c : Call P) (next_burst_at : Nat) : Nat × Nat :=
  let cmd_at := r.colTick c next_burst_at
  if P.burstInterleave then
    if cmd_at = r.lastBurstTick + P.tBURST_MIN then (cmd_at, P.tBURST)
    else if cmd_at < r.lastBurstTick + P.tBURST then (r.lastBurstTick + P.tBURST, P.tBURST_MIN)
    else (cmd_at, P.tBURST_MIN)
  else (cmd_at, P.tBURST_MIN)

end Rank

/-- `dly_to_rd_cmd` for a bank of the same rank. -/
def dlyToRd (P : Params) (read sameGroup : Bool) (burst_gap : Nat) : Nat :=
  if sameGroup then if read then P.tCCD_L else max P.tCCD_L P.wrToRdDlySameBG
  else if read then burst_gap else P.writeToReadDelay

/-- `dly_to_wr_cmd` for a bank of the same rank. -/
def dlyToWr (P : Params) (read sameGroup : Bool) (burst_gap : Nat) : Nat :=
  if sameGroup then if read then max P.tCCD_L P.rdToWrDlySameBG else P.tCCD_L_WR
  else if read then P.readToWriteDelay else burst_gap

namespace Rank

variable (r : Rank P)

/-- The next bursts of a rank the packet does not go to. -/
def switchRank (cmd_at : Nat) : Rank P := r.mapBanks fun _ bank =>
    { bank with
      rdAllowedAt := max (cmd_at + P.rankToRankDelay) bank.rdAllowedAt
      wrAllowedAt := max (cmd_at + P.rankToRankDelay) bank.wrAllowedAt }

/-- The next bursts of the rank of the packet. -/
def spaceBursts (c : Call P) (cmd_at burst_gap : Nat) : Rank P := r.mapBanks fun i bank =>
    { bank with
      rdAllowedAt := max (cmd_at + dlyToRd P c.pkt.read (P.sameGroup c.pkt.bank i) burst_gap)
        bank.rdAllowedAt
      wrAllowedAt := max (cmd_at + dlyToWr P c.pkt.read (P.sameGroup c.pkt.bank i) burst_gap)
        bank.wrAllowedAt }

/-- `readyTime` of the packet. -/
def readyTime (P : Params) (read : Bool) (cmd_at : Nat) : Nat :=
  if read then cmd_at + P.tRL + P.tBURST else cmd_at + P.tWL + P.tBURST

/-- The burst itself: the precharge it holds off, and the access counted. -/
def countBurst (c : Call P) (cmd_at : Nat) : Rank P := r.setBank c.pkt.bank fun bank =>
    { bank with
      preAllowedAt := max bank.preAllowedAt
        (if c.pkt.read then cmd_at + P.tRTP else readyTime P c.pkt.read cmd_at + P.tWR)
      rowAccesses := (bank.rowAccesses + 1) % 2 ^ 32 }

/-- The burst in the rank of the packet. -/
def burst (c : Call P) (cmd_at burst_gap : Nat) : Rank P :=
  (({ r with lastBurstTick := cmd_at }.spaceBursts c cmd_at burst_gap).countBurst c cmd_at).push
    (if c.pkt.read then .RD c.pkt.bank else .WR c.pkt.bank) cmd_at

/-- The row closes after the burst, where that is decided. -/
def closeAfter (c : Call P) : Option (Rank P) :=
  let bank := r.banks c.pkt.bank
  if autoPrecharge c.pkt bank.rowAccesses c.queue then
    r.prechargeBank c.preBus c.pkt.bank (max c.curTick bank.preAllowedAt) true
  else some r

end Rank

/-- The interface: its ranks, and the tick the last call gave for the next burst. -/
structure Dram (P : Params) where
  ranks : Fin P.ranksPerChannel → Rank P
  nextBurstAt : Nat

/-- Every rank as it is constructed. -/
def Dram.init (P : Params) : Dram P := ⟨fun _ => .init P, 0⟩

/-- A burst: the row, its command, and what has to wait for it. -/
def Dram.doBurstAccess (d : Dram P) (c : Call P) : Option (Dram P) :=
  ((d.ranks c.pkt.rank).openFor c).bind fun r =>
    let cmd := r.burstAt c d.nextBurstAt
    ((r.burst c cmd.1 cmd.2).closeAfter c).map fun r' =>
      { ranks := fun j => if j = c.pkt.rank then r' else (d.ranks j).switchRank cmd.1
        nextBurstAt := cmd.1 + cmd.2 }

/-- A run of calls. -/
def run (P : Params) (cs : List (Call P)) : Option (Dram P) :=
  Trace.runs Dram.doBurstAccess (.init P) cs

/-! ## The timing table -/

/-- What a command asks of a later one of its rank: the least distance, where there is one. -/
def rule (P : Params) : Kind P → Kind P → Option Nat
  | .PRE a _, .ACT b => if a = b then some P.tRP else none
  | .ACT a, .ACT b => some (P.actDelay a b)
  | .ACT a, .RD b => if a = b then some P.tRCD_RD else none
  | .ACT a, .WR b => if a = b then some P.tRCD_WR else none
  | .RD a, .RD b => if P.sameGroup a b then some P.tCCD_L else none
  | .RD a, .WR b => if P.sameGroup a b then some P.tCCD_L else none
  | .WR a, .RD b => if P.sameGroup a b then some P.tCCD_L else none
  | .WR a, .WR b => if P.sameGroup a b then some P.tCCD_L_WR else none
  | .ACT a, .PRE b _ => if a = b then some P.tRAS else none
  | .RD a, .PRE b _ => if a = b then some P.tRTP else none
  | .WR a, .PRE b _ => if a = b then some (P.tWL + P.tBURST + P.tWR) else none
  | _, _ => none

/-- Explicit precharges: `tPPD` between two banks; a bank has been activated in between. -/
def ppdRule (P : Params) : Kind P → Kind P → Option Nat
  | .PRE a true, .PRE b true => some (if a = b then P.tRP + P.tRAS else P.tPPD)
  | _, _ => none

/-- The times of the activations. -/
def acts (log : List (Stamped (Kind P))) : List Nat := log.filterMap fun c => match c.kind with
    | .ACT _ => some c.time
    | _ => none

/-- A rank respects the timing: the table, and at most `activationLimit` activations in `tXAW` where
    there is a limit. -/
structure Respects (P : Params) (log : List (Stamped (Kind P))) : Prop where
  table : Spaced (rule P) log
  precharges : Spaced (ppdRule P) log
  window : 0 < P.activationLimit → Windowed P.activationLimit P.tXAW (acts log)

/-! ## The floors -/

/-- The first tick at which a command of the kind may come. -/
def Bank.preFloor (P : Params) (bank : Bank) : Nat :=
  if bank.openRow = none then bank.actAllowedAt + P.tRAS else bank.preAllowedAt

/-- The first tick allowed to a command. -/
def Rank.floor (r : Rank P) : Kind P → Nat
  | .ACT b => (r.banks b).actAllowedAt
  | .RD b => (r.banks b).rdAllowedAt
  | .WR b => (r.banks b).wrAllowedAt
  | .PRE b _ => (r.banks b).preFloor P

/-- The floors rise, bank by bank. -/
structure Bank.Rises (P : Params) (bank bank' : Bank) : Prop where
  rd : bank.rdAllowedAt ≤ bank'.rdAllowedAt
  wr : bank.wrAllowedAt ≤ bank'.wrAllowedAt
  act : bank.actAllowedAt ≤ bank'.actAllowedAt
  pre : bank.preFloor P ≤ bank'.preFloor P

theorem Bank.Rises.rfl' (bank : Bank) : bank.Rises P bank :=
  ⟨Nat.le_refl _, Nat.le_refl _, Nat.le_refl _, Nat.le_refl _⟩

theorem Bank.Rises.trans {b₁ b₂ b₃ : Bank} (h : b₁.Rises P b₂) (h' : b₂.Rises P b₃) :
    b₁.Rises P b₃ :=
  ⟨h.rd.trans h'.rd, h.wr.trans h'.wr, h.act.trans h'.act, h.pre.trans h'.pre⟩

theorem floor_le_of_rises {r r' : Rank P} (h : ∀ b, (r.banks b).Rises P (r'.banks b))
    (k : Kind P) : r.floor k ≤ r'.floor k := by
  cases k with
  | ACT b => exact (h b).act
  | RD b => exact (h b).rd
  | WR b => exact (h b).wr
  | PRE b explicit => exact (h b).pre

/-- One command is issued: at its floor or later, and the floors are beyond what it asks for. -/
structure Issues (r r' : Rank P) (k : Kind P) (t : Nat) : Prop where
  list : r'.cmdList = r.cmdList ++ [⟨k, t⟩]
  rises : ∀ b, (r.banks b).Rises P (r'.banks b)
  late : r.floor k ≤ t
  clears : Clears (rule P) r'.floor ⟨k, t⟩

@[simp] theorem setBank_self (r : Rank P) (b : P.BankId) (f : Bank → Bank) :
    (r.setBank b f).banks b = f (r.banks b) := Function.update_self ..

@[simp] theorem setBank_other (r : Rank P) {b i : P.BankId} (h : i ≠ b) (f : Bank → Bank) :
    (r.setBank b f).banks i = r.banks i := Function.update_of_ne h ..

@[simp] theorem mapBanks_banks (r : Rank P) (f : P.BankId → Bank → Bank) (i : P.BankId) :
    (r.mapBanks f).banks i = f i (r.banks i) := rfl

/-! ## A precharge -/

/-- The banks after a row has closed. -/
theorem closeRow_self (r : Rank P) (b : P.BankId) (t : Nat) (auto : Bool) :
    ((r.closeRow b t auto).banks b).openRow = none ∧
      ((r.closeRow b t auto).banks b).rdAllowedAt = (r.banks b).rdAllowedAt ∧
      ((r.closeRow b t auto).banks b).wrAllowedAt = (r.banks b).wrAllowedAt ∧
      ((r.closeRow b t auto).banks b).actAllowedAt = max (r.banks b).actAllowedAt (t + P.tRP) := by
  cases auto <;> simp [Rank.closeRow, Rank.push]

theorem closeRow_other (r : Rank P) {b i : P.BankId} (h : i ≠ b) (t : Nat) (auto : Bool) :
    (r.closeRow b t auto).banks i =
      if auto then r.banks i
      else { r.banks i with preAllowedAt := max (t + P.tPPD) (r.banks i).preAllowedAt } := by
  cases auto <;> simp [Rank.closeRow, Rank.push, h]

theorem closeRow_issues {r : Rank P} {b : P.BankId} {t : Nat} (auto : Bool)
    (hopen : (r.banks b).openRow ≠ none) (hlate : (r.banks b).preAllowedAt ≤ t) :
    Issues r (r.closeRow b t auto) (.PRE b !auto) t := by
  obtain ⟨hrow, hrd, hwr, hact⟩ := closeRow_self r b t auto
  refine ⟨by cases auto <;> rfl, fun i => ?_, ?_, fun k g hg => ?_⟩
  · by_cases hi : i = b
    · subst hi
      refine ⟨Nat.le_of_eq hrd.symm, Nat.le_of_eq hwr.symm, by omega, ?_⟩
      rw [Bank.preFloor, Bank.preFloor, if_neg hopen, if_pos hrow]
      omega
    · rw [closeRow_other r hi]
      split
      · exact .rfl' _
      · refine ⟨Nat.le_refl _, Nat.le_refl _, Nat.le_refl _, ?_⟩
        unfold Bank.preFloor
        split
        · exact Nat.le_refl _
        · exact Nat.le_max_right _ _
  · show (r.banks b).preFloor P ≤ t
    rw [Bank.preFloor, if_neg hopen]
    exact hlate
  · -- a precharge asks for `tRP` before its bank is activated
    cases k with
    | ACT a =>
      obtain ⟨rfl, rfl⟩ : b = a ∧ P.tRP = g := by simpa [rule] using hg
      show t + P.tRP ≤ ((r.closeRow b t auto).banks b).actAllowedAt
      omega
    | RD a => simp [rule] at hg
    | WR a => simp [rule] at hg
    | PRE a explicit => simp [rule] at hg

/-- Of two explicit precharges the second waits for `tPPD`, where its bank is open. -/
theorem closeRow_holds (r : Rank P) {b i : P.BankId} (h : i ≠ b) (t : Nat) :
    t + P.tPPD ≤ ((r.closeRow b t false).banks i).preAllowedAt := by
  rw [closeRow_other r h]
  exact Nat.le_max_left _ _

/-! ## An activation -/

/-- The rank before its window is looked at. -/
def Rank.activated (r : Rank P) (b : P.BankId) (act_at row : Nat) : Rank P :=
  ((r.openRow b act_at row).push (.ACT b) act_at).enforceRRD b act_at

theorem activated_self (r : Rank P) (b : P.BankId) (t row : Nat) : (r.activated b t row).banks b =
      { openRow := some row
        rdAllowedAt := max (t + P.tRCD_RD) (r.banks b).rdAllowedAt
        wrAllowedAt := max (t + P.tRCD_WR) (r.banks b).wrAllowedAt
        preAllowedAt := t + P.tRAS
        actAllowedAt := max (t + P.actDelay b b) (r.banks b).actAllowedAt
        rowAccesses := 0 } := by
  simp [Rank.activated, Rank.enforceRRD, Rank.push, Rank.openRow]

theorem activated_other (r : Rank P) {b i : P.BankId} (h : i ≠ b) (t row : Nat) :
    (r.activated b t row).banks i =
      { r.banks i with actAllowedAt := max (t + P.actDelay b i) (r.banks i).actAllowedAt } := by
  simp [Rank.activated, Rank.enforceRRD, Rank.push, Rank.openRow, h]

/-- Every bank waits for the delay from the activation. -/
theorem activated_act (r : Rank P) (b i : P.BankId) (t row : Nat) :
    ((r.activated b t row).banks i).actAllowedAt =
      max (t + P.actDelay b i) (r.banks i).actAllowedAt := by
  by_cases hi : i = b
  · subst hi
    rw [activated_self]
  · rw [activated_other r hi]

theorem activated_issues {r : Rank P} {b : P.BankId} {t : Nat} (row : Nat)
    (hclosed : (r.banks b).openRow = none) (hlate : (r.banks b).actAllowedAt ≤ t) :
    Issues r (r.activated b t row) (.ACT b) t := by
  refine ⟨rfl, fun i => ?_, hlate, fun k g hg => ?_⟩
  · by_cases hi : i = b
    · subst hi
      rw [activated_self]
      refine ⟨Nat.le_max_right _ _, Nat.le_max_right _ _, Nat.le_max_right _ _, ?_⟩
      -- the bank was closed, so its floor was `actAllowedAt` and `tRAS`
      rw [Bank.preFloor, Bank.preFloor, if_pos hclosed, if_neg (by simp)]
      show (r.banks i).actAllowedAt + P.tRAS ≤ t + P.tRAS
      omega
    · rw [activated_other r hi]
      refine ⟨Nat.le_refl _, Nat.le_refl _, Nat.le_max_right _ _, ?_⟩
      unfold Bank.preFloor
      dsimp only
      split <;> omega
  · cases k with
    | ACT a =>
      have hg' : P.actDelay b a = g := by simpa [rule] using hg
      show t + g ≤ ((r.activated b t row).banks a).actAllowedAt
      rw [activated_act]
      omega
    | RD a =>
      obtain ⟨rfl, rfl⟩ : b = a ∧ P.tRCD_RD = g := by simpa [rule] using hg
      show t + P.tRCD_RD ≤ ((r.activated b t row).banks b).rdAllowedAt
      rw [activated_self]
      exact Nat.le_max_left _ _
    | WR a =>
      obtain ⟨rfl, rfl⟩ : b = a ∧ P.tRCD_WR = g := by simpa [rule] using hg
      show t + P.tRCD_WR ≤ ((r.activated b t row).banks b).wrAllowedAt
      rw [activated_self]
      exact Nat.le_max_left _ _
    | PRE a explicit =>
      obtain ⟨rfl, rfl⟩ : b = a ∧ P.tRAS = g := by simpa [rule] using hg
      show t + P.tRAS ≤ ((r.activated b t row).banks b).preFloor P
      rw [activated_self, Bank.preFloor, if_neg (by simp)]

/-- Only `actAllowedAt` of the banks has risen. -/
def Held (r r' : Rank P) : Prop :=
  ∀ i, ∃ a, (r.banks i).actAllowedAt ≤ a ∧ r'.banks i = { r.banks i with actAllowedAt := a }

theorem Held.rises {r r' : Rank P} (h : Held r r') (i : P.BankId) :
    (r.banks i).Rises P (r'.banks i) := by
  obtain ⟨a, ha, hi⟩ := h i
  rw [hi]
  refine ⟨Nat.le_refl _, Nat.le_refl _, ha, ?_⟩
  unfold Bank.preFloor
  dsimp only
  split <;> omega

theorem Held.openRow {r r' : Rank P} (h : Held r r') (i : P.BankId) :
    (r'.banks i).openRow = (r.banks i).openRow := by
  obtain ⟨a, -, hi⟩ := h i
  rw [hi]

theorem enforceXAW_held (r : Rank P) (oldest t : Nat) : Held r (r.enforceXAW oldest t) := by
  intro i
  unfold Rank.enforceXAW
  split
  · exact ⟨_, Nat.le_max_right _ _, rfl⟩
  · exact ⟨_, Nat.le_refl _, rfl⟩

/-- After it the next activation keeps `tXAW` from the oldest of the window. -/
theorem enforceXAW_spec {r : Rank P} {oldest t : Nat} (hle : oldest ≤ t)
    (hacts : ∀ i, t ≤ (r.banks i).actAllowedAt) (hset : oldest ≠ 0) (i : P.BankId) :
    oldest + P.tXAW ≤ ((r.enforceXAW oldest t).banks i).actAllowedAt := by
  have hi := hacts i
  unfold Rank.enforceXAW
  split
  · exact Nat.le_max_left _ _
  · next hfar =>
    have hgap : P.tXAW ≤ t - oldest := by
      by_contra hnear
      exact hfar (by simp [Rank.tooEarly, hset, hle, Nat.lt_of_not_le hnear])
    omega

theorem enforceXAW_same (r : Rank P) (oldest t : Nat) :
    (r.enforceXAW oldest t).cmdList = r.cmdList ∧
      (r.enforceXAW oldest t).numBanksActive = r.numBanksActive ∧
      (r.enforceXAW oldest t).actTicks = r.actTicks := by
  unfold Rank.enforceXAW
  split <;> exact ⟨rfl, rfl, rfl⟩

/-- The book keeping of the activations: the ring of the last ones, none of them after a floor, and
    the next one kept away from the oldest. -/
structure Ticks (r : Rank P) (times : List Nat) : Prop where
  ring : r.actTicks = ring P.activationLimit times
  past : ∀ x ∈ r.actTicks, ∀ i, x ≤ (r.banks i).actAllowedAt
  held : ∀ x, r.actTicks.getLast? = some x → x ≠ 0 → ∀ i, x + P.tXAW ≤ (r.banks i).actAllowedAt

theorem Ticks.wait {r r' : Rank P} {times : List Nat} (h : Ticks r times)
    (hticks : r'.actTicks = r.actTicks) (hrises : ∀ i, (r.banks i).Rises P (r'.banks i)) :
    Ticks r' times := by
  refine ⟨hticks.trans h.ring, fun x hx i => ?_, fun x hx h0 i => ?_⟩
  · exact Nat.le_trans (h.past x (hticks ▸ hx) i) (hrises i).act
  · exact Nat.le_trans (h.held x (hticks ▸ hx) h0 i) (hrises i).act

/-- The window is never broken, and an activation moves it. -/
theorem window_spec {r s : Rank P} {times : List Nat} (h : Ticks r times) {t : Nat}
    (hs : s.actTicks = r.actTicks) {b : P.BankId} (hlate : (r.banks b).actAllowedAt ≤ t)
    (hacts : ∀ i, t ≤ (s.banks i).actAllowedAt) :
    ∃ s', s.window t = some s' ∧ Held s s' ∧ s'.cmdList = s.cmdList ∧
      s'.numBanksActive = s.numBanksActive ∧ Ticks s' (times ++ [t]) := by
  unfold Rank.window
  rw [hs]
  cases hlast : r.actTicks.getLast? with
  | none =>
    -- the limit is off
    have hnil : r.actTicks = [] := getLast?_eq_none_iff.mp hlast
    have hzero : P.activationLimit = 0 := by
      rw [← Spacing.length_ring P.activationLimit times, ← h.ring, hnil]
      rfl
    refine ⟨s, rfl, fun i => ⟨_, Nat.le_refl _, rfl⟩, rfl, rfl, ?_, ?_, ?_⟩
    · rw [hs, hnil, hzero]
      rfl
    · rw [hs, hnil]
      exact fun x hx => nomatch hx
    · rw [hs, hlast]
      exact fun x hx => nomatch hx
  | some oldest =>
    have hpos : 0 < P.activationLimit := by
      rw [← Spacing.length_ring P.activationLimit times, ← h.ring]
      exact length_pos_of_ne_nil fun hnil => by rw [hnil] at hlast; cases hlast
    have hfar : Rank.tooEarly oldest t P = false := by
      by_cases h0 : oldest = 0
      · simp [Rank.tooEarly, h0]
      · have := h.held oldest hlast h0 b
        have hnot : ¬ t - oldest < P.tXAW := by omega
        simp [Rank.tooEarly, hnot]
    dsimp only
    rw [hfar, if_neg (by simp)]
    generalize hv : s.pushAct t = v
    have hvt : v.actTicks = t :: r.actTicks.dropLast := by
      rw [← hv, ← hs]
      rfl
    have hvb : v.banks = s.banks := by
      rw [← hv]
      rfl
    obtain ⟨hlist, hnum, hticks⟩ := enforceXAW_same v (v.actTicks.getLast?.getD 0) t
    have hheld := enforceXAW_held v (v.actTicks.getLast?.getD 0) t
    have hpast : ∀ x ∈ v.actTicks, x ≤ t := by
      intro x hx
      rw [hvt] at hx
      rcases mem_cons.mp hx with rfl | hx
      · exact Nat.le_refl _
      · exact Nat.le_trans (h.past x (dropLast_subset _ hx) b) hlate
    have hvacts : ∀ i, t ≤ (v.banks i).actAllowedAt := fun i => hvb ▸ hacts i
    refine ⟨_, rfl, fun i => ?_, ?_, ?_, ?_, fun x hx i => ?_, fun x hx h0 i => ?_⟩
    · rw [← hvb]
      exact hheld i
    · rw [hlist, ← hv]
      rfl
    · rw [hnum, ← hv]
      rfl
    · rw [hticks, hvt, Spacing.ring_snoc hpos, h.ring]
    · rw [hticks] at hx
      exact Nat.le_trans (hpast x hx) (Nat.le_trans (hvacts i) (hheld.rises i).act)
    · rw [hticks] at hx
      rw [hx]
      exact enforceXAW_spec (hpast x (mem_of_getLast? hx)) hvacts h0 i

/-! ## A burst -/

/-- The burst waits for its bank. -/
theorem le_burstAt (r : Rank P) (c : Call P) (next : Nat) :
    (r.banks c.pkt.bank).colAllowedAt c.pkt.read ≤ (r.burstAt c next).1 := by
  have hcol : (r.banks c.pkt.bank).colAllowedAt c.pkt.read ≤ r.colTick c next := by
    unfold Rank.colTick
    generalize (r.banks c.pkt.bank).colAllowedAt c.pkt.read = col
    have hmax : col ≤ max (max col next) c.curTick := by omega
    dsimp only
    split
    · exact Nat.le_trans hmax (c.colBus.le_multi _)
    · exact Nat.le_trans hmax (c.colBus.le_single _)
  unfold Rank.burstAt
  dsimp only
  split
  · split
    · exact hcol
    · split
      · next hlt => exact Nat.le_trans hcol (Nat.le_of_lt hlt)
      · exact hcol
  · exact hcol

/-- The banks of the rank after a burst at `t`. -/
theorem burst_banks (r : Rank P) (c : Call P) (t gap : Nat) (i : P.BankId) :
    ((r.burst c t gap).banks i).openRow = (r.banks i).openRow ∧
      ((r.burst c t gap).banks i).actAllowedAt = (r.banks i).actAllowedAt ∧
      ((r.burst c t gap).banks i).rdAllowedAt =
        max (t + dlyToRd P c.pkt.read (P.sameGroup c.pkt.bank i) gap) (r.banks i).rdAllowedAt ∧
      ((r.burst c t gap).banks i).wrAllowedAt =
        max (t + dlyToWr P c.pkt.read (P.sameGroup c.pkt.bank i) gap) (r.banks i).wrAllowedAt ∧
      ((r.burst c t gap).banks i).preAllowedAt =
        if i = c.pkt.bank then
          max (r.banks i).preAllowedAt
            (if c.pkt.read then t + P.tRTP else Rank.readyTime P c.pkt.read t + P.tWR)
        else (r.banks i).preAllowedAt := by
  by_cases hi : i = c.pkt.bank
  · subst hi
    simp [Rank.burst, Rank.push, Rank.countBurst, Rank.spaceBursts]
  · simp [Rank.burst, Rank.push, Rank.countBurst, Rank.spaceBursts, hi]

/-- The command of a packet. -/
def colKind (c : Call P) : Kind P := if c.pkt.read then .RD c.pkt.bank else .WR c.pkt.bank

/-- The delays of a burst are at least what the table asks for. -/
theorem rule_rd {c : Call P} {a : P.BankId} {g : Nat} (gap : Nat)
    (h : rule P (colKind c) (.RD a) = some g) :
    g ≤ dlyToRd P c.pkt.read (P.sameGroup c.pkt.bank a) gap := by
  unfold colKind at h
  cases hread : c.pkt.read with
  | true =>
    obtain ⟨hsame, rfl⟩ : P.sameGroup c.pkt.bank a = true ∧ P.tCCD_L = g := by
      simpa [rule, hread] using h
    simp [dlyToRd, hsame]
  | false =>
    obtain ⟨hsame, rfl⟩ : P.sameGroup c.pkt.bank a = true ∧ P.tCCD_L = g := by
      simpa [rule, hread] using h
    simp [dlyToRd, hsame]

theorem rule_wr {c : Call P} {a : P.BankId} {g : Nat} (gap : Nat)
    (h : rule P (colKind c) (.WR a) = some g) :
    g ≤ dlyToWr P c.pkt.read (P.sameGroup c.pkt.bank a) gap := by
  unfold colKind at h
  cases hread : c.pkt.read with
  | true =>
    obtain ⟨hsame, rfl⟩ : P.sameGroup c.pkt.bank a = true ∧ P.tCCD_L = g := by
      simpa [rule, hread] using h
    simp [dlyToWr, hsame]
  | false =>
    obtain ⟨hsame, rfl⟩ : P.sameGroup c.pkt.bank a = true ∧ P.tCCD_L_WR = g := by
      simpa [rule, hread] using h
    simp [dlyToWr, hsame]

/-- The data of a write ends at `readyTime`. -/
theorem rule_pre {c : Call P} {a : P.BankId} {g : Nat} {explicit : Bool} (t : Nat)
    (h : rule P (colKind c) (.PRE a explicit) = some g) : c.pkt.bank = a ∧
      t + g ≤ if c.pkt.read then t + P.tRTP else Rank.readyTime P c.pkt.read t + P.tWR := by
  unfold colKind at h
  cases hread : c.pkt.read with
  | true =>
    obtain ⟨hbank, rfl⟩ : c.pkt.bank = a ∧ P.tRTP = g := by simpa [rule, hread] using h
    exact ⟨hbank, Nat.le_refl _⟩
  | false =>
    obtain ⟨hbank, rfl⟩ : c.pkt.bank = a ∧ P.tWL + P.tBURST + P.tWR = g := by
      simpa [rule, hread] using h
    refine ⟨hbank, ?_⟩
    show t + (P.tWL + P.tBURST + P.tWR) ≤ t + P.tWL + P.tBURST + P.tWR
    omega

theorem burst_issues {r : Rank P} {c : Call P} {t : Nat} (gap : Nat)
    (hopen : (r.banks c.pkt.bank).openRow ≠ none)
    (hlate : (r.banks c.pkt.bank).colAllowedAt c.pkt.read ≤ t) :
    Issues r (r.burst c t gap) (colKind c) t := by
  refine ⟨rfl, fun i => ?_, ?_, fun k g hg => ?_⟩
  · obtain ⟨hrow, hact, hrd, hwr, hpre⟩ := burst_banks r c t gap i
    refine ⟨hrd ▸ Nat.le_max_right _ _, hwr ▸ Nat.le_max_right _ _, Nat.le_of_eq hact.symm, ?_⟩
    rw [Bank.preFloor, Bank.preFloor, hrow, hact, hpre]
    split
    · exact Nat.le_refl _
    · split <;> omega
  · unfold colKind
    unfold Bank.colAllowedAt at hlate
    split
    · next hread => simpa [hread, Rank.floor] using hlate
    · next hwrite => simpa [hwrite, Rank.floor] using hlate
  · cases k with
    | ACT a => exact absurd hg (by unfold colKind; split <;> exact nofun)
    | RD a =>
      have hle := rule_rd gap hg
      show t + g ≤ ((r.burst c t gap).banks a).rdAllowedAt
      rw [(burst_banks r c t gap a).2.2.1]
      omega
    | WR a =>
      have hle := rule_wr gap hg
      show t + g ≤ ((r.burst c t gap).banks a).wrAllowedAt
      rw [(burst_banks r c t gap a).2.2.2.1]
      omega
    | PRE a explicit =>
      obtain ⟨rfl, hle⟩ := rule_pre t hg
      obtain ⟨hrow, -, -, -, hpre⟩ := burst_banks r c t gap c.pkt.bank
      show t + g ≤ ((r.burst c t gap).banks c.pkt.bank).preFloor P
      rw [Bank.preFloor, hrow, if_neg hopen, hpre, if_pos rfl]
      omega

/-- Another rank only waits longer. -/
theorem switchRank_rises (r : Rank P) (t : Nat) (i : P.BankId) :
    (r.banks i).Rises P ((r.switchRank t).banks i) :=
  ⟨Nat.le_max_right _ _, Nat.le_max_right _ _, Nat.le_refl _, Nat.le_refl _⟩

/-! ## The invariant of a rank -/

/-- The banks with an open row. -/
def opened (r : Rank P) : Finset P.BankId := Finset.univ.filter fun b => (r.banks b).openRow ≠ none

theorem mem_opened {r : Rank P} {b : P.BankId} : b ∈ opened r ↔ (r.banks b).openRow ≠ none := by
  simp [opened]

theorem opened_congr {r r' : Rank P}
    (h : ∀ i, (r'.banks i).openRow = (r.banks i).openRow) : opened r' = opened r := by
  ext b
  rw [mem_opened, mem_opened, h b]

/-- The commands of a rank keep the table, its floors are beyond all they ask for, and its counters
    and its window follow them. -/
structure Good (r : Rank P) : Prop where
  spaced : Spaced (rule P) r.cmdList
  covers : Covers (rule P) r.floor r.cmdList
  active : r.numBanksActive = (opened r).card
  ticks : Ticks r (acts r.cmdList)
  window : 0 < P.activationLimit → Windowed P.activationLimit P.tXAW (acts r.cmdList)
  positive : ∀ t ∈ acts r.cmdList, 0 < t

/-- The same for the explicit precharges; it does not hold between one and the activation that
    follows it. -/
structure Paired (r : Rank P) : Prop where
  spaced : Spaced (ppdRule P) r.cmdList
  covers : Covers (ppdRule P) r.floor r.cmdList

theorem good_init : Good (Rank.init P) where
  spaced := Spacing.spaced_nil
  covers := Spacing.covers_nil
  active := by
    have hnone : opened (Rank.init P) = ∅ := by
      ext b
      simp [mem_opened, Rank.init, Bank.init]
    rw [hnone]
    rfl
  ticks := by
    refine ⟨(Spacing.ring_nil _).symm, fun x hx i => ?_, fun x hx h0 => ?_⟩
    · rw [eq_of_mem_replicate hx]
      exact Nat.zero_le _
    · exact absurd (eq_of_mem_replicate (mem_of_getLast? hx)) h0
  window := fun _ => Spacing.windowed_nil _ _
  positive := fun _ h => nomatch h

theorem paired_init : Paired (Rank.init P) := ⟨Spacing.spaced_nil, Spacing.covers_nil⟩

/-- A rank that only waits longer. -/
theorem Good.wait {r r' : Rank P} (h : Good r) (hlist : r'.cmdList = r.cmdList)
    (hnum : r'.numBanksActive = r.numBanksActive) (hticks : r'.actTicks = r.actTicks)
    (hopen : ∀ i, (r'.banks i).openRow = (r.banks i).openRow)
    (hrises : ∀ i, (r.banks i).Rises P (r'.banks i)) : Good r' where
  spaced := hlist ▸ h.spaced
  covers := by
    rw [hlist]
    exact h.covers.mono (floor_le_of_rises hrises)
  active := by rw [hnum, h.active, opened_congr hopen]
  ticks := by
    rw [hlist]
    exact h.ticks.wait hticks hrises
  window := hlist ▸ h.window
  positive := hlist ▸ h.positive

theorem Paired.wait {r r' : Rank P} (h : Paired r) (hlist : r'.cmdList = r.cmdList)
    (hrises : ∀ i, (r.banks i).Rises P (r'.banks i)) : Paired r' where
  spaced := hlist ▸ h.spaced
  covers := by
    rw [hlist]
    exact h.covers.mono (floor_le_of_rises hrises)

theorem acts_append (log : List (Stamped (Kind P))) (k : Kind P) (t : Nat) :
    acts (log ++ [⟨k, t⟩]) = acts log ++ match k with
      | .ACT _ => [t]
      | _ => [] := by
  unfold acts
  rw [filterMap_append]
  cases k <;> rfl

/-- A command that is no activation. -/
theorem Good.issue {r r' : Rank P} {k : Kind P} {t : Nat} (h : Good r) (hi : Issues r r' k t)
    (hk : ∀ b, k ≠ .ACT b) (hticks : r'.actTicks = r.actTicks)
    (hactive : r'.numBanksActive = (opened r').card) : Good r' := by
  have hacts : acts r'.cmdList = acts r.cmdList := by
    rw [hi.list, acts_append]
    cases k with
    | ACT b => exact absurd rfl (hk b)
    | RD b => exact append_nil _
    | WR b => exact append_nil _
    | PRE b explicit => exact append_nil _
  refine ⟨?_, ?_, hactive, ?_, ?_, ?_⟩
  · rw [hi.list]
    exact h.spaced.snoc h.covers hi.late
  · rw [hi.list]
    exact h.covers.snoc (floor_le_of_rises hi.rises) hi.clears
  · rw [hacts]
    exact h.ticks.wait hticks hi.rises
  · rw [hacts]
    exact h.window
  · rw [hacts]
    exact h.positive

/-- A command that no explicit precharge is. -/
theorem Paired.issue {r r' : Rank P} {k : Kind P} {t : Nat} (h : Paired r) (hi : Issues r r' k t)
    (hk : ∀ k', ppdRule P k k' = none) : Paired r' where
  spaced := by
    rw [hi.list]
    exact h.spaced.snoc h.covers hi.late
  covers := by
    rw [hi.list]
    refine h.covers.snoc (floor_le_of_rises hi.rises) fun k' g hg => ?_
    rw [hk k'] at hg
    cases hg

/-! ## The parts of an access -/

/-- A precharge of an open row at its floor or later. -/
theorem Good.closeRow {r : Rank P} (h : Good r) {b : P.BankId} {t : Nat} (auto : Bool)
    (hopen : (r.banks b).openRow ≠ none) (hlate : (r.banks b).preAllowedAt ≤ t) :
    r.numBanksActive ≠ 0 ∧ Good (r.closeRow b t auto) := by
  have hcard : r.numBanksActive ≠ 0 := by
    rw [h.active]
    exact Finset.card_ne_zero_of_mem (mem_opened.mpr hopen)
  refine ⟨hcard, h.issue (closeRow_issues auto hopen hlate) (fun _ hk => nomatch hk) ?_ ?_⟩
  · cases auto <;> rfl
  · have herase : opened (r.closeRow b t auto) = (opened r).erase b := by
      ext i
      rw [Finset.mem_erase, mem_opened, mem_opened]
      by_cases hi : i = b
      · subst hi
        simp [(closeRow_self r i t auto).1]
      · rw [closeRow_other r hi]
        cases auto <;> simp [hi]
    rw [herase, Finset.card_erase_of_mem (mem_opened.mpr hopen), ← h.active]
    cases auto <;> rfl

/-- An activation of a closed bank never stops, and keeps the invariant. -/
theorem Good.activateBank {r : Rank P} (h : Good r) {b : P.BankId} (act_tick : Nat) (bus : Bus)
    (row : Nat) (hclosed : (r.banks b).openRow = none)
    (hlate : (r.banks b).actAllowedAt ≤ act_tick) (hpos : 0 < act_tick) :
    ∃ r' t, r.activateBank bus b act_tick row = some r' ∧ act_tick ≤ t ∧ Good r' ∧
      Issues r r' (.ACT b) t ∧ Held (r.activated b t row) r' := by
  obtain ⟨t, ht, hle⟩ : ∃ t, t = (if P.twoCycleActivate then bus.multi act_tick
      else bus.single act_tick) ∧ act_tick ≤ t := by
    refine ⟨_, rfl, ?_⟩
    split
    · exact bus.le_multi _
    · exact bus.le_single _
  have hnot : b ∉ opened r := fun hb => mem_opened.mp hb hclosed
  have hroom : r.numBanksActive + 1 ≤ P.banksPerRank := by
    have hlt : (opened r).card < Fintype.card P.BankId := Finset.card_lt_univ_of_notMem hnot
    rw [Fintype.card_fin] at hlt
    rw [h.active]
    exact hlt
  have hlen : r.actTicks.length = P.activationLimit := by
    rw [h.ticks.ring, Spacing.length_ring]
  have hiss := activated_issues (t := t) row hclosed (Nat.le_trans hlate hle)
  obtain ⟨r', hr', hheld, hlist, hnum, hticks⟩ :=
    window_spec (s := r.activated b t row) h.ticks rfl (Nat.le_trans hlate hle) fun i => by
      rw [activated_act]
      omega
  have hissue : Issues r r' (.ACT b) t := by
    refine ⟨hlist.trans hiss.list, fun i => (hiss.rises i).trans (hheld.rises i), hiss.late,
      fun k g hg => ?_⟩
    exact Nat.le_trans (hiss.clears k g hg) (floor_le_of_rises hheld.rises k)
  have hacts : acts r'.cmdList = acts r.cmdList ++ [t] := by rw [hissue.list, acts_append]
  refine ⟨r', t, ?_, hle, ⟨?_, ?_, ?_, hacts ▸ hticks, fun hlim => ?_, fun x hx => ?_⟩, hissue,
    hheld⟩
  · unfold Rank.activateBank
    rw [← ht, if_pos ⟨hlen, hclosed, hroom⟩]
    exact hr'
  · rw [hissue.list]
    exact h.spaced.snoc h.covers hissue.late
  · rw [hissue.list]
    exact h.covers.snoc (floor_le_of_rises hissue.rises) hissue.clears
  · have hinsert : opened r' = insert b (opened r) := by
      ext i
      rw [Finset.mem_insert, mem_opened, mem_opened, hheld.openRow]
      by_cases hi : i = b
      · subst hi
        simp [activated_self]
      · simp [activated_other r hi, hi]
    rw [hnum, hinsert, Finset.card_insert_of_notMem hnot, ← h.active]
    rfl
  · -- the oldest of the window held the floors `tXAW` behind it
    rw [hacts]
    refine (h.window hlim).snoc hlim fun a hlen' ha => ?_
    have hapos : a ≠ 0 := Nat.ne_of_gt (h.positive a (mem_of_getElem? ha))
    have hlast : r.actTicks.getLast? = some a := by
      cases hl : r.actTicks.getLast? with
      | none =>
        rw [getLast?_eq_none_iff.mp hl] at hlen
        exact absurd hlen (Nat.ne_of_lt hlim)
      | some x =>
        rw [h.ticks.ring] at hl
        have hx := (Spacing.getLast?_ring hlim _ hl).1 hlen'
        rw [ha] at hx
        exact hx.symm
    exact Nat.le_trans (h.ticks.held a hlast hapos b) (Nat.le_trans hlate hle)
  · rw [hacts] at hx
    rcases mem_append.mp hx with hx | hx
    · exact h.positive x hx
    · rw [mem_singleton.mp hx]
      omega

theorem le_actDelay (a b : P.BankId) : P.tRRD ≤ P.actDelay a b := by
  unfold Params.actDelay Params.sameGroup Params.bankGroupArch
  split
  · next h =>
    refine P.tRRD_le ?_
    by_contra hzero
    simp [hzero] at h
  · exact Nat.le_refl _

/-- What an explicit precharge asks of the others, once its bank has been activated. -/
theorem clears_reopened (hppd : P.tPPD ≤ P.tRP + P.tRRD + P.tRAS) {r r' : Rank P} {b : P.BankId}
    {pre_at act_at : Nat} (row : Nat) (hlate : pre_at + P.tRP ≤ act_at)
    (hheld : Held ((r.closeRow b pre_at false).activated b act_at row) r') :
    Clears (ppdRule P) r'.floor ⟨.PRE b true, pre_at⟩ := by
  intro k g hg
  cases k with
  | ACT a => simp [ppdRule] at hg
  | RD a => simp [ppdRule] at hg
  | WR a => simp [ppdRule] at hg
  | PRE a explicit =>
    cases explicit with
    | false => simp [ppdRule] at hg
    | true =>
      obtain ⟨act, hact, hbank⟩ := hheld a
      show pre_at + g ≤ (r'.banks a).preFloor P
      rw [hbank]
      by_cases hab : a = b
      · -- the bank itself has been activated since
        subst hab
        have hg' : P.tRP + P.tRAS = g := by simpa [ppdRule] using hg
        rw [activated_self, Bank.preFloor, if_neg (by simp)]
        show pre_at + g ≤ act_at + P.tRAS
        omega
      · have hg' : P.tPPD = g := by simpa [ppdRule, Ne.symm hab] using hg
        have hdelay := le_actDelay b a
        rw [activated_act] at hact
        rw [activated_other _ hab, Bank.preFloor]
        dsimp only
        split
        · -- a closed bank waits for its activation, and that for this one
          omega
        · have := closeRow_holds r hab pre_at
          omega

theorem ppdRule_act (k : Kind P) (b : P.BankId) : ppdRule P k (.ACT b) = none := by
  cases k with
  | ACT a => rfl
  | RD a => rfl
  | WR a => rfl
  | PRE a explicit => cases explicit <;> rfl

/-- The row of the packet is open, and nothing has stopped. -/
theorem openFor_spec (hppd : P.tPPD ≤ P.tRP + P.tRRD + P.tRAS) {r : Rank P} (h : Good r)
    (hp : Paired r) {c : Call P} (hpos : 0 < c.curTick) :
    ∃ r', r.openFor c = some r' ∧ Good r' ∧ Paired r' ∧ (r'.banks c.pkt.bank).openRow ≠ none := by
  unfold Rank.openFor
  by_cases hhit : (r.banks c.pkt.bank).openRow = some c.pkt.row
  · rw [if_pos hhit]
    exact ⟨r, rfl, h, hp, by rw [hhit]; simp⟩
  · rw [if_neg hhit]
    have hopened : ∀ {s r' : Rank P} {t : Nat}, Held (s.activated c.pkt.bank t c.pkt.row) r' →
        (r'.banks c.pkt.bank).openRow ≠ none := by
      intro s r' t hheld
      rw [hheld.openRow, activated_self]
      simp
    by_cases hclosed : (r.banks c.pkt.bank).openRow = none
    · rw [if_neg (not_not_intro hclosed), Option.bind_some]
      obtain ⟨r', t, hr', -, hgood, hiss, hheld⟩ := h.activateBank (b := c.pkt.bank)
        (max (r.banks c.pkt.bank).actAllowedAt c.curTick) c.actBus c.pkt.row hclosed
        (by omega) (by omega)
      exact ⟨r', hr', hgood, hp.issue hiss fun k' => by cases k' <;> rfl, hopened hheld⟩
    · rw [if_pos hclosed]
      -- another row is open: it is closed, and its bank activated at once
      obtain ⟨pre_at, hpre, hle⟩ : ∃ t, t = c.preBus.single
          (max (r.banks c.pkt.bank).preAllowedAt c.curTick) ∧
          max (r.banks c.pkt.bank).preAllowedAt c.curTick ≤ t := ⟨_, rfl, c.preBus.le_single _⟩
      have hlate : (r.banks c.pkt.bank).preAllowedAt ≤ pre_at := by omega
      obtain ⟨hnum, hgood₁⟩ := h.closeRow false hclosed hlate
      have hiss₁ := closeRow_issues false hclosed hlate
      obtain ⟨hrow, -, -, hact⟩ := closeRow_self r c.pkt.bank pre_at false
      have hcall : r.prechargeBank c.preBus c.pkt.bank
          (max (r.banks c.pkt.bank).preAllowedAt c.curTick) false =
            some (r.closeRow c.pkt.bank pre_at false) := by
        unfold Rank.prechargeBank
        simp only [Bool.false_eq_true, if_false]
        rw [← hpre, if_pos ⟨hclosed, hnum⟩]
      rw [hcall, Option.bind_some]
      obtain ⟨r', t, hr', ht, hgood, hiss, hheld⟩ := hgood₁.activateBank
        (max ((r.closeRow c.pkt.bank pre_at false).banks c.pkt.bank).actAllowedAt
          c.curTick) c.actBus c.pkt.row hrow (by omega) (by omega)
      refine ⟨r', hr', hgood, ⟨?_, ?_⟩, hopened hheld⟩
      · rw [hiss.list, hiss₁.list]
        exact (hp.spaced.snoc hp.covers hiss₁.late).snoc_free fun d _ => ppdRule_act d.kind _
      · rw [hiss.list, hiss₁.list]
        have hrises : ∀ i, (r.banks i).Rises P (r'.banks i) :=
          fun i => (hiss₁.rises i).trans (hiss.rises i)
        have hpair := hp.covers.snoc (floor_le_of_rises hrises)
          (clears_reopened hppd c.pkt.row (by omega) hheld)
        exact hpair.snoc (fun k => Nat.le_refl _) fun k g hg => by cases k <;> cases hg

/-- The row may close after the burst. -/
theorem closeAfter_spec {r : Rank P} (h : Good r) (hp : Paired r) {c : Call P}
    (hopen : (r.banks c.pkt.bank).openRow ≠ none) :
    ∃ r', r.closeAfter c = some r' ∧ Good r' ∧ Paired r' := by
  unfold Rank.closeAfter
  dsimp only
  split
  · have hlate : (r.banks c.pkt.bank).preAllowedAt ≤
        max c.curTick (r.banks c.pkt.bank).preAllowedAt := Nat.le_max_right _ _
    obtain ⟨hnum, hgood⟩ := h.closeRow true hopen hlate
    refine ⟨_, ?_, hgood, hp.issue (closeRow_issues true hopen hlate) fun k' => ?_⟩
    · unfold Rank.prechargeBank
      rw [if_pos rfl, if_pos ⟨hopen, hnum⟩]
    · cases k' <;> rfl
  · exact ⟨r, rfl, h, hp⟩

theorem burst_spec {r : Rank P} (h : Good r) (hp : Paired r) {c : Call P} {t : Nat} (gap : Nat)
    (hopen : (r.banks c.pkt.bank).openRow ≠ none)
    (hlate : (r.banks c.pkt.bank).colAllowedAt c.pkt.read ≤ t) :
    Good (r.burst c t gap) ∧ Paired (r.burst c t gap) := by
  have hiss := burst_issues gap hopen hlate
  have hkind : ∀ b, colKind c ≠ .ACT b := by
    intro b
    unfold colKind
    split <;> exact fun hk => nomatch hk
  have hfree : ∀ k', ppdRule P (colKind c) k' = none := by
    intro k'
    unfold colKind
    split <;> cases k' <;> rfl
  refine ⟨h.issue hiss hkind rfl ?_, hp.issue hiss hfree⟩
  rw [opened_congr fun i => (burst_banks r c t gap i).1, ← h.active]
  rfl

/-! ## The run -/

/-- Every rank of the interface is good. -/
def Sound (d : Dram P) : Prop := ∀ j, Good (d.ranks j) ∧ Paired (d.ranks j)

/-- A call never stops, and keeps the invariant. -/
theorem Sound.doBurstAccess (hppd : P.tPPD ≤ P.tRP + P.tRRD + P.tRAS) {d : Dram P} (h : Sound d)
    {c : Call P} (hpos : 0 < c.curTick) : ∃ d', d.doBurstAccess c = some d' ∧ Sound d' := by
  obtain ⟨r₁, hr₁, hg₁, hp₁, hopen₁⟩ := openFor_spec hppd (h c.pkt.rank).1 (h c.pkt.rank).2 hpos
  obtain ⟨hg₂, hp₂⟩ := burst_spec hg₁ hp₁ (r₁.burstAt c d.nextBurstAt).2 hopen₁
    (le_burstAt r₁ c d.nextBurstAt)
  obtain ⟨r₃, hr₃, hg₃, hp₃⟩ := closeAfter_spec hg₂ hp₂ (c := c) (by
    rw [(burst_banks r₁ c _ _ _).1]
    exact hopen₁)
  refine ⟨⟨fun j => if j = c.pkt.rank then r₃ else
      (d.ranks j).switchRank (r₁.burstAt c d.nextBurstAt).1,
    (r₁.burstAt c d.nextBurstAt).1 + (r₁.burstAt c d.nextBurstAt).2⟩, ?_, fun j => ?_⟩
  · unfold Dram.doBurstAccess
    rw [hr₁, Option.bind_some]
    dsimp only
    rw [hr₃, Option.map_some]
  · by_cases hj : j = c.pkt.rank
    · show Good (if j = c.pkt.rank then r₃ else _) ∧ Paired (if j = c.pkt.rank then r₃ else _)
      rw [if_pos hj]
      exact ⟨hg₃, hp₃⟩
    · show Good (if j = c.pkt.rank then r₃ else _) ∧ Paired (if j = c.pkt.rank then r₃ else _)
      rw [if_neg hj]
      have hrises := switchRank_rises (d.ranks j) (r₁.burstAt c d.nextBurstAt).1
      exact ⟨(h j).1.wait rfl rfl rfl (fun _ => rfl) hrises, (h j).2.wait rfl hrises⟩

/-- Every run of calls goes through, and the commands of every rank respect the timing. -/
theorem timing_respected (P : Params) (hppd : P.tPPD ≤ P.tRP + P.tRRD + P.tRAS)
    (cs : List (Call P)) (hpos : ∀ c ∈ cs, 0 < c.curTick) :
    ∃ d, run P cs = some d ∧ ∀ j, Respects P (d.ranks j).cmdList := by
  have hinit : Sound (Dram.init P) := fun _ => ⟨good_init, paired_init⟩
  obtain ⟨d, hd, hsound⟩ : ∃ d, run P cs = some d ∧ Sound d := by
    unfold run
    generalize Dram.init P = d at hinit ⊢
    induction cs generalizing d with
    | nil => exact ⟨d, rfl, hinit⟩
    | cons c cs ih =>
      obtain ⟨d', hd', hs'⟩ := hinit.doBurstAccess hppd (hpos c mem_cons_self)
      obtain ⟨d'', hd'', hs''⟩ := ih (fun c' hc' => hpos c' (mem_cons_of_mem _ hc')) d' hs'
      refine ⟨d'', ?_, hs''⟩
      show (d.doBurstAccess c).bind _ = _
      rw [hd', Option.bind_some]
      exact hd''
  exact ⟨d, hd, fun j => ⟨(hsound j).1.spaced, (hsound j).2.spaced, (hsound j).1.window⟩⟩

/-- Two ranks of four banks in two groups. -/
def small : Params where
  ranksPerChannel := 2
  banksPerRank := 4
  bankGroupsPerRank := 2
  tRL := 11
  tWL := 8
  tBURST := 4
  tBURST_MIN := 4
  tBURST_MAX := 5
  tCCD_L := 6
  tCCD_L_WR := 7
  tRCD_RD := 10
  tRCD_WR := 9
  tRP := 10
  tRAS := 24
  tWR := 12
  tRTP := 6
  tRRD := 4
  tRRD_L := 5
  tPPD := 30
  tXAW := 25
  tRTW := 3
  tWTR := 5
  tWTR_L := 6
  tCS := 2
  activationLimit := 2
  pageMgmt := .open_adaptive
  maxAccessesPerRow := 16
  dataClockSync := true
  twoCycleActivate := true
  pseudoChannel := 0
  tRRD_le := fun _ => by omega

/-- A controller with one command in each window of ten ticks, some of them booked. -/
def slow : Bus := .ofController CommandBus.narrow [0, 10, 40] 2

/-- A packet of a rank. -/
def packet (index : Nat) (read : Bool) (bank : Fin 4) (row : Nat) : MemPacket small :=
  ⟨index, read, (0 : Fin 2), bank, row, 0⟩

/-- Two explicit precharges, and one that goes with its burst. -/
def mixed : List (Call small) :=
  [⟨1, packet 0 true 0 1, [], slow, slow, slow⟩, ⟨1, packet 1 false 1 1, [], slow, slow, slow⟩,
    ⟨2, packet 2 true 0 2, [], slow, slow, slow⟩,
    ⟨3, packet 3 true 1 2, [[packet 4 true 1 3]], slow, slow, slow⟩]

/-- No rule of the timing is broken in any rank. -/
theorem mixed_respected : ∃ d, run small mixed = some d ∧ ∀ j, Respects small (d.ranks j).cmdList :=
  timing_respected small (by decide) mixed (by decide)

end Gem5Dvr.DramTiming
