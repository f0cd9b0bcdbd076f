/-
  The page-table walker in timing mode (`arch/riscv/pagetable_walker.cc` 72-233, 422-614).

    1. `WalkerState`, one walk: it is started, sends its read, takes the response, and so on down
       the levels; then it may write the entry back, and it answers its translation.
    2. `Walker`, the queue of the walks: `start`, `recvTimingResp`, `recvReqRetry`,
       `startWalkWrapper`.  The port says of every packet whether it takes it; what it took is in
       `port` until the response comes, with the entry that was read.
    3. `Queue`: the first walk is under way, or the wrapper event is scheduled and nothing is in
       flight.  The walks behind it are as `start` made them.
    4. `work`, which every response and every wrapper event lessens.

  The crux: only the wrapper event drops squashed walks, it is scheduled only when a walk has ended,
  and then no walk has been started.  So no walk is dropped with a packet in flight.

  A translation is finished by a call that does not call the walker (the callers see to that).  Left
  out: what the TLB and the PMP say of the translated address, and the entry put into the TLB.
-/
import Gem5Dvr.Tlb
import Gem5Dvr.Lib.Trace

namespace Gem5Dvr.PageWalker

open Tlb (Context Tables Fault PTESv39)

/-! ## One walk -/

inductive State where
  | Ready
  | Waiting
  | Translate
  deriving DecidableEq

/-- A packet; `walk` is the sender of its sender state. -/
structure Packet where
  id : Nat
  walk : Nat
  addr : Nat
  isWrite : Bool
  deriving DecidableEq

/-- What `start` is told: the access, the address, the address space. -/
structure Request where
  access : Context
  vaddr : BitVec 64
  asid : BitVec 16
  deriving DecidableEq

/-- What a translation is told: that its instruction was squashed, the fault of the walk, or what
    the TLB now has. -/
inductive Answer where
  | squashed
  | fault (timingFault : Fault)
  | translated
  deriving DecidableEq

/-- `WalkerState`, with the number of its translation.  The last of `writes` comes first.  `live` is
    kept for the proofs: the packets it made and did not delete. -/
structure WalkerState where
  id : Nat
  req : Request
  state : State := .Ready
  nextState : State := .Ready
  level : Nat := 0
  inflight : Nat := 0
  read : Option Packet := none
  writes : List Packet := []
  timingFault : Option Fault := none
  retrying : Bool := false
  started : Bool := false
  squashed : Bool := false
  live : List Nat := []
  deriving DecidableEq

/-- What the port says of a packet: whether it takes it. -/
abbrev Port := Packet → Bool

/-- The loop of `sendPackets` over `writes`, and the packets sent. -/
def sendWrites (accept : Port) : List Packet → WalkerState → WalkerState × List Packet
  | [], w => ({ w with writes := [] }, [])
  | write :: rest, w =>
    if accept write then
      let (w', sent) := sendWrites accept rest { w with inflight := w.inflight + 1 }
      (w', write :: sent)
    else ({ w with writes := write :: rest, retrying := true }, [])

def sendPackets (accept : Port) (w : WalkerState) : WalkerState × List Packet :=
  if w.retrying then (w, [])
  else
    match w.read with
    | some pkt =>
      if accept pkt then
        let (w', sent) :=
          sendWrites accept w.writes { w with read := none, inflight := w.inflight + 1 }
        (w', pkt :: sent)
      else ({ w with retrying := true }, [])
    | none => sendWrites accept w.writes w

variable (g : Tables)

/-- `setupWalk`; `fresh` is the number of the new packet. -/
def setupWalk (fresh : Nat) (w : WalkerState) : WalkerState :=
  { w with
    level := 2
    state := .Translate
    nextState := .Ready
    read := some ⟨fresh, w.id, Tlb.topAddr g (Tlb.sext w.req.vaddr) w.req.asid, false⟩
    live := fresh :: w.live }

def startWalk (fresh : Nat) (accept : Port) (w : WalkerState) :
    Option (WalkerState × List Packet) :=
  if w.started then none
  else
    let w := setupWalk g fresh { w with started := true }
    some (sendPackets accept
      { w with nextState := w.state, state := .Waiting, timingFault := none })

/-- `stepWalk` on the entry that was read, and the packet made a write of. -/
def stepWalk (fresh : Nat) (pkt : Packet) (pte : PTESv39) (w : WalkerState) :
    WalkerState × Option Packet :=
  match Tlb.stepWalk g w.req.access (Tlb.sext w.req.vaddr) w.req.asid w.level pkt.addr pte with
  | .reads nextRead =>
    ({ w with
        level := w.level - 1
        nextState := .Translate
        timingFault := none
        read := some ⟨fresh, w.id, nextRead, false⟩
        live := fresh :: w.live.erase pkt.id }, none)
  | .ends e =>
    let w := { w with
      nextState := .Ready
      timingFault := match e.result with | .error f => some f | .ok _ => none
      read := none }
    match e.write with
    | some _ => (w, some { pkt with isWrite := true })
    | none => ({ w with live := w.live.erase pkt.id }, none)

/-- The branch of `recvPacket` for a read. -/
def recvRead (fresh : Nat) (accept : Port) (pkt : Packet) (pte : PTESv39) (w : WalkerState) :
    Option (WalkerState × List Packet) :=
  if w.read ≠ none ∨ w.nextState ≠ .Translate then none
  else
    let (w, write) := stepWalk g fresh pkt pte { w with nextState := .Ready, read := some pkt }
    if w.timingFault ≠ none ∧ w.read ≠ none then none
    else
      some (sendPackets accept { w with state := .Waiting, writes := write.toList ++ w.writes })

/-- What `recvPacket` comes to: the walk, the packets sent, and the answer if the walk is
    complete. -/
structure Received where
  walk : WalkerState
  sent : List Packet
  walkComplete : Bool
  answer : Option Answer

/-- The end of `recvPacket`. -/
def finishWalk (w : WalkerState) (sent : List Packet) : Received :=
  if w.inflight = 0 ∧ w.read = none ∧ w.writes = [] then
    { walk := { w with state := .Ready, nextState := .Waiting }
      sent
      walkComplete := true
      answer := some (match w.timingFault with | none => .translated | some f => .fault f) }
  else { walk := w, sent, walkComplete := false, answer := none }

def recvPacket (fresh : Nat) (accept : Port) (pkt : Packet) (pte : PTESv39) (w : WalkerState) :
    Option Received :=
  if w.inflight = 0 ∨ w.state ≠ .Waiting then none
  else
    let w := { w with inflight := w.inflight - 1 }
    if w.squashed then
      some { walk := w, sent := [], walkComplete := decide (w.inflight = 0), answer := none }
    else if pkt.isWrite then
      let (w, sent) := sendPackets accept { w with live := w.live.erase pkt.id }
      some (finishWalk w sent)
    else (recvRead g fresh accept pkt pte w).map fun (w, sent) => finishWalk w sent

def retry (accept : Port) (w : WalkerState) : WalkerState × List Packet :=
  sendPackets accept { w with retrying := false }

/-! ## The queue of walks -/

/-- `dropped` are the walks squashed with packets in flight; `port` are the packets in flight;
    `packets` and `walks` number the next ones. -/
structure Walker where
  currStates : List WalkerState := []
  dropped : List WalkerState := []
  startWalkWrapperEvent : Bool := false
  port : List Packet := []
  packets : Nat := 0
  walks : Nat := 0
  finished : List (Nat × Answer) := []
  squashedTranslations : List Nat := []

namespace Walker

variable (s : Walker)

/-- `translation->squashed()`. -/
def squashed (translation : Nat) : Bool := s.squashedTranslations.contains translation

/-- The first walk started. -/
def startFront (accept : Port) (w : WalkerState) (ws : List WalkerState) : Option Walker :=
  (startWalk g s.packets accept w).map fun (w, sent) =>
    { s with currStates := w :: ws, port := s.port ++ sent, packets := s.packets + 1 }

def start (req : Request) (accept : Port) : Option Walker :=
  let newState : WalkerState := { id := s.walks, req }
  let s' := { s with walks := s.walks + 1, currStates := s.currStates ++ [newState] }
  if s.currStates.isEmpty then s'.startFront g accept newState [] else some s'

/-- The walk that gets a packet replaced, or dropped from the queue when it is complete. -/
def settle (id : Nat) (r : Received) (ws : List WalkerState) : List WalkerState :=
  if r.walkComplete then ws.filter fun w => w.id != id
  else ws.map fun w => if w.id = id then r.walk else w

def recvTimingResp (pkt : Packet) (pte : PTESv39) (accept : Port) : Option Walker :=
  ((s.currStates ++ s.dropped).find? fun w => w.id == pkt.walk).bind fun senderWalk =>
    (recvPacket g s.packets accept pkt pte senderWalk).map fun r =>
      let currStates := settle senderWalk.id r s.currStates
      { s with
        currStates
        dropped := settle senderWalk.id r s.dropped
        startWalkWrapperEvent :=
          s.startWalkWrapperEvent || (r.walkComplete && !currStates.isEmpty)
        port := s.port.erase pkt ++ r.sent
        packets := s.packets + 1
        finished := (r.answer.map fun a => (senderWalk.id, a)).toList ++ s.finished }

/-- The loop of `recvReqRetry`. -/
def retryAll (accept : Port) : List WalkerState → List WalkerState × List Packet
  | [] => ([], [])
  | w :: ws =>
    let (ws', later) := retryAll accept ws
    if w.retrying then
      let (w', sent) := retry accept w
      (w' :: ws', sent ++ later)
    else (w :: ws', later)

def recvReqRetry (accept : Port) : Walker :=
  let (currStates, sent) := retryAll accept s.currStates
  { s with currStates, port := s.port ++ sent }

/-- The loop of `startWalkWrapper`. -/
def squashLoop : Nat → Walker → Walker
  | 0, s => s
  | numSquashable + 1, s =>
    match s.currStates with
    | [] => s
    | currState :: rest =>
      if s.squashed currState.id then
        squashLoop numSquashable
          { s with
            currStates := rest
            finished := (currState.id, .squashed) :: s.finished
            dropped :=
              if currState.inflight = 0 then s.dropped
              else { currState with squashed := true } :: s.dropped }
      else s

/-- `startWalkWrapper`.  The front of an empty queue is undefined. -/
def startWalkWrapper (numSquashable : Nat) (accept : Port) : Option Walker :=
  if s.currStates.isEmpty then none
  else
    let s := squashLoop numSquashable s
    match s.currStates with
    | [] => some s
    | currState :: rest =>
      if currState.started then some s else s.startFront g accept currState rest

end Walker

inductive Event where
  | start (req : Request) (accept : Port)
  | recvTimingResp (pkt : Packet) (pte : PTESv39) (accept : Port)
  | recvReqRetry (accept : Port)
  | startWalkWrapper (accept : Port)
  | squash (translation : Nat)

variable (numSquashable : Nat)

def step (s : Walker) : Event → Option Walker
  | .start req accept => s.start g req accept
  | .recvTimingResp pkt pte accept => s.recvTimingResp g pkt pte accept
  | .recvReqRetry accept => some (s.recvReqRetry accept)
  | .startWalkWrapper accept =>
    { s with startWalkWrapperEvent := false }.startWalkWrapper g numSquashable accept
  | .squash translation =>
    some { s with squashedTranslations := translation :: s.squashedTranslations }

/-- A response answers a packet in flight, and an event is processed when it is scheduled. -/
def Legal (s : Walker) : Event → Prop
  | .recvTimingResp pkt _ _ => pkt ∈ s.port
  | .startWalkWrapper _ => s.startWalkWrapperEvent = true
  | _ => True

/-! ## What a walk is between two events -/

/-- A walk as `start` makes it. -/
def Fresh (w : WalkerState) : Prop := w = { id := w.id, req := w.req }

/-- The one packet of a walk is in one place. -/
inductive Holds (w : WalkerState) (pkt : Packet) (port : List Packet) : Prop where
  | sent (hretry : w.retrying = false) (hin : w.inflight = 1) (hread : w.read = none)
      (hwrites : w.writes = []) (hport : port = [pkt])
  | read (hretry : w.retrying = true) (hin : w.inflight = 0) (hread : w.read = some pkt)
      (hwrites : w.writes = []) (hport : port = []) (hkind : pkt.isWrite = false)
  | write (hretry : w.retrying = true) (hin : w.inflight = 0) (hread : w.read = none)
      (hwrites : w.writes = [pkt]) (hport : port = []) (hkind : pkt.isWrite = true)

/-- A walk under way, and the packets in flight. -/
structure Active (w : WalkerState) (port : List Packet) : Prop where
  started : w.started = true
  squashed : w.squashed = false
  state : w.state = .Waiting
  packet : ∃ pkt, pkt.walk = w.id ∧ w.live = [pkt.id] ∧
    w.nextState = (if pkt.isWrite then .Ready else .Translate) ∧ Holds w pkt port

/-- The responses that a walk still waits for, at most. -/
def remaining (w : WalkerState) : Nat :=
  if w.started then (if w.nextState = .Translate then w.level + 2 else 1) else 4

/-- A packet about to be sent. -/
inductive Loaded (w : WalkerState) (pkt : Packet) : Prop where
  | read (hretry : w.retrying = false) (hin : w.inflight = 0) (hread : w.read = some pkt)
      (hwrites : w.writes = []) (hkind : pkt.isWrite = false)
  | write (hretry : w.retrying = false) (hin : w.inflight = 0) (hread : w.read = none)
      (hwrites : w.writes = [pkt]) (hkind : pkt.isWrite = true)

variable {w : WalkerState} {pkt : Packet}

/-- The port takes the packet or the walk keeps it; nothing else changes. -/
theorem Loaded.send (h : Loaded w pkt) (accept : Port) :
    ∃ read writes inflight retrying sent, sendPackets accept w =
      ({ w with read, writes, inflight, retrying }, sent) ∧
      Holds { w with read, writes, inflight, retrying } pkt sent := by
  cases h with
  | read hretry hin hread hwrites hkind =>
    have hgo : ¬ w.retrying = true := by simp [hretry]
    unfold sendPackets
    rw [if_neg hgo, hread]
    by_cases hacc : accept pkt = true
    · refine ⟨none, [], 1, false, [pkt], ?_, .sent rfl rfl rfl rfl rfl⟩
      dsimp only
      rw [if_pos hacc, hwrites, hin, ← hretry]
      rfl
    · refine ⟨some pkt, [], 0, true, [], ?_, .read rfl rfl rfl rfl rfl hkind⟩
      dsimp only
      rw [if_neg hacc, ← hread, ← hwrites, ← hin]
  | write hretry hin hread hwrites hkind =>
    have hgo : ¬ w.retrying = true := by simp [hretry]
    unfold sendPackets
    rw [if_neg hgo, hread, hwrites]
    by_cases hacc : accept pkt = true
    · refine ⟨none, [], 1, false, [pkt], ?_, .sent rfl rfl rfl rfl rfl⟩
      dsimp only [sendWrites]
      rw [if_pos hacc, hin, ← hread, ← hretry]
    · refine ⟨none, [pkt], 0, true, [], ?_, .write rfl rfl rfl rfl rfl hkind⟩
      dsimp only [sendWrites]
      rw [if_neg hacc, ← hread, ← hin]

variable {g numSquashable}

/-- A walk that is started has its first read on the way. -/
theorem startWalk_spec (h : Fresh w) (fresh : Nat) (accept : Port) :
    ∃ w' sent, startWalk g fresh accept w = some (w', sent) ∧ w'.id = w.id ∧ Active w' sent ∧
      remaining w' = remaining w := by
  obtain ⟨id, req, rfl⟩ : ∃ id req, w = { id, req } := ⟨w.id, w.req, h⟩
  have hloaded : Loaded { setupWalk g fresh { id, req, started := true } with
      nextState := .Translate, state := .Waiting, timingFault := none }
      ⟨fresh, id, Tlb.topAddr g (Tlb.sext req.vaddr) req.asid, false⟩ := .read rfl rfl rfl rfl rfl
  obtain ⟨read, writes, inflight, retrying, sent, hsend, hholds⟩ := hloaded.send accept
  refine ⟨_, sent, congrArg some hsend, rfl, ⟨rfl, rfl, rfl, _, rfl, rfl, rfl, hholds⟩, rfl⟩

/-- A retry sends what was refused. -/
theorem retry_spec {port : List Packet} (h : Active w port)
    (hretry : w.retrying = true) (accept : Port) :
    port = [] ∧ (retry accept w).1.id = w.id ∧ Active (retry accept w).1 (retry accept w).2 ∧
      remaining (retry accept w).1 = remaining w := by
  obtain ⟨hstarted, hsquashed, hstate, pkt, hwalk, hlive, hnext, hholds⟩ := h
  have hloaded : port = [] ∧ Loaded { w with retrying := false } pkt := by
    cases hholds with
    | sent hno => rw [hretry] at hno; cases hno
    | read _ hin hread hwrites hport hkind => exact ⟨hport, .read rfl hin hread hwrites hkind⟩
    | write _ hin hread hwrites hport hkind => exact ⟨hport, .write rfl hin hread hwrites hkind⟩
  obtain ⟨hport, hloaded⟩ := hloaded
  obtain ⟨read, writes, inflight, retrying, sent, hsend, hholds⟩ := hloaded.send accept
  have heq : retry accept w = _ := hsend
  rw [heq]
  exact ⟨hport, rfl, ⟨hstarted, hsquashed, hstate, pkt, hwalk, hlive, hnext, hholds⟩, rfl⟩

/-- A walk with its packet somewhere is not complete. -/
theorem finishWalk_active {sent : List Packet} (h : Active w sent) :
    finishWalk w sent = { walk := w, sent, walkComplete := false, answer := none } := by
  obtain ⟨-, -, -, pkt, -, -, -, hholds⟩ := h
  refine if_neg ?_
  rintro ⟨hin, hread, hwrites⟩
  cases hholds with
  | sent _ hone => omega
  | read _ _ hsome => rw [hread] at hsome; cases hsome
  | write _ _ _ hsome => rw [hwrites] at hsome; cases hsome

/-- A walk is out of packets. -/
structure Idle (w : WalkerState) : Prop where
  retrying : w.retrying = false
  inflight : w.inflight = 0
  read : w.read = none
  writes : w.writes = []

theorem Idle.sendPackets (h : Idle w) (accept : Port) :
    sendPackets accept w = (w, []) := by
  have hgo : ¬ w.retrying = true := by simp [h.retrying]
  unfold PageWalker.sendPackets
  rw [if_neg hgo, h.read, h.writes]
  show ({ w with writes := [] }, []) = (w, [])
  rw [← h.writes]

theorem finishWalk_idle (h : Idle w) (sent : List Packet) :
    (finishWalk w sent).walkComplete = true ∧ (finishWalk w sent).sent = sent ∧
      (finishWalk w sent).answer.isSome = true := by
  unfold finishWalk
  rw [if_pos ⟨h.inflight, h.read, h.writes⟩]
  exact ⟨rfl, rfl, rfl⟩

/-- Only a level above the last leads to another read. -/
theorem stepWalk_reads {c : Context} {vaddr : BitVec 64} {asid : BitVec 16} {level addr next : Nat}
    {pte : PTESv39} (h : Tlb.stepWalk g c vaddr asid level addr pte = .reads next) : 0 < level := by
  unfold Tlb.stepWalk at h
  split at h
  · cases h
  · split at h
    · cases h
    · split at h
      · cases h
      · split at h
        · cases h
        · exact Nat.succ_pos _

/-- The three ends of `stepWalk`: another read, a write of the entry, nothing. -/
theorem stepWalk_cases (fresh : Nat) (pkt : Packet) (pte : PTESv39) (w : WalkerState) :
    (∃ addr, 0 < w.level ∧ stepWalk g fresh pkt pte w = ({ w with
        level := w.level - 1
        nextState := .Translate
        timingFault := none
        read := some ⟨fresh, w.id, addr, false⟩
        live := fresh :: w.live.erase pkt.id }, none)) ∨
    (∃ timingFault, stepWalk g fresh pkt pte w =
      ({ w with nextState := .Ready, timingFault, read := none },
        some { pkt with isWrite := true })) ∨
    ∃ timingFault, stepWalk g fresh pkt pte w =
      ({ w with nextState := .Ready, timingFault, read := none, live := w.live.erase pkt.id },
        none) := by
  unfold stepWalk
  cases hstep : Tlb.stepWalk g w.req.access (Tlb.sext w.req.vaddr) w.req.asid w.level pkt.addr
    pte with
  | reads nextRead => exact .inl ⟨nextRead, stepWalk_reads hstep, rfl⟩
  | ends e =>
    dsimp only
    generalize (match e.result with | .error f => some f | .ok _ => none : Option Fault) = fault
    cases hwrite : e.write with
    | some entry => exact .inr (.inl ⟨fault, rfl⟩)
    | none => exact .inr (.inr ⟨fault, rfl⟩)

/-- A read comes back, and the walk goes on with its packet or is out of packets. -/
theorem recvRead_spec (h : Idle w) (hstarted : w.started = true)
    (hsquashed : w.squashed = false) (hlive : w.live = [pkt.id]) (hwalk : pkt.walk = w.id)
    (hnext : w.nextState = .Translate) (fresh : Nat) (accept : Port) (pte : PTESv39) :
    ∃ w' sent, recvRead g fresh accept pkt pte w = some (w', sent) ∧
      (w'.id = w.id ∧ Active w' sent ∧ remaining w' < remaining w ∨ sent = [] ∧ Idle w') := by
  obtain ⟨hretry, hin, hread, hwrites⟩ := h
  have hgo : ¬ (w.read ≠ none ∨ w.nextState ≠ .Translate) := by simp [hread, hnext]
  have hremaining : remaining w = w.level + 2 := by
    unfold remaining
    rw [if_pos hstarted, if_pos hnext]
  have herase : w.live.erase pkt.id = [] := by rw [hlive, List.erase_cons_head]
  unfold recvRead
  rw [if_neg hgo]
  rcases stepWalk_cases (g := g) fresh pkt pte
      { w with nextState := .Ready, read := some pkt } with
    ⟨addr, hlevel, hstep⟩ | ⟨timingFault, hstep⟩ | ⟨timingFault, hstep⟩
  · rw [hstep]
    have hloaded : Loaded { w with
        level := w.level - 1, state := .Waiting, nextState := .Translate, timingFault := none
        read := some ⟨fresh, w.id, addr, false⟩, live := fresh :: w.live.erase pkt.id }
        ⟨fresh, w.id, addr, false⟩ := .read hretry hin rfl hwrites rfl
    obtain ⟨read, writes, inflight, retrying, sent, hsend, hholds⟩ := hloaded.send accept
    refine ⟨_, sent, congrArg some hsend, .inl ⟨rfl, ⟨hstarted, hsquashed, rfl,
      ⟨fresh, w.id, addr, false⟩, rfl, congrArg (List.cons fresh) herase, rfl, hholds⟩, ?_⟩⟩
    have hlevel : 0 < w.level := hlevel
    rw [hremaining]
    unfold remaining
    rw [if_pos hstarted, if_pos rfl]
    show w.level - 1 + 2 < w.level + 2
    omega
  · rw [hstep]
    have hloaded : Loaded { w with
        state := .Waiting, nextState := .Ready, timingFault, read := none
        writes := { pkt with isWrite := true } :: w.writes }
        { pkt with isWrite := true } := .write hretry hin rfl (by rw [hwrites]) rfl
    obtain ⟨read, writes, inflight, retrying, sent, hsend, hholds⟩ := hloaded.send accept
    refine ⟨_, sent, (if_neg (by simp)).trans (congrArg some hsend), .inl ⟨rfl, ⟨hstarted,
      hsquashed, rfl, { pkt with isWrite := true }, hwalk, hlive, rfl, hholds⟩, ?_⟩⟩
    rw [hremaining]
    unfold remaining
    rw [if_pos hstarted, if_neg (by simp)]
    omega
  · rw [hstep]
    have hidle : Idle { w with
        state := .Waiting, nextState := .Ready, timingFault, read := none
        live := w.live.erase pkt.id } := ⟨hretry, hin, rfl, hwrites⟩
    exact ⟨_, [], (if_neg (by simp)).trans (congrArg some (hidle.sendPackets accept)),
      .inr ⟨rfl, hidle⟩⟩

/-- What a response does to the walk that waits for it: the walk goes on with fewer responses to
    come, or it is complete and answers. -/
theorem recvPacket_spec {port : List Packet} (h : Active w port)
    (hpkt : pkt ∈ port) (fresh : Nat) (accept : Port) (pte : PTESv39) :
    port = [pkt] ∧ pkt.walk = w.id ∧ ∃ r, recvPacket g fresh accept pkt pte w = some r ∧
      ((r.walkComplete = false ∧ r.answer = none ∧ r.walk.id = w.id ∧ Active r.walk r.sent ∧
          remaining r.walk < remaining w) ∨
        (r.walkComplete = true ∧ r.sent = [] ∧ r.answer.isSome = true)) := by
  obtain ⟨hstarted, hsquashed, hstate, p, hwalk, hlive, hnext, hholds⟩ := h
  cases hholds with
  | read _ _ _ _ hport => rw [hport] at hpkt; cases hpkt
  | write _ _ _ _ hport => rw [hport] at hpkt; cases hpkt
  | sent hretry hin hread hwrites hport =>
    obtain rfl : pkt = p := by rwa [hport, List.mem_singleton] at hpkt
    refine ⟨hport, hwalk, ?_⟩
    have hgo : ¬ (w.inflight = 0 ∨ w.state ≠ .Waiting) := by simp [hin, hstate]
    unfold recvPacket
    rw [if_neg hgo]
    have hsquash : ¬ w.squashed = true := by simp [hsquashed]
    rw [if_neg hsquash]
    cases hkind : pkt.isWrite with
    | true =>
      -- the write is done, and with it the walk
      have hidle : Idle { w with inflight := w.inflight - 1, live := w.live.erase pkt.id } :=
        ⟨hretry, by rw [hin], hread, hwrites⟩
      rw [if_pos rfl, hidle.sendPackets]
      exact ⟨_, rfl, .inr (finishWalk_idle hidle [])⟩
    | false =>
      have hidle : Idle { w with inflight := w.inflight - 1 } :=
        ⟨hretry, by rw [hin], hread, hwrites⟩
      rw [hkind] at hnext
      obtain ⟨w', sent, hrecv, hcases⟩ :=
        recvRead_spec hidle hstarted hsquashed hlive hwalk hnext fresh accept pte
      rw [if_neg (by decide), hrecv]
      refine ⟨_, rfl, ?_⟩
      rcases hcases with ⟨hid, hactive, hless⟩ | ⟨rfl, hidle'⟩
      · dsimp only
        rw [finishWalk_active hactive]
        exact .inl ⟨rfl, rfl, hid, hactive, hless⟩
      · exact .inr (finishWalk_idle hidle' [])

end Gem5Dvr.PageWalker
