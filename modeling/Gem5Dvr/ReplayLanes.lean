/-
  The live vector helper (`CPU::issueDVRReplayLanes`, `cpu/o3/cpu.cc` 3809-4988, and
  `DVRHelperThread`, `cpu.hh` 1866-1970, 2174-2286).

  A launch (a GENERATION) owns one replay template and one helper register file, so one number
  stands for both and for the reconvergence state kept under the register file's address.  Each lane
  of a generation is enqueued when its trigger value arrives.  One call of `issueDVRReplayLanes`
  then issues one uop for at most eight lanes of one PC group:

    erase ended lanes → choose a generation → pop its reconvergence frames → pick the chunk →
    (for a branch: evaluate the whole group, commit the next PCs, push the deferred sides) →
    execute the chunk → retire.

  What the rest of the simulator decides is an input of the call (`Env`): ticks, free VIR copies,
  instruction fetch, functional units, a failing rename, the trained address relations.

  The register file is used through its lane-private view, a value and a ready tick for every
  register of every lane; `Gem5Dvr.HelperRead` is about when the file has that view.  A rename then
  changes no value, and what only feeds renames or statistics is left out: `simtPath`,
  `renamedDestinations`, `takenPath`, `alternatePath`, the snapshots in a frame, the termination
  reason, the VIR buffer and its copies' masks, `nested`, `predicate` and the aggregate relations.
-/
import Mathlib.Data.List.Basic
import Mathlib.Logic.Function.Basic
import Gem5Dvr.Uop

namespace Gem5Dvr.ReplayLanes

/-- `DVRReplayTemplate`; `count` is the length of `uops`. -/
structure Template where
  triggerPC : Addr := 0
  stridePC : Addr := 0
  loopControlPC : Addr := 0
  triggerDestination : Option (Fin 32) := none
  continuePastFLR : Bool := false
  uops : List Uop := []
  initialRegs : Fin 32 → RegVal := fun _ => 0
  valid : Bool := false

namespace Template

variable (p : Template)

def count : Nat := p.uops.length

/-- `uops[i]`. -/
def uop (i : Nat) : Uop := p.uops.getD i {}

/-- The `stridePC` of a lane: the template's, or the trigger's PC. -/
def laneStridePC : Addr := if p.stridePC ≠ 0 then p.stridePC else p.triggerPC

/-- `findPC`; the source's `numeric_limits<unsigned>::max()` is `none`. -/
def findPC (pc : Addr) : Option Nat :=
  if pc = 0 then none else (List.range' 1 (p.count - 1)).find? fun index => (p.uop index).pc == pc

/-- An index that is stored although nothing was found: past the end of the template. -/
def indexOf (pc : Addr) : Nat := (p.findPC pc).getD p.count

/-- `index + 1 < count ? uops[index + 1].pc : 0`. -/
def successor (index : Nat) : Addr := if index + 1 < p.count then (p.uop (index + 1)).pc else 0

end Template

/-- A trained entry of `dvrAddressRelations`. -/
structure Relation where
  stableMask : RegVal
  pattern : RegVal
  scale : RegVal
  offset : RegVal
  minAddress : Addr
  maxAddress : Addr

/-- What a run does not change: the template of every generation and two parameters of the CPU. -/
structure Config where
  template : Nat → Template
  dvrHelperMaxUops : Nat
  dvrEnableDependentPrefetch : Bool := true

/-- What the rest of the simulator decides in one call.  `capacity` and `readyUops` are the tests
    that return before anything is issued; `decoded` and `granted` are `fetchDecodeDVRUop` and the
    functional unit; `copyFree` is `!virCopies[copy].issued`; `relation` finds the TRAINED entries. -/
structure Env where
  capacity : Bool := true
  readyUops : Bool := true
  now : Nat := 0
  readyTick : Nat := 0
  copyFree : Nat → Bool := fun _ => true
  decoded : Bool := true
  granted : Bool := true
  renameFails : Bool := false
  relation : Addr → Addr → Option Relation := fun _ _ => none

/-- `ReplayLaneContext`; `gen` is the register file, the template and the reconvergence state. -/
structure Lane where
  gen : Nat
  lane : Fin 128
  uopIndex : Nat := 1
  lanePC : Addr
  reconvergenceBlocked : Bool := false
  simtDivergent : Bool := false
  helperUops : Nat := 0
  active : Bool := true
  deriving DecidableEq, Repr

/-- `ReplayReconvergenceState::Frame`. -/
structure Frame where
  reconvergencePC : Addr
  pc : Addr
  mask : Fin 128 → Bool

/-- `ReplayReconvergenceState`; the TOP of the stack is the head of the list. -/
structure Reconvergence where
  stack : List Frame := []
  currentPC : Addr := 0
  currentMask : Fin 128 → Bool := fun _ => false
  currentValid : Bool := false

/-- `ReplayReconvergenceState::Entries`. -/
def Entries : Nat := 8

def LanesPerVIRCopy : Nat := 8

/-- The VIR copy of a lane. -/
def Lane.copy (l : Lane) : Nat := l.lane / LanesPerVIRCopy

/-- The registers of a lane, by generation and lane number. -/
abbrev Rows (α : Type) := Nat → Fin 128 → Fin 32 → α

def Rows.set {α : Type} (rows : Rows α) (g : Nat) (k : Fin 128) (r : Fin 32) (a : α) : Rows α :=
  fun g' k' r' => if g' = g ∧ k' = k ∧ r' = r then a else rows g' k' r'

/-- The helper thread, as far as the replay lanes are concerned. -/
structure Helper where
  replayLanes : List Lane := []
  context : Nat → Reconvergence := fun _ => {}
  regs : Rows RegVal
  readyAt : Rows Nat := fun _ _ _ => 0

def Helper.setContext (h : Helper) (g : Nat) (s : Reconvergence) : Helper :=
  { h with context := Function.update h.context g s }

/-- Every launch has initialized its register file from the template. -/
def start (c : Config) : Helper where
  regs := fun g _ => (c.template g).initialRegs

/-! ## `enqueueReplayLane` and `resumeDependentLane` -/

/-- A lane joins the current group of its generation when its entry PC is the current PC. -/
def Reconvergence.join (s : Reconvergence) (k : Fin 128) (pc : Addr) : Reconvergence :=
  let s := if s.currentValid then s
    else { s with currentPC := pc, currentMask := fun _ => false, currentValid := true }
  if s.currentPC = pc then { s with currentMask := Function.update s.currentMask k true } else s

def enqueueReplayLane (c : Config) (h : Helper) (gen : Nat) (lane : Fin 128)
    (source_value : RegVal) : Helper :=
  let p := c.template gen
  match p.triggerDestination with
  | none => h
  | some r =>
    if p.count ≤ 1 then h
    else
      let pc := (p.uop 1).pc
      { replayLanes := h.replayLanes ++ [{ gen, lane, lanePC := pc }]
        context := if pc = 0 then h.context
          else Function.update h.context gen ((h.context gen).join lane pc)
        regs := h.regs.set gen lane r source_value
        readyAt := h.readyAt.set gen lane r 0 }

/-- The lane is parked at the load `load_pc` of its generation. -/
def parkedAt (c : Config) (gen : Nat) (lane : Fin 128) (load_pc : Addr) (l : Lane) : Bool :=
  l.active && l.gen == gen && l.lane == lane && l.lanePC == 0 &&
    decide (l.uopIndex < (c.template gen).count) &&
    ((c.template gen).uop l.uopIndex).pc == load_pc

/-- The resumed lane: past the load, or ended with the template. -/
def resumed (c : Config) (l : Lane) : Lane :=
  let p := c.template l.gen
  let pc := p.successor l.uopIndex
  { l with
    helperUops := l.helperUops + 1
    lanePC := pc
    uopIndex := if l.uopIndex + 1 < p.count then l.uopIndex + 1 else p.count
    active := pc != 0 }

/-- The first element that satisfies `q` is replaced. -/
def replaceFirst {α : Type} (q : α → Bool) (f : α → α) : List α → List α
  | [] => []
  | a :: as => if q a then f a :: as else a :: replaceFirst q f as

def resumeDependentLane (c : Config) (h : Helper) (gen : Nat) (lane : Fin 128) (load_pc : Addr)
    (value : RegVal) : Helper :=
  if load_pc = 0 then h
  else
    match h.replayLanes.find? (parkedAt c gen lane load_pc) with
    | none => h
    | some l =>
      let h := { h with
        replayLanes := replaceFirst (parkedAt c gen lane load_pc) (resumed c) h.replayLanes }
      match ((c.template gen).uop l.uopIndex).destination with
      | none => h
      | some r => { h with
          regs := h.regs.set gen lane r value, readyAt := h.readyAt.set gen lane r 0 }

/-! ## Choosing the generation, popping its frames -/

/-- `laneSourcesReady`. -/
def sourcesReady (c : Config) (now : Nat) (readyAt : Rows Nat) (l : Lane) : Bool :=
  let p := c.template l.gen
  let ready : Option (Fin 32) → Bool
    | some r => decide (readyAt l.gen l.lane r ≤ now)
    | none => true
  decide (l.uopIndex < p.count) && ready (p.uop l.uopIndex).source0 &&
    ready (p.uop l.uopIndex).source1

/-- The lane could issue for the generation. -/
def Lane.unblocked (g : Nat) (l : Lane) : Bool := l.active && l.gen == g && !l.reconvergenceBlocked

/-- `refreshCurrentGroup`: the lanes of the current group that are still there, or else the lanes
    at the PC of the first lane that could issue. -/
def refreshCurrentGroup (lanes : List Lane) (g : Nat) (s : Reconvergence) : Reconvergence :=
  let preferred_pc := if s.currentValid then s.currentPC else 0
  let stays := fun l : Lane => l.unblocked g && l.lanePC == preferred_pc && s.currentMask l.lane
  if preferred_pc ≠ 0 ∧ lanes.any stays then
    { s with
      currentPC := preferred_pc, currentValid := true
      currentMask := fun k => lanes.any fun l => stays l && l.lane == k }
  else
    match lanes.find? fun l => l.unblocked g && l.lanePC != 0 with
    | none => { s with currentPC := 0, currentMask := fun _ => false, currentValid := false }
    | some first =>
      { s with
        currentPC := first.lanePC, currentValid := true
        currentMask := fun k => lanes.any fun l =>
          l.unblocked g && l.lanePC == first.lanePC && l.lane == k }

/-- The frame is popped: a lane has met its reconvergence PC, or nothing is left of the path that
    was selected when it was pushed. -/
def pops (lanes : List Lane) (g : Nat) (frame : Frame) : Bool :=
  lanes.any (fun l => l.unblocked g && l.lanePC == frame.reconvergencePC) ||
    !lanes.any (fun l => l.unblocked g && !frame.mask l.lane)

/-- The generation whose stack is looked at: one with a frame to pop, or one with a ready lane. -/
def chooseContext (c : Config) (env : Env) (h : Helper) : Option Nat :=
  let poppable := fun l : Lane => l.active &&
    match (h.context l.gen).stack with
    | [] => false
    | frame :: _ => pops h.replayLanes l.gen frame
  match h.replayLanes.find? poppable with
  | some l => some l.gen
  | none =>
    (h.replayLanes.find? fun l =>
      l.active && !l.reconvergenceBlocked && sourcesReady c env.now h.readyAt l).map Lane.gen

/-- A popped frame on one lane: its own lanes are released at its PC, lanes that stand at the
    reconvergence PC are blocked. -/
def popLane (g : Nat) (frame : Frame) (l : Lane) : Lane :=
  if l.active && l.gen == g then
    if frame.mask l.lane then
      { l with reconvergenceBlocked := false, lanePC := frame.pc, simtDivergent := true }
    else if l.lanePC = frame.reconvergencePC then { l with reconvergenceBlocked := true }
    else l
  else l

/-- The pop loop, from the top of the stack down. -/
def popFrames (g : Nat) : List Frame → Reconvergence → List Lane → Reconvergence × List Lane
  | [], s, lanes => ({ s with stack := [] }, lanes)
  | frame :: rest, s, lanes =>
    if pops lanes g frame then
      popFrames g rest
        { s with currentPC := frame.pc, currentMask := frame.mask, currentValid := frame.pc != 0 }
        (lanes.map (popLane g frame))
    else ({ s with stack := frame :: rest }, lanes)

/-- With the last frame gone the surviving lanes are no longer divergent. -/
def rejoinLane (c : Config) (g : Nat) (l : Lane) : Lane :=
  if l.unblocked g && !(c.template g).continuePastFLR then { l with simtDivergent := false } else l

def reconverge (c : Config) (g : Nat) (h : Helper) : Helper :=
  let s := refreshCurrentGroup h.replayLanes g (h.context g)
  let (s, lanes) := popFrames g s.stack s h.replayLanes
  let lanes := if s.stack.isEmpty then lanes.map (rejoinLane c g) else lanes
  { h.setContext g s with replayLanes := lanes }

/-! ## Picking the chunk -/

def inCurrentGroup (g : Nat) (s : Reconvergence) (l : Lane) : Bool :=
  s.currentValid && l.unblocked g && l.lanePC == s.currentPC && s.currentMask l.lane

/-- The uops without effect are skipped, each at the price of one helper uop; `fuel` is `count`. -/
def skipStateless (c : Config) (p : Template) : Nat → Nat → Lane → Nat × Lane
  | 0, index, l => (index, l)
  | fuel + 1, index, l =>
    if index < p.count ∧ (p.uop index).stateless then
      let l := { l with helperUops := l.helperUops + 1 }
      if c.dvrHelperMaxUops ≤ l.helperUops ∨ p.count ≤ index + 1 then
        (index, { l with active := false })
      else skipStateless c p fuel (index + 1) { l with lanePC := (p.uop (index + 1)).pc }
    else (index, l)

/-- A lane of the deque and whether it is in the chunk. -/
abbrev Slot := Lane × Bool

/-- The lane on its way into the chunk: timed out, outside the template, ended by a skip, or at the
    uop it would issue. -/
def approach (c : Config) (member : Lane → Bool) (l : Lane) : Lane × Bool :=
  if !l.active || decide ((c.template l.gen).count ≤ l.uopIndex) then (l, false)
  else if c.dvrHelperMaxUops ≤ l.helperUops then ({ l with active := false }, false)
  else if !member l then (l, false)
  else
    let p := c.template l.gen
    match p.findPC l.lanePC with
    | none => ({ l with active := false }, false)
    | some index =>
      let (index, l) := skipStateless c p p.count index l
      if l.active then ({ l with uopIndex := index }, true) else (l, false)

/-- The lane goes with the seed: same generation, uop and VIR copy (and so the same PC). -/
def fits (l : Lane) : Option Lane → Bool
  | none => true
  | some seed => l.gen == seed.gen && l.uopIndex == seed.uopIndex && l.copy == seed.copy

/-- The picking loop; it stops looking at lanes when the chunk is full. -/
def pickLanes (c : Config) (env : Env) (readyAt : Rows Nat) (member : Lane → Bool) :
    List Lane → Option Lane → Nat → List Slot
  | [], _, _ => []
  | l :: rest, seed, size =>
    if size = LanesPerVIRCopy then (l, false) :: pickLanes c env readyAt member rest seed size
    else
      let (l, there) := approach c member l
      if there && sourcesReady c env.now readyAt l && env.copyFree l.copy && fits l seed then
        (l, true) :: pickLanes c env readyAt member rest (some (seed.getD l)) (size + 1)
      else (l, false) :: pickLanes c env readyAt member rest seed size

/-! ## Branches -/

/-- What becomes of a lane, as far as its chain is concerned: it asks for a load address, the
    filters refuse the address, or the lane ends at its stride PC. -/
inductive Fate
  | requested (gen : Nat) (lane : Fin 128) (pc address : Addr)
  | rejected (gen : Nat) (lane : Fin 128) (pc address : Addr)
  | stride (gen : Nat) (lane : Fin 128)
  deriving DecidableEq, Repr

/-- The next PC of a branch on one lane, `none` if the branch cannot be evaluated. -/
def branchNext (op : Uop) (row : Fin 32 → RegVal) : Option Addr :=
  let taken := if op.tainted then
      op.evaluateBranch (Uop.operand row op.source0) (Uop.operand row op.source1)
    else some op.branchTaken
  taken.map fun taken => if taken then op.branchTargetPC else op.fallthroughPC

/-- The outcome of a branch for the whole group: `nextPC` by lane number, and the distinct next PCs
    in the order they were met. -/
structure Branch where
  lanes : List Lane
  nextPC : Fin 128 → Option Addr
  paths : List Addr

/-- Append what is not there yet. -/
def pushPath (paths : List Addr) (pc : Addr) : List Addr :=
  if pc ∈ paths then paths else paths ++ [pc]

def evaluateBranchGroup (op : Uop) (regs : Rows RegVal) (lanes : List Lane) : Branch where
  lanes := lanes
  nextPC k := ((lanes.filter fun l => l.lane == k).filterMap fun l =>
    branchNext op (regs l.gen l.lane)).getLast?
  paths := (lanes.filterMap fun l => branchNext op (regs l.gen l.lane)).foldl pushPath []

/-- `branch_outcomes_complete`. -/
def Branch.complete (b : Branch) : Bool := b.lanes.all fun l => (b.nextPC l.lane).isSome

/-- The lanes of a path. -/
def Branch.mask (b : Branch) (path : Addr) (k : Fin 128) : Bool :=
  b.lanes.any (fun l => l.lane == k) && b.nextPC k == some path

/-- The lane ends at its stride PC instead of going on with the next iteration. -/
def endsAtStride (p : Template) (op : Uop) (groups : Nat) (l : Lane) (next_pc : Addr) : Bool :=
  let loop_backedge := op.branchTargetPC != 0 && decide (op.branchTargetPC < op.pc)
  let at_lcr := p.continuePastFLR && p.loopControlPC != 0 && op.pc == p.loopControlPC
  (next_pc == p.laneStridePC || (p.continuePastFLR && (loop_backedge || at_lcr))) &&
    (l.simtDivergent || decide (1 < groups) || p.continuePastFLR)

/-- The commit of a next PC to one lane. -/
def commitLane (c : Config) (op : Uop) (groups : Nat) (next_pc : Addr) (l : Lane) :
    Lane × Option Fate :=
  let p := c.template l.gen
  let l := { l with lanePC := next_pc, helperUops := l.helperUops + 1 }
  if next_pc = 0 then ({ l with active := false }, none)
  else if endsAtStride p op groups l next_pc then
    ({ l with active := false }, some (.stride l.gen l.lane))
  else
    match p.findPC next_pc with
    | none => ({ l with active := false }, none)
    | some next_index =>
      ({ l with uopIndex := next_index
                active := decide (l.helperUops < c.dvrHelperMaxUops) }, none)

/-- The commit loop over the deque.  It compares with the CURRENT `seed->uopIndex`, and the seed (the
    first lane of the chunk) is one of the lanes it changes: `ahead` says that it is still to come. -/
def commitLanes (c : Config) (g : Nat) (op : Uop) (b : Branch) :
    List Slot → Nat → Bool → List Slot × List Fate
  | [], _, _ => ([], [])
  | (l, chosen) :: rest, seedIndex, ahead =>
    let (l, fate) :=
      match b.nextPC l.lane with
      | some next_pc =>
        if l.active && l.gen == g && l.uopIndex == seedIndex then
          commitLane c op b.paths.length next_pc l
        else (l, none)
      | none => (l, none)
    let seedIndex := if chosen && ahead then l.uopIndex else seedIndex
    let (rest, fates) := commitLanes c g op b rest seedIndex (ahead && !chosen)
    ((l, chosen) :: rest, fate.toList ++ fates)

/-- A function on lanes, on the deque with the chunk marked. -/
def onLanes (f : Lane → Lane) (slots : List Slot) : List Slot := slots.map fun s => (f s.1, s.2)

def blockLane (g : Nat) (mask : Fin 128 → Bool) (l : Lane) : Lane :=
  if l.gen = g ∧ mask l.lane then { l with reconvergenceBlocked := true } else l

/-- The recovery from a full stack: the lanes that cannot be represented are given up. -/
def dropLane (g : Nat) (mask : Fin 128 → Bool) (l : Lane) : Lane :=
  if l.gen = g ∧ mask l.lane then { l with active := false } else l

/-- The push loop over the deferred paths; the last component is whether the stack overflowed. -/
def splitPaths (g : Nat) (reconvergencePC : Addr) (b : Branch) :
    List Addr → Reconvergence → List Slot → Reconvergence × List Slot × Bool
  | [], s, slots => (s, slots, false)
  | path :: rest, s, slots =>
    if Entries ≤ s.stack.length then
      let (s, slots, _) :=
        splitPaths g reconvergencePC b rest s (onLanes (dropLane g (b.mask path)) slots)
      (s, slots, true)
    else
      let frame : Frame := { reconvergencePC, pc := path, mask := b.mask path }
      splitPaths g reconvergencePC b rest { s with stack := frame :: s.stack }
        (onLanes (blockLane g (b.mask path)) slots)

/-- The path of the seed; the first path if the seed itself was not evaluated. -/
def Branch.selected (b : Branch) (seed : Lane) : Addr :=
  if b.lanes.contains seed then (b.nextPC seed.lane).getD 0 else b.paths.headD 0

/-- The lanes of a divergent branch are marked. -/
def markDivergent (g : Nat) (b : Branch) (l : Lane) : Lane :=
  if l.active && l.gen == g && (b.nextPC l.lane).isSome then { l with simtDivergent := true } else l

/-- Commit and split of an admitted branch. -/
def commitBranch (c : Config) (g : Nat) (op : Uop) (b : Branch) (seed : Lane) (s : Reconvergence)
    (slots : List Slot) : Reconvergence × List Slot × List Fate × Bool :=
  let (slots, fates) := commitLanes c g op b slots seed.uopIndex true
  if b.paths.length ≤ 1 then (s, slots, fates, false)
  else if op.reconvergencePC = 0 then (s, onLanes (markDivergent g b) slots, fates, false)
  else
    -- Deferred paths are pushed in reverse order of their first lane.
    let deferred := b.paths.reverse.filter fun path => path != b.selected seed
    let (s, slots, overflow) := splitPaths g op.reconvergencePC b deferred s slots
    (refreshCurrentGroup (slots.map Prod.fst) g s, onLanes (markDivergent g b) slots, fates, overflow)

/-! ## Executing the chunk -/

/-- The filters in front of the prefetch queue: the range of user addresses, and a trained relation
    between the trigger value and this load. -/
def admits (c : Config) (env : Env) (p : Template) (row : Fin 32 → RegVal) (pc result : Addr) : Bool :=
  let trigger_value := Uop.operand row p.triggerDestination
  let relation_match := match env.relation p.triggerPC pc with
    | none => true
    | some r =>
      let inRange := r.minAddress ≤ result ∧ result ≤ r.maxAddress
      decide (trigger_value &&& r.stableMask = r.pattern &&& r.stableMask ∧
        r.scale * trigger_value + r.offset = result ∧ inRange) || (p.valid && decide inRange)
  relation_match && c.dvrEnableDependentPrefetch && decide (4096#64 ≤ result) &&
    decide (result < 0x800000000000#64)

/-- What executing a uop does: to the lane, to its registers, to its chain. -/
structure Effect where
  lane : Lane
  write : Option (Fin 32 × RegVal) := none
  fate : Option Fate := none

/-- The PC after an executed uop that is neither a branch nor a load. -/
def nextPC (p : Template) (index : Nat) : Addr :=
  let op := p.uop index
  if op.alternatePath && op.alternateResumePC != 0 then op.alternateResumePC
  else if op.control && !op.conditional && op.branchTargetPC != 0 then op.branchTargetPC
  else p.successor index

/-- The lane goes on at `pc`, if there is such a PC and if the budget lasts. -/
def advance (c : Config) (l : Lane) (pc : Addr) : Lane :=
  let p := c.template l.gen
  { l with
    lanePC := pc, helperUops := l.helperUops + 1
    uopIndex := if pc = 0 ∨ c.dvrHelperMaxUops ≤ l.helperUops + 1 then l.uopIndex else p.indexOf pc
    active := l.active && pc != 0 && decide (l.helperUops + 1 < c.dvrHelperMaxUops) }

/-- One lane of the chunk: whatever uop its `uopIndex` names NOW. -/
def executeLane (c : Config) (env : Env) (row : Fin 32 → RegVal) (l : Lane) : Effect :=
  let p := c.template l.gen
  let op := p.uop l.uopIndex
  if op.conditional then { lane := l }
  else
    match op.evaluate (Uop.operand row op.source0) (Uop.operand row op.source1) with
    | none => { lane := { l with active := false } }
    | some result =>
      if op.load && !op.tainted then
        -- The value is not known to the helper: the load is skipped.
        { lane := advance c l (p.successor l.uopIndex) }
      else if op.load then
        if admits c env p row op.pc result then
          { lane := if p.continuePastFLR then { l with lanePC := 0 } else { l with active := false }
            fate := some (.requested l.gen l.lane op.pc result) }
        else { lane := { l with active := false }
               fate := some (.rejected l.gen l.lane op.pc result) }
      else
        { lane := advance c l (nextPC p l.uopIndex)
          write := op.destination.map fun r => (r, result) }

/-- The deque after the chunk has executed, the registers, and the fates. -/
structure Executed where
  lanes : List Lane
  regs : Rows RegVal
  readyAt : Rows Nat
  fates : List Fate

/-- The lane loop. -/
def executeSlots (c : Config) (env : Env) : List Slot → Rows RegVal → Rows Nat → Executed
  | [], regs, readyAt => ⟨[], regs, readyAt, []⟩
  | (l, chosen) :: rest, regs, readyAt =>
    if chosen then
      let e := executeLane c env (regs l.gen l.lane) l
      let (regs, readyAt) := match e.write with
        | some (r, value) =>
          (regs.set l.gen l.lane r value, readyAt.set l.gen l.lane r env.readyTick)
        | none => (regs, readyAt)
      let done := executeSlots c env rest regs readyAt
      { done with lanes := e.lane :: done.lanes, fates := e.fate.toList ++ done.fates }
    else
      let done := executeSlots c env rest regs readyAt
      { done with lanes := l :: done.lanes }

/-- A failed rename gives up the lanes of the chunk (which execute once more all the same). -/
def failRename (env : Env) (slots : List Slot) : List Slot :=
  slots.map fun s => if s.2 && env.renameFails then ({ s.1 with active := false }, true) else s

/-! ## `issueDVRReplayLanes` -/

/-- What a call reports: the fates of lanes, and whether the reconvergence stack overflowed. -/
structure Report where
  fates : List Fate := []
  overflow : Bool := false

def retireTerminatedLanes (lanes : List Lane) : List Lane := lanes.filter Lane.active

/-- From the functional unit on: commit, execute, retire. -/
def executeChunk (c : Config) (env : Env) (g : Nat) (seed : Lane) (branch : Option Branch)
    (h : Helper) (slots : List Slot) : Helper × Report :=
  let op := (c.template g).uop seed.uopIndex
  let (s, slots, fates, overflow) :=
    match branch with
    | some b =>
      if b.complete then commitBranch c g op b seed (h.context g) slots
      else (h.context g, slots, [], false)
    | none => (h.context g, slots, [], false)
  let done := executeSlots c env (failRename env slots) h.regs h.readyAt
  let lanes := retireTerminatedLanes done.lanes
  ({ replayLanes := lanes
     context := Function.update h.context g (refreshCurrentGroup lanes g s)
     regs := done.regs
     readyAt := done.readyAt },
    { fates := fates ++ done.fates, overflow })

/-- With the chunk picked: `seed` is its first lane. -/
def issueChunk (c : Config) (env : Env) (g : Nat) (seed : Lane) (h : Helper) (slots : List Slot) :
    Helper × Report :=
  let lanes := slots.map Prod.fst
  let stalled := ({ h with replayLanes := lanes }, {})
  let op := (c.template g).uop seed.uopIndex
  if op.conditional then
    let group := lanes.filter fun l =>
      inCurrentGroup g (h.context g) l && l.uopIndex == seed.uopIndex
    if group.isEmpty || !group.all (sourcesReady c env.now h.readyAt) then stalled
    else if env.decoded && env.granted then
      executeChunk c env g seed (some (evaluateBranchGroup op h.regs group)) h slots
    else stalled
  else if env.decoded && env.granted then executeChunk c env g seed none h slots
  else stalled

/-- `active` and inside the template; everything else is erased at the start of a call. -/
def alive (c : Config) (l : Lane) : Bool :=
  l.active && decide (l.uopIndex < (c.template l.gen).count)

/-- The deque with the chunk of the generation marked. -/
def pickChunk (c : Config) (env : Env) (g : Nat) (h : Helper) : List Slot :=
  pickLanes c env h.readyAt (inCurrentGroup g (h.context g)) h.replayLanes none 0

def issueDVRReplayLanes (c : Config) (env : Env) (h : Helper) : Helper × Report :=
  if !env.capacity || h.replayLanes.isEmpty then (h, {})
  else
    let h := { h with replayLanes := h.replayLanes.filter (alive c) }
    if h.replayLanes.isEmpty || !env.readyUops then (h, {})
    else
      match chooseContext c env h with
      | none =>
        -- No generation, no group; the loop still times lanes out.
        let slots := pickLanes c env h.readyAt (fun _ => false) h.replayLanes none 0
        ({ h with replayLanes := retireTerminatedLanes (slots.map Prod.fst) }, {})
      | some g =>
        let h := reconverge c g h
        let slots := pickChunk c env g h
        match slots.find? Prod.snd with
        | none => ({ h with replayLanes := retireTerminatedLanes (slots.map Prod.fst) }, {})
        | some (seed, _) => issueChunk c env g seed h slots

end Gem5Dvr.ReplayLanes
