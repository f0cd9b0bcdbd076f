/-
  What one call of `issueDVRReplayLanes` does to parked and to blocked lanes.

  1. **Lanes (`Trails`)** — every lane after a phase comes from a lane before it, under its own
     number, and no phase before the execution parks a lane.

  2. **Frames (`Held`)** — a blocked lane is named by a frame.  Pushing a frame keeps this; popping
     one keeps it where `released` says so.

  3. **Requests (`Ran`)** — a lane that the execution parks has made the one request of the call
     that names it.

  The crux: `popLane` blocks every lane at the reconvergence PC that the popped frame does not name,
  so (2) needs a frame below for each of them.
-/
import Gem5Dvr.ParkedLanes
import Gem5Dvr.ReplayChainBranch

namespace Gem5Dvr.ParkedLanes

open List Function

open ReplayLanes (Template Lane Frame Helper Fate Slot Reconvergence Env Branch Rows)

variable {c : ReplayLanes.Config}

/-! ## Lanes -/

/-- What a phase that parks no lane may do to one. -/
structure Follows (l l' : Lane) : Prop where
  key : l'.key = l.key
  active : l'.active = true → l.active = true
  index : 0 < l.uopIndex → 0 < l'.uopIndex
  parked : parked l' = true → parked l = true ∧ l'.uopIndex = l.uopIndex

theorem Follows.refl (l : Lane) : Follows l l := ⟨rfl, id, id, fun h => ⟨h, rfl⟩⟩

variable {l l' : Lane} {lanes lanes' : List Lane} {frames : Nat → List Frame}

theorem Follows.trans {l'' : Lane} (h : Follows l l') (h' : Follows l' l'') : Follows l l'' where
  key := h'.key.trans h.key
  active hactive := h.active (h'.active hactive)
  index hindex := h'.index (h.index hindex)
  parked hparked := by
    obtain ⟨hbefore, hsame⟩ := h'.parked hparked
    obtain ⟨hfirst, hsame'⟩ := h.parked hbefore
    exact ⟨hfirst, hsame.trans hsame'⟩

theorem Follows.gen (h : Follows l l') : l'.gen = l.gen := congrArg Prod.fst h.key

theorem Follows.lane (h : Follows l l') : l'.lane = l.lane := congrArg Prod.snd h.key

/-- A lane that ends follows. -/
theorem Follows.ended (hkey : l'.key = l.key)
    (hindex : 0 < l.uopIndex → 0 < l'.uopIndex) (hend : l'.active = false) : Follows l l' where
  key := hkey
  active hactive := by
    rw [hend] at hactive
    cases hactive
  index := hindex
  parked hparked := by
    unfold ParkedLanes.parked at hparked
    rw [hend] at hparked
    cases hparked

/-- So does a lane that goes on at a PC. -/
theorem Follows.moved (hkey : l'.key = l.key) (hactive : l'.active = true → l.active = true)
    (hindex : 0 < l.uopIndex → 0 < l'.uopIndex) (hpc : l'.lanePC ≠ 0) : Follows l l' where
  key := hkey
  active := hactive
  index := hindex
  parked hparked := by
    unfold ParkedLanes.parked at hparked
    rw [Bool.and_eq_true, beq_iff_eq] at hparked
    exact absurd hparked.2 hpc

/-- The deque after a phase. -/
structure Trails (lanes lanes' : List Lane) : Prop where
  keys : (lanes'.map Lane.key).Sublist (lanes.map Lane.key)
  lane : ∀ l' ∈ lanes', ∃ l ∈ lanes, Follows l l'

theorem Trails.refl (lanes : List Lane) : Trails lanes lanes :=
  ⟨Sublist.refl _, fun l hl => ⟨l, hl, .refl l⟩⟩

theorem Trails.trans {lanes'' : List Lane} (h : Trails lanes lanes')
    (h' : Trails lanes' lanes'') : Trails lanes lanes'' where
  keys := h'.keys.trans h.keys
  lane l'' hl'' := by
    obtain ⟨l', hl', hfollows'⟩ := h'.lane l'' hl''
    obtain ⟨l, hl, hfollows⟩ := h.lane l' hl'
    exact ⟨l, hl, hfollows.trans hfollows'⟩

theorem Trails.of_forall₂ (h : Forall₂ Follows lanes lanes') : Trails lanes lanes' where
  keys := by
    rw [Pointwise.map_eq h fun l l' hl => hl.key]
  lane l' hl' := Pointwise.exists_left h hl'

theorem Trails.of_map {f : Lane → Lane} (h : ∀ l ∈ lanes, Follows l (f l)) :
    Trails lanes (lanes.map f) := .of_forall₂ (Pointwise.forall₂_map h)

theorem Trails.of_filter (lanes : List Lane) (q : Lane → Bool) : Trails lanes (lanes.filter q) where
  keys := filter_sublist.map Lane.key
  lane l hl := ⟨l, (mem_filter.mp hl).1, .refl l⟩

/-! ## Frames -/

/-- Every blocked lane is named by a frame of its generation. -/
def Held (frames : Nat → List Frame) (lanes : List Lane) : Prop :=
  ∀ l ∈ lanes, l.active = true → l.reconvergenceBlocked = true →
    ∃ f ∈ frames l.gen, f.mask l.lane = true

/-- A phase that blocks no lane keeps the frames good. -/
theorem Held.calm (h : Held frames lanes)
    (hcalm : ∀ l' ∈ lanes', ∃ l ∈ lanes, l'.key = l.key ∧ (l'.active = true → l.active = true) ∧
      (l'.reconvergenceBlocked = true → l.reconvergenceBlocked = true)) : Held frames lanes' := by
  intro l' hl' hactive hblocked
  obtain ⟨l, hl, hkey, hactive', hblocked'⟩ := hcalm l' hl'
  have hnamed := h l hl (hactive' hactive) (hblocked' hblocked)
  have hgen : l'.gen = l.gen := congrArg Prod.fst hkey
  have hlane : l'.lane = l.lane := congrArg Prod.snd hkey
  rw [hgen, hlane]
  exact hnamed

theorem Held.map (h : Held frames lanes)
    {f : Lane → Lane} (hf : ∀ l, Follows l (f l) ∧
      (f l).reconvergenceBlocked = l.reconvergenceBlocked) : Held frames (lanes.map f) := by
  apply h.calm
  intro l' hl'
  obtain ⟨l, hl, rfl⟩ := mem_map.mp hl'
  refine ⟨l, hl, (hf l).1.key, (hf l).1.active, ?_⟩
  rw [(hf l).2]
  exact id

theorem Held.picked (h : Held frames lanes)
    {slots : List Slot} (hslots : Forall₂ (fun l (s : Slot) => Follows l s.1 ∧
      s.1.reconvergenceBlocked = l.reconvergenceBlocked) lanes slots) :
    Held frames (slots.map Prod.fst) := by
  apply h.calm
  intro l' hl'
  obtain ⟨s, hs, rfl⟩ := mem_map.mp hl'
  obtain ⟨l, hl, hfollows, hblocked⟩ := Pointwise.exists_left hslots hs
  refine ⟨l, hl, hfollows.key, hfollows.active, ?_⟩
  rw [hblocked]
  exact id

theorem Held.filter (h : Held frames lanes)
    (q : Lane → Bool) : Held frames (lanes.filter q) := fun l hl =>
  h l (mem_filter.mp hl).1

section pop

variable {g : Nat} {frame : Frame} {rest : List Frame} {lanes : List Lane}

theorem popLane_follows {l : Lane} (h : released g frame rest l = true) :
    Follows l (ReplayLanes.popLane g frame l) := by
  obtain ⟨hkey, huops, hactive⟩ := ReplayLanes.popLane_key g frame l
  by_cases hmine : (l.active && l.gen == g) = true
  · by_cases hmask : frame.mask l.lane = true
    · -- the lane is resumed, at a PC
      have hpc : frame.pc ≠ 0 := by
        unfold released at h
        rw [hmine, if_pos hmask] at h
        simpa using h
      apply Follows.moved hkey
      · rw [hactive]
        exact id
      · unfold ReplayLanes.popLane
        rw [if_pos hmine, if_pos hmask]
        exact id
      · unfold ReplayLanes.popLane
        rw [if_pos hmine, if_pos hmask]
        exact hpc
    · unfold ReplayLanes.popLane
      split_ifs
      · exact ⟨rfl, id, id, fun hparked => ⟨hparked, rfl⟩⟩
      · exact .refl l
  · rw [Bool.not_eq_true] at hmine
    rw [ReplayLanes.popLane_other hmine]
    exact .refl l

theorem Held.pop {frames : Nat → List Frame} (h : Held (update frames g (frame :: rest)) lanes)
    (hreleased : ∀ l ∈ lanes, released g frame rest l = true) :
    Held (update frames g rest) (lanes.map (ReplayLanes.popLane g frame)) := by
  intro l' hl' hactive hblocked
  obtain ⟨l, hl, rfl⟩ := mem_map.mp hl'
  have hnamed := h l hl
  have hsafe := hreleased l hl
  rw [(ReplayLanes.popLane_key g frame l).2.2] at hactive
  have hkey := (ReplayLanes.popLane_key g frame l).1
  have hgen : (ReplayLanes.popLane g frame l).gen = l.gen := congrArg Prod.fst hkey
  have hlane : (ReplayLanes.popLane g frame l).lane = l.lane := congrArg Prod.snd hkey
  rw [hgen, hlane]
  by_cases hother : l.gen = g
  · subst hother
    rw [update_self] at hnamed ⊢
    have hmine : (l.active && l.gen == l.gen) = true := by rw [hactive, beq_self_eq_true]; rfl
    unfold released at hsafe
    unfold ReplayLanes.popLane at hblocked
    rw [hmine] at hsafe
    rw [if_pos hmine] at hblocked
    by_cases hmask : frame.mask l.lane = true
    · rw [if_pos hmask] at hblocked
      cases hblocked
    · rw [if_neg hmask] at hblocked hsafe
      by_cases hjoin : l.lanePC = frame.reconvergencePC
      · -- blocked by this pop: a frame below names it
        rw [hjoin, bne_self_eq_false] at hsafe
        obtain ⟨f, hf, hnames⟩ := any_eq_true.mp hsafe
        exact ⟨f, hf, hnames⟩
      · rw [if_neg hjoin] at hblocked
        obtain ⟨f, hf, hnames⟩ := hnamed hactive hblocked
        rcases mem_cons.mp hf with rfl | hf
        · exact absurd hnames hmask
        · exact ⟨f, hf, hnames⟩
  · have hsame : ReplayLanes.popLane g frame l = l := by
      apply ReplayLanes.popLane_other
      rw [hactive, beq_eq_false_iff_ne.mpr hother]
      rfl
    rw [hsame] at hblocked
    rw [update_of_ne hother] at hnamed ⊢
    exact hnamed hactive hblocked

theorem popFrames_trails {frames : List Frame} (s : Reconvergence)
    (h : releases g frames lanes = true) :
    Trails lanes (ReplayLanes.popFrames g frames s lanes).2 ∧
      ∀ stack, Held (update stack g frames) lanes →
        Held (update stack g (ReplayLanes.popFrames g frames s lanes).1.stack)
          (ReplayLanes.popFrames g frames s lanes).2 := by
  induction frames generalizing lanes s with
  | nil => exact ⟨.refl lanes, fun stack hheld => hheld⟩
  | cons frame rest ih =>
    unfold ReplayLanes.popFrames
    by_cases hpops : ReplayLanes.pops lanes g frame = true
    · unfold releases at h
      rw [hpops, Bool.not_true, Bool.false_or, Bool.and_eq_true, all_eq_true] at h
      rw [if_pos hpops]
      obtain ⟨htrails, hheld⟩ := ih { s with
        currentPC := frame.pc, currentMask := frame.mask, currentValid := frame.pc != 0 } h.2
      refine ⟨(Trails.of_map fun l hl => popLane_follows (h.1 l hl)).trans htrails, ?_⟩
      intro stack hbefore
      exact hheld stack (hbefore.pop h.1)
    · rw [if_neg hpops]
      exact ⟨.refl lanes, fun stack hheld => hheld⟩

end pop

/-- Reconvergence, where every pop is safe. -/
theorem reconverge_trails {g : Nat} {h : Helper}
    (hreleases : releases g (h.context g).stack h.replayLanes = true) :
    Trails h.replayLanes (ReplayLanes.reconverge c g h).replayLanes ∧ (Held h.frames h.replayLanes →
        Held (ReplayLanes.reconverge c g h).frames (ReplayLanes.reconverge c g h).replayLanes) := by
  have hstack := ReplayLanes.refreshCurrentGroup_stack h.replayLanes g (h.context g)
  have hpop := popFrames_trails (ReplayLanes.refreshCurrentGroup h.replayLanes g (h.context g)) (by
      rw [← hstack] at hreleases
      exact hreleases)
  unfold ReplayLanes.reconverge
  dsimp only
  generalize ReplayLanes.popFrames g
    (ReplayLanes.refreshCurrentGroup h.replayLanes g (h.context g)).stack
    (ReplayLanes.refreshCurrentGroup h.replayLanes g (h.context g)) h.replayLanes = popped at hpop
  obtain ⟨s, lanes⟩ := popped
  obtain ⟨htrails, hheld⟩ := hpop
  -- the last pop changes a mark of the lanes only
  have hrejoin : ∀ l : Lane, Follows l (ReplayLanes.rejoinLane c g l) ∧
      (ReplayLanes.rejoinLane c g l).reconvergenceBlocked = l.reconvergenceBlocked := by
    intro l
    obtain ⟨d, hsame⟩ := ReplayLanes.rejoinLane_same c g l
    rw [hsame]
    exact ⟨⟨rfl, id, id, fun hparked => ⟨hparked, rfl⟩⟩, rfl⟩
  have hframes : (h.setContext g s).frames = update h.frames g s.stack :=
    ReplayLanes.frames_setContext h g s
  have hstart : Held h.frames h.replayLanes → Held (update h.frames g s.stack) lanes := by
    intro hbefore
    apply hheld h.frames
    rw [hstack, show (h.context g).stack = h.frames g from rfl, update_eq_self]
    exact hbefore
  by_cases hempty : s.stack.isEmpty = true
  · rw [if_pos hempty]
    refine ⟨htrails.trans (Trails.of_map fun l _ => (hrejoin l).1), ?_⟩
    intro hbefore
    show Held (h.setContext g s).frames (lanes.map (ReplayLanes.rejoinLane c g))
    rw [hframes]
    exact (hstart hbefore).map hrejoin
  · rw [if_neg hempty]
    refine ⟨htrails, ?_⟩
    intro hbefore
    show Held (h.setContext g s).frames lanes
    rw [hframes]
    exact hstart hbefore

/-! ## The chunk -/

/-- A uop past the trigger has a PC. -/
theorem hasPCs_uop {p : Template} (h : hasPCs p = true) {index : Nat} (hpos : 0 < index)
    (hindex : index < p.count) : (p.uop index).pc ≠ 0 := by
  unfold hasPCs at h
  rw [all_eq_true] at h
  have hlt : index - 1 < p.uops.tail.length := by
    rw [length_tail]
    unfold Template.count at hindex
    omega
  have huop : p.uop index = p.uops.tail.get ⟨index - 1, hlt⟩ := by
    unfold Template.uop Template.count at *
    rw [get_eq_getElem, getElem_tail, getD_eq_getElem?_getD,
      getElem?_eq_getElem hindex, Option.getD_some]
    congr 1
    show index = index - 1 + 1
    omega
  rw [huop]
  exact bne_iff_ne.mp (h _ (get_mem p.uops.tail ⟨index - 1, hlt⟩))

/-- The skips of a lane that stands at a PC: it stands at a PC past them, or has ended. -/
theorem skipStateless_follows {p : Template} (hp : hasPCs p = true) (fuel : Nat) {index : Nat}
    (hindex : 0 < index) {l : Lane} (hpc : l.lanePC ≠ 0) :
    (ReplayLanes.skipStateless c p fuel index l).2.key = l.key ∧
      (ReplayLanes.skipStateless c p fuel index l).2.reconvergenceBlocked = l.reconvergenceBlocked ∧
      (ReplayLanes.skipStateless c p fuel index l).2.uopIndex = l.uopIndex ∧
      ((ReplayLanes.skipStateless c p fuel index l).2.active = true → l.active = true) ∧
      (ReplayLanes.skipStateless c p fuel index l).2.lanePC ≠ 0 ∧
      0 < (ReplayLanes.skipStateless c p fuel index l).1 := by
  induction fuel generalizing index l with
  | zero => exact ⟨rfl, rfl, rfl, id, hpc, hindex⟩
  | succ fuel ih =>
    unfold ReplayLanes.skipStateless
    dsimp only
    split_ifs with hskip hend
    · refine ⟨rfl, rfl, rfl, ?_, hpc, hindex⟩
      intro hactive
      cases hactive
    · have hnext : (p.uop (index + 1)).pc ≠ 0 := hasPCs_uop hp (Nat.succ_pos index) (by omega)
      exact ih (l := { l with helperUops := l.helperUops + 1, lanePC := (p.uop (index + 1)).pc })
        (Nat.succ_pos index) hnext
    · exact ⟨rfl, rfl, rfl, id, hpc, hindex⟩

/-- A lane on its way into the chunk. -/
theorem approach_follows (member : Lane → Bool) {l : Lane} (hp : hasPCs (c.template l.gen) = true) :
    Follows l (ReplayLanes.approach c member l).1 ∧
      (ReplayLanes.approach c member l).1.reconvergenceBlocked = l.reconvergenceBlocked := by
  unfold ReplayLanes.approach
  split_ifs with hgone hslow hmember
  · exact ⟨.refl l, rfl⟩
  · exact ⟨.ended rfl id rfl, rfl⟩
  · exact ⟨.refl l, rfl⟩
  · dsimp only
    cases hfind : (c.template l.gen).findPC l.lanePC with
    | none => exact ⟨.ended rfl id rfl, rfl⟩
    | some index =>
      obtain ⟨hpos, -, -, hpc⟩ := ReplayLanes.findPC_bounds hfind
      obtain ⟨hkey, hblocked, hsame, hactive, hthere, hindex⟩ :=
        skipStateless_follows (c := c) hp (c.template l.gen).count hpos hpc
      dsimp only
      generalize ReplayLanes.skipStateless c (c.template l.gen) (c.template l.gen).count index l
        = skipped at *
      obtain ⟨index', l'⟩ := skipped
      by_cases hthere' : l'.active = true
      · rw [if_pos hthere']
        exact ⟨.moved hkey hactive (fun _ => hindex) hthere, hblocked⟩
      · rw [if_neg hthere']
        rw [Bool.not_eq_true] at hthere'
        refine ⟨.ended hkey ?_ hthere', hblocked⟩
        rw [hsame]
        exact id

/-- The deque with the chunk marked. -/
theorem pickLanes_follows (env : Env) (readyAt : Rows Nat) (member : Lane → Bool)
    {lanes : List Lane} (hp : ∀ l ∈ lanes, hasPCs (c.template l.gen) = true)
    (seed : Option Lane) (size : Nat) :
    Forall₂ (fun l (s : Slot) => Follows l s.1 ∧
        s.1.reconvergenceBlocked = l.reconvergenceBlocked) lanes
      (ReplayLanes.pickLanes c env readyAt member lanes seed size) := by
  induction lanes generalizing seed size with
  | nil => exact .nil
  | cons l rest ih =>
    have hrest := ih fun l' hl' => hp l' (mem_cons_of_mem l hl')
    have happroach := approach_follows (c := c) member (hp l mem_cons_self)
    unfold ReplayLanes.pickLanes
    split_ifs with hfull
    · exact .cons ⟨.refl l, rfl⟩ (hrest seed size)
    · dsimp only
      generalize ReplayLanes.approach c member l = s at happroach ⊢
      obtain ⟨l', there⟩ := s
      split_ifs with hpick
      · exact .cons happroach (hrest _ _)
      · exact .cons happroach (hrest seed size)

/-! ## The branch -/

section branch

variable {g : Nat} {b : Branch}

theorem commitLane_follows (op : Uop) (groups : Nat) (next_pc : Addr) {l : Lane}
    (hactive : l.active = true) :
    Follows l (ReplayLanes.commitLane c op groups next_pc l).1 := by
  unfold ReplayLanes.commitLane
  dsimp only
  split_ifs with hzero hstride
  · exact .ended rfl id rfl
  · exact .ended rfl id rfl
  · cases hfind : (c.template l.gen).findPC next_pc with
    | none => exact .ended rfl id rfl
    | some next_index =>
      have hpos := (ReplayLanes.findPC_bounds hfind).1
      exact .moved rfl (fun _ => hactive) (fun _ => hpos) hzero

/-- The commit loop: it parks no lane and blocks none. -/
theorem commitLanes_follows (op : Uop) (slots : List Slot) (seedIndex : Nat) (ahead : Bool) :
    Forall₂ (fun s s' : Slot => Follows s.1 s'.1 ∧
        s'.1.reconvergenceBlocked = s.1.reconvergenceBlocked) slots
      (ReplayLanes.commitLanes c g op b slots seedIndex ahead).1 := by
  induction slots generalizing seedIndex ahead with
  | nil => exact .nil
  | cons s rest ih =>
    obtain ⟨l, chosen⟩ := s
    unfold ReplayLanes.commitLanes
    cases hnext : b.nextPC l.lane with
    | none => exact .cons ⟨.refl l, rfl⟩ (ih _ _)
    | some next_pc =>
      dsimp only
      by_cases hmine : (l.active && l.gen == g && l.uopIndex == seedIndex) = true
      · rw [if_pos hmine]
        simp only [Bool.and_eq_true] at hmine
        exact .cons ⟨commitLane_follows op _ _ hmine.1.1,
          (ReplayLanes.commitLane_frame c op b.paths.length next_pc l).1⟩ (ih _ _)
      · rw [if_neg hmine]
        exact .cons ⟨.refl l, rfl⟩ (ih _ _)

theorem blockLane_follows (mask : Fin 128 → Bool) (l : Lane) :
    Follows l (ReplayLanes.blockLane g mask l) := by
  obtain ⟨blocked, hsame⟩ := ReplayLanes.blockLane_same g mask l
  rw [hsame]
  exact ⟨rfl, id, id, fun hparked => ⟨hparked, rfl⟩⟩

theorem dropLane_follows (mask : Fin 128 → Bool) (l : Lane) :
    Follows l (ReplayLanes.dropLane g mask l) ∧
      (ReplayLanes.dropLane g mask l).reconvergenceBlocked = l.reconvergenceBlocked := by
  unfold ReplayLanes.dropLane
  split_ifs
  · exact ⟨.ended rfl id rfl, rfl⟩
  · exact ⟨.refl l, rfl⟩

/-- The lanes that a push blocks are named by its frame. -/
theorem Held.push {frames : Nat → List Frame} {stack : List Frame} {lanes : List Lane}
    (frame : Frame) (h : Held (update frames g stack) lanes) :
    Held (update frames g (frame :: stack)) (lanes.map (ReplayLanes.blockLane g frame.mask)) := by
  intro l' hl' hactive hblocked
  obtain ⟨l, hl, rfl⟩ := mem_map.mp hl'
  have hnamed := h l hl
  have hfollows := blockLane_follows (g := g) frame.mask l
  rw [hfollows.gen, hfollows.lane]
  have hactive' := hfollows.active hactive
  by_cases hother : l.gen = g
  · rw [hother, update_self] at hnamed ⊢
    by_cases hmask : frame.mask l.lane = true
    · exact ⟨frame, mem_cons_self, hmask⟩
    · unfold ReplayLanes.blockLane at hblocked
      rw [if_neg fun hboth => hmask hboth.2] at hblocked
      obtain ⟨f, hf, hnames⟩ := hnamed hactive' hblocked
      exact ⟨f, mem_cons_of_mem frame hf, hnames⟩
  · rw [update_of_ne hother] at hnamed ⊢
    unfold ReplayLanes.blockLane at hblocked
    rw [if_neg fun hboth => hother hboth.1] at hblocked
    exact hnamed hactive' hblocked

/-- The push loop, overflow or not. -/
theorem splitPaths_trails (reconvergencePC : Addr) (paths : List Addr) (s : Reconvergence)
    (slots : List Slot) :
    Trails (slots.map Prod.fst)
        ((ReplayLanes.splitPaths g reconvergencePC b paths s slots).2.1.map Prod.fst) ∧
      ∀ frames, Held (update frames g s.stack) (slots.map Prod.fst) → Held (update frames g
            (ReplayLanes.splitPaths g reconvergencePC b paths s slots).1.stack)
          ((ReplayLanes.splitPaths g reconvergencePC b paths s slots).2.1.map Prod.fst) := by
  induction paths generalizing s slots with
  | nil => exact ⟨.refl _, fun frames hheld => hheld⟩
  | cons path rest ih =>
    unfold ReplayLanes.splitPaths
    split_ifs with hfull
    · obtain ⟨htrails, hheld⟩ :=
        ih s (ReplayLanes.onLanes (ReplayLanes.dropLane g (b.mask path)) slots)
      rw [ReplayLanes.map_onLanes] at htrails hheld
      refine ⟨(Trails.of_map fun l _ => (dropLane_follows (b.mask path) l).1).trans htrails, ?_⟩
      intro frames hbefore
      exact hheld frames (hbefore.map (dropLane_follows (b.mask path)))
    · obtain ⟨htrails, hheld⟩ := ih
        { s with stack := { reconvergencePC, pc := path, mask := b.mask path } :: s.stack }
        (ReplayLanes.onLanes (ReplayLanes.blockLane g (b.mask path)) slots)
      rw [ReplayLanes.map_onLanes] at htrails hheld
      refine ⟨(Trails.of_map fun l _ => blockLane_follows (b.mask path) l).trans htrails, ?_⟩
      intro frames hbefore
      exact hheld frames (hbefore.push { reconvergencePC, pc := path, mask := b.mask path })

/-- Commit, split and marking of an admitted branch. -/
theorem commitBranch_trails (op : Uop) (seed : Lane) (s : Reconvergence) (slots : List Slot) :
    Trails (slots.map Prod.fst)
        ((ReplayLanes.commitBranch c g op b seed s slots).2.1.map Prod.fst) ∧
      (∀ frames, Held (update frames g s.stack) (slots.map Prod.fst) →
        Held (update frames g (ReplayLanes.commitBranch c g op b seed s slots).1.stack)
          ((ReplayLanes.commitBranch c g op b seed s slots).2.1.map Prod.fst)) ∧
      ∀ f ∈ (ReplayLanes.commitBranch c g op b seed s slots).2.2.1, isRequest f = false := by
  have hcommits := commitLanes_follows (c := c) (g := g) (b := b) op slots seed.uopIndex true
  have hfates : ∀ f ∈ (ReplayLanes.commitLanes c g op b slots seed.uopIndex true).2,
      isRequest f = false := by
    intro f hf
    obtain ⟨g', k, rfl⟩ :=
      (ReplayLanes.commitLanes_spec (c := c) (g := g) (b := b) op slots seed.uopIndex true).2 f hf
    rfl
  unfold ReplayLanes.commitBranch
  generalize ReplayLanes.commitLanes c g op b slots seed.uopIndex true = committed at *
  obtain ⟨slots', fates⟩ := committed
  have htrails : Trails (slots.map Prod.fst) (slots'.map Prod.fst) := by
    apply Trails.of_forall₂
    rw [forall₂_map_left_iff, forall₂_map_right_iff]
    exact hcommits.imp fun s s' hs => hs.1
  have hheld : ∀ frames, Held frames (slots.map Prod.fst) → Held frames (slots'.map Prod.fst) := by
    intro frames hbefore
    apply hbefore.calm
    intro l' hl'
    obtain ⟨s', hs', rfl⟩ := mem_map.mp hl'
    obtain ⟨s₀, hs₀, hfollows, hblocked⟩ := Pointwise.exists_left hcommits hs'
    refine ⟨s₀.1, mem_map_of_mem hs₀, hfollows.key, hfollows.active, ?_⟩
    rw [hblocked]
    exact id
  -- the marks at the end change neither
  have hmark : ∀ slots'' : List Slot, Trails (slots''.map Prod.fst)
      ((ReplayLanes.onLanes (ReplayLanes.markDivergent g b) slots'').map Prod.fst) ∧
      ∀ frames, Held frames (slots''.map Prod.fst) → Held frames
        ((ReplayLanes.onLanes (ReplayLanes.markDivergent g b) slots'').map Prod.fst) := by
    intro slots''
    have hone : ∀ l : Lane, Follows l (ReplayLanes.markDivergent g b l) ∧
        (ReplayLanes.markDivergent g b l).reconvergenceBlocked = l.reconvergenceBlocked := by
      intro l
      obtain ⟨d, hsame⟩ := ReplayLanes.markDivergent_same g b l
      rw [hsame]
      exact ⟨⟨rfl, id, id, fun hparked => ⟨hparked, rfl⟩⟩, rfl⟩
    rw [ReplayLanes.map_onLanes]
    exact ⟨Trails.of_map fun l _ => (hone l).1, fun frames hbefore => hbefore.map hone⟩
  split_ifs with hone hnowhere
  · exact ⟨htrails, fun frames => hheld _, hfates⟩
  · exact ⟨htrails.trans (hmark slots').1,
      fun frames hbefore => (hmark slots').2 _ (hheld _ hbefore), hfates⟩
  · obtain ⟨hsplit, hpushed⟩ := splitPaths_trails (g := g) (b := b) op.reconvergencePC
      (b.paths.reverse.filter fun path => path != b.selected seed) s slots'
    refine ⟨(htrails.trans hsplit).trans (hmark _).1, ?_, hfates⟩
    intro frames hbefore
    rw [ReplayLanes.refreshCurrentGroup_stack]
    exact (hmark _).2 _ (hpushed frames (hheld _ hbefore))

end branch

/-! ## Requests -/

/-- The PCs of the loads that the call requests for the lane. -/
def asks (fates : List Fate) (key : Nat × Fin 128) : List Addr := fates.filterMap fun
    | .requested g k pc _ => if (g, k) = key then some pc else none
    | _ => none

theorem asks_append (fates fates' : List Fate) (key : Nat × Fin 128) :
    asks (fates ++ fates') key = asks fates key ++ asks fates' key := filterMap_append

variable {fates : List Fate} {l : Lane} {slots : List Slot} {h : Helper}

/-- Fates that are not requests, or that name other lanes. -/
theorem asks_eq_nil {key : Nat × Fin 128}
    (h : ∀ g k pc address, .requested g k pc address ∈ fates → (g, k) ≠ key) :
    asks fates key = [] := by
  unfold asks
  rw [filterMap_eq_nil_iff]
  intro f hf
  cases f with
  | requested g k pc address => exact if_neg (h g k pc address hf)
  | rejected g k pc address => rfl
  | stride g k => rfl

theorem asks_own (g : Nat) (k : Fin 128) (pc address : Addr) :
    asks [.requested g k pc address] (g, k) = [pc] := by
  simp [asks]

/-- The request has passed the filters. -/
def Admitted (c : ReplayLanes.Config) : Fate → Prop
  | .requested _ _ _ address =>
    c.dvrEnableDependentPrefetch = true ∧ PrefetchQueue.InRange address
  | _ => True

/-- What executing a lane's uop does to it. -/
structure Effects (c : ReplayLanes.Config) (l : Lane) (e : ReplayLanes.Effect) : Prop where
  key : e.lane.key = l.key
  active : e.lane.active = true → l.active = true
  blocked : e.lane.reconvergenceBlocked = l.reconvergenceBlocked
  index : 1 < (c.template l.gen).count → 0 < l.uopIndex → 0 < e.lane.uopIndex
  admitted : ∀ f, e.fate = some f → Admitted c f
  own : ∀ g k pc address, e.fate = some (.requested g k pc address) → (g, k) = l.key
  parked : parked e.lane = true → ((∀ f, e.fate = some f → isRequest f = false) ∧ parked l = true ∧
        e.lane.uopIndex = l.uopIndex) ∨
      (∃ address, e.fate = some (.requested l.gen l.lane ((c.template l.gen).uop l.uopIndex).pc
          address)) ∧ e.lane.uopIndex = l.uopIndex ∧ l.uopIndex < (c.template l.gen).count ∧
        (c.template l.gen).continuePastFLR = true

theorem advance_effects (l : Lane) (pc : Addr) (write : Option (Fin 32 × RegVal)) :
    Effects c l { lane := ReplayLanes.advance c l pc, write := write } where
  key := rfl
  active hactive := by
    unfold ReplayLanes.advance at hactive
    simp only [Bool.and_eq_true] at hactive
    exact hactive.1.1
  blocked := rfl
  index hcount hpos := by
    unfold ReplayLanes.advance
    dsimp only
    split_ifs
    · exact hpos
    · unfold Template.indexOf
      cases hfind : (c.template l.gen).findPC pc with
      | none =>
        show 0 < (c.template l.gen).count
        omega
      | some index => exact (ReplayLanes.findPC_bounds hfind).1
  admitted f hf := by cases hf
  own g k pc address hf := by cases hf
  parked hparked := by
    unfold ParkedLanes.parked ReplayLanes.advance at hparked
    simp only [Bool.and_eq_true, beq_iff_eq, bne_iff_ne] at hparked
    exact absurd hparked.2 hparked.1.1.2

/-- A lane that ends, with a fate of its own. -/
theorem ended_effects (l : Lane) (fate : Option Fate)
    (hadmitted : ∀ f, fate = some f → Admitted c f)
    (hown : ∀ g k pc address, fate = some (.requested g k pc address) → (g, k) = l.key) :
    Effects c l { lane := { l with active := false }, fate := fate } where
  key := rfl
  active hactive := by cases hactive
  blocked := rfl
  index _ hpos := hpos
  admitted := hadmitted
  own := hown
  parked hparked := by cases hparked

theorem admits_admitted {env : Env} {p : Template} {row : Fin 32 → RegVal} {pc result : Addr}
    (h : ReplayLanes.admits c env p row pc result = true) :
    c.dvrEnableDependentPrefetch = true ∧ PrefetchQueue.InRange result := by
  unfold ReplayLanes.admits at h
  simp only [Bool.and_eq_true, decide_eq_true_eq] at h
  exact ⟨h.1.1.2, h.1.2, h.2⟩

theorem executeLane_effects (env : Env) (row : Fin 32 → RegVal) (l : Lane) :
    Effects c l (ReplayLanes.executeLane c env row l) := by
  unfold ReplayLanes.executeLane
  by_cases hcond : ((c.template l.gen).uop l.uopIndex).conditional = true
  · rw [if_pos hcond]
    constructor
    · rfl
    · exact id
    · rfl
    · intro _ hpos
      exact hpos
    · intro f hf
      cases hf
    · intro g k pc address hf
      cases hf
    · intro hparked
      left
      refine ⟨?_, hparked, rfl⟩
      intro f hf
      cases hf
  · rw [if_neg hcond]
    cases hvalue : ((c.template l.gen).uop l.uopIndex).evaluate
        (Uop.operand row ((c.template l.gen).uop l.uopIndex).source0)
        (Uop.operand row ((c.template l.gen).uop l.uopIndex).source1) with
    | none =>
      apply ended_effects
      · intro f hf
        cases hf
      · intro g k pc address hf
        cases hf
    | some result =>
      dsimp only
      split_ifs with huntainted hload hadmits hcontinue
      · exact advance_effects l _ none
      · -- the lane parks
        have hindex : l.uopIndex < (c.template l.gen).count := by
          by_contra hpast
          have hnone : (c.template l.gen).uop l.uopIndex = {} := by
            unfold Template.uop
            rw [getD_eq_getElem?_getD, getElem?_eq_none (Nat.not_lt.mp hpast)]
            rfl
          rw [hnone] at hload
          cases hload
        constructor
        · rfl
        · exact id
        · rfl
        · intro _ hpos
          exact hpos
        · intro f hf
          obtain rfl := Option.some.inj hf
          exact admits_admitted hadmits
        · intro g k pc address hf
          cases hf
          rfl
        · intro _
          right
          exact ⟨⟨result, rfl⟩, rfl, hindex, hcontinue⟩
      · apply ended_effects
        · intro f hf
          obtain rfl := Option.some.inj hf
          exact admits_admitted hadmits
        · intro g k pc address hf
          cases hf
          rfl
      · apply ended_effects
        · intro f hf
          obtain rfl := Option.some.inj hf
          trivial
        · intro g k pc address hf
          cases hf
      · exact advance_effects l _ _

/-- A lane before and after the execution of the chunk. -/
structure Ran (c : ReplayLanes.Config) (fates : List Fate) (l l' : Lane) : Prop where
  key : l'.key = l.key
  active : l'.active = true → l.active = true
  blocked : l'.reconvergenceBlocked = l.reconvergenceBlocked
  index : 1 < (c.template l.gen).count → 0 < l.uopIndex → 0 < l'.uopIndex
  parked : parked l' = true → (asks fates l.key = [] ∧ parked l = true ∧ l'.uopIndex = l.uopIndex) ∨
      (asks fates l.key = [((c.template l.gen).uop l.uopIndex).pc] ∧ l'.uopIndex = l.uopIndex ∧
        l.uopIndex < (c.template l.gen).count ∧ (c.template l.gen).continuePastFLR = true)

/-- A lane that is not in the chunk. -/
theorem Ran.left (l : Lane) (h : asks fates l.key = []) : Ran c fates l l where
  key := rfl
  active := id
  blocked := rfl
  index _ hpos := hpos
  parked hparked := Or.inl ⟨h, hparked, rfl⟩

/-- The requests of the rest of the chunk name other lanes. -/
theorem Effects.ran {e : ReplayLanes.Effect} (h : Effects c l e)
    (hrest : asks fates l.key = []) : Ran c (e.fate.toList ++ fates) l e.lane where
  key := h.key
  active := h.active
  blocked := h.blocked
  index := h.index
  parked hparked := by
    rw [asks_append, hrest, append_nil]
    rcases h.parked hparked with ⟨hquiet, hbefore, hsame⟩ | ⟨⟨address, hfate⟩, hsame, hlt, hcont⟩
    · left
      refine ⟨?_, hbefore, hsame⟩
      apply asks_eq_nil
      intro g k pc address hf
      have hno := hquiet _ (Option.mem_toList.mp hf)
      cases hno
    · right
      refine ⟨?_, hsame, hlt, hcont⟩
      rw [hfate]
      exact asks_own l.gen l.lane _ address

/-- The lane loop: every lane of the deque, and the requests that were made. -/
structure Loop (c : ReplayLanes.Config) (slots : List Slot) (done : ReplayLanes.Executed) :
    Prop where
  keys : done.lanes.map Lane.key = slots.map fun s => s.1.key
  ran : ∀ l' ∈ done.lanes, ∃ s ∈ slots, Ran c done.fates s.1 l'
  admitted : ∀ f ∈ done.fates, Admitted c f
  own : ∀ g k pc address, .requested g k pc address ∈ done.fates →
    (g, k) ∈ slots.map fun s => s.1.key

theorem Ran.later {l' : Lane} (h : Ran c fates l l') {first : List Fate}
    (hother : asks first l.key = []) : Ran c (first ++ fates) l l' where
  key := h.key
  active := h.active
  blocked := h.blocked
  index := h.index
  parked hparked := by
    rw [asks_append, hother, nil_append]
    exact h.parked hparked

/-- A lane of the chunk, and the rest of the loop. -/
theorem Loop.execute {e : ReplayLanes.Effect} {rest : List Slot}
    {done : ReplayLanes.Executed} (h : Loop c rest done) (heffects : Effects c l e)
    (hout : l.key ∉ rest.map fun s => s.1.key) :
    Loop c ((l, true) :: rest)
      { done with lanes := e.lane :: done.lanes, fates := e.fate.toList ++ done.fates } where
  keys := by
    show e.lane.key :: done.lanes.map Lane.key = l.key :: rest.map fun s => s.1.key
    rw [heffects.key, h.keys]
  ran l' hl' := by
    rcases mem_cons.mp hl' with rfl | hl'
    · refine ⟨(l, true), mem_cons_self, heffects.ran ?_⟩
      apply asks_eq_nil
      intro g k pc address hf heq
      rw [← heq] at hout
      exact hout (h.own g k pc address hf)
    · obtain ⟨s, hs, hran⟩ := h.ran l' hl'
      refine ⟨s, mem_cons_of_mem _ hs, hran.later ?_⟩
      apply asks_eq_nil
      intro g k pc address hf heq
      apply hout
      rw [← heffects.own g k pc address (Option.mem_toList.mp hf), heq]
      exact mem_map_of_mem hs
  admitted f hf := by
    rcases mem_append.mp hf with hf | hf
    · exact heffects.admitted f (Option.mem_toList.mp hf)
    · exact h.admitted f hf
  own g k pc address hf := by
    rcases mem_append.mp hf with hf | hf
    · rw [heffects.own g k pc address (Option.mem_toList.mp hf)]
      exact mem_cons_self
    · exact mem_cons_of_mem _ (h.own g k pc address hf)

/-- A lane that is not in the chunk, and the rest of the loop. -/
theorem Loop.pass {rest : List Slot} {done : ReplayLanes.Executed}
    (h : Loop c rest done) (hout : l.key ∉ rest.map fun s => s.1.key) :
    Loop c ((l, false) :: rest) { done with lanes := l :: done.lanes } where
  keys := by
    show l.key :: done.lanes.map Lane.key = l.key :: rest.map fun s => s.1.key
    rw [h.keys]
  ran l' hl' := by
    rcases mem_cons.mp hl' with rfl | hl'
    · refine ⟨(l', false), mem_cons_self, .left l' ?_⟩
      apply asks_eq_nil
      intro g k pc address hf heq
      rw [← heq] at hout
      exact hout (h.own g k pc address hf)
    · obtain ⟨s, hs, hran⟩ := h.ran l' hl'
      exact ⟨s, mem_cons_of_mem _ hs, hran⟩
  admitted := h.admitted
  own g k pc address hf := mem_cons_of_mem _ (h.own g k pc address hf)

theorem executeSlots_loop (env : Env)
    (hnodup : (slots.map fun s => s.1.key).Nodup) (regs : Rows RegVal) (readyAt : Rows Nat) :
    Loop c slots (ReplayLanes.executeSlots c env slots regs readyAt) := by
  induction slots generalizing regs readyAt with
  | nil =>
    constructor
    · rfl
    · intro l' hl'
      cases hl'
    · intro f hf
      cases hf
    · intro g k pc address hf
      cases hf
  | cons s rest ih =>
    obtain ⟨l, chosen⟩ := s
    obtain ⟨hout, hrest⟩ := nodup_cons.mp hnodup
    unfold ReplayLanes.executeSlots
    cases chosen with
    | true =>
      exact (ih hrest _ _).execute (executeLane_effects env (regs l.gen l.lane) l) hout
    | false =>
      exact (ih hrest _ _).pass hout

/-! ## One call -/

/-- The call: which lanes are parked after it, and whether the blocked ones are named. -/
structure Issued (c : ReplayLanes.Config) (h h' : Helper) (fates : List Fate) : Prop where
  keys : (h'.replayLanes.map Lane.key).Sublist (h.replayLanes.map Lane.key)
  index : ∀ l' ∈ h'.replayLanes, 0 < l'.uopIndex
  parked : ∀ l' ∈ h'.replayLanes, parked l' = true →
    (asks fates l'.key = [] ∧ ∃ l ∈ h.replayLanes, parked l = true ∧ l.key = l'.key ∧
        l.uopIndex = l'.uopIndex) ∨
      (asks fates l'.key = [((c.template l'.gen).uop l'.uopIndex).pc] ∧
        l'.uopIndex < (c.template l'.gen).count ∧ (c.template l'.gen).continuePastFLR = true)
  held : Held h.frames h.replayLanes → Held h'.frames h'.replayLanes
  admitted : ∀ f ∈ fates, Admitted c f

/-- What a call needs of its lanes. -/
structure Issuable (c : ReplayLanes.Config) (lanes : List Lane) : Prop where
  nodup : (lanes.map Lane.key).Nodup
  index : ∀ l ∈ lanes, 0 < l.uopIndex
  accepted : ∀ l ∈ lanes, ReplayLanes.accepts c l.gen = true
  pcs : ∀ l ∈ lanes, hasPCs (c.template l.gen) = true

theorem Issuable.of_trails {lanes lanes' : List Lane} (h : Issuable c lanes)
    (htrails : Trails lanes lanes') : Issuable c lanes' where
  nodup := h.nodup.sublist htrails.keys
  index l' hl' := by
    obtain ⟨l, hl, hfollows⟩ := htrails.lane l' hl'
    exact hfollows.index (h.index l hl)
  accepted l' hl' := by
    obtain ⟨l, hl, hfollows⟩ := htrails.lane l' hl'
    rw [hfollows.gen]
    exact h.accepted l hl
  pcs l' hl' := by
    obtain ⟨l, hl, hfollows⟩ := htrails.lane l' hl'
    rw [hfollows.gen]
    exact h.pcs l hl

/-- A call that executes nothing. -/
theorem Trails.issued {h' : Helper} (htrails : Trails h.replayLanes h'.replayLanes)
    (hlanes : Issuable c h.replayLanes)
    (hheld : Held h.frames h.replayLanes → Held h'.frames h'.replayLanes) :
    Issued c h h' [] where
  keys := htrails.keys
  index := (hlanes.of_trails htrails).index
  parked l' hl' hparked := by
    left
    obtain ⟨l, hl, hfollows⟩ := htrails.lane l' hl'
    obtain ⟨hbefore, hsame⟩ := hfollows.parked hparked
    exact ⟨rfl, l, hl, hbefore, hfollows.key.symm, hsame.symm⟩
  held := hheld
  admitted f hf := by cases hf

/-- A call after another phase of it. -/
theorem Issued.after {h' h'' : Helper} (hissued : Issued c h' h'' fates)
    (htrails : Trails h.replayLanes h'.replayLanes)
    (hheld : Held h.frames h.replayLanes → Held h'.frames h'.replayLanes) :
    Issued c h h'' fates where
  keys := hissued.keys.trans htrails.keys
  index := hissued.index
  parked l'' hl'' hparked := by
    rcases hissued.parked l'' hl'' hparked with ⟨hquiet, l', hl', hbefore, hkey, hsame⟩ | hasked
    · left
      obtain ⟨l, hl, hfollows⟩ := htrails.lane l' hl'
      obtain ⟨hfirst, hsame'⟩ := hfollows.parked hbefore
      exact ⟨hquiet, l, hl, hfirst, hfollows.key.symm.trans hkey, hsame'.symm.trans hsame⟩
    · exact Or.inr hasked
  held hbefore := hissued.held (hheld hbefore)
  admitted := hissued.admitted

theorem failRename_follows (env : Env) (slots : List Slot) :
    Trails (slots.map Prod.fst) ((ReplayLanes.failRename env slots).map Prod.fst) ∧
      ∀ frames, Held frames (slots.map Prod.fst) →
        Held frames ((ReplayLanes.failRename env slots).map Prod.fst) := by
  have hone : ∀ s : Slot, Follows s.1
      (if s.2 && env.renameFails then ({ s.1 with active := false }, true) else s : Slot).1 ∧
      (if s.2 && env.renameFails then ({ s.1 with active := false }, true) else s : Slot
        ).1.reconvergenceBlocked = s.1.reconvergenceBlocked := by
    intro s
    split_ifs
    · exact ⟨.ended rfl id rfl, rfl⟩
    · exact ⟨.refl s.1, rfl⟩
  have hslots : Forall₂ (fun s s' : Slot => Follows s.1 s'.1 ∧
      s'.1.reconvergenceBlocked = s.1.reconvergenceBlocked) slots
      (ReplayLanes.failRename env slots) := Pointwise.forall₂_map fun s _ => hone s
  constructor
  · apply Trails.of_forall₂
    rw [forall₂_map_left_iff, forall₂_map_right_iff]
    exact hslots.imp fun s s' hs => hs.1
  · intro frames hbefore
    apply hbefore.calm
    intro l' hl'
    obtain ⟨s', hs', rfl⟩ := mem_map.mp hl'
    obtain ⟨s, hs, hfollows, hblocked⟩ := Pointwise.exists_left hslots hs'
    refine ⟨s.1, mem_map_of_mem hs, hfollows.key, hfollows.active, ?_⟩
    rw [hblocked]
    exact id

/-- The frames after the generation's state was replaced. -/
theorem frames_update (context : Nat → Reconvergence) (g : Nat) (s : Reconvergence) :
    (fun g' => (update context g s g').stack)
      = update (fun g' => (context g').stack) g s.stack := by
  funext g'
  by_cases hg : g' = g
  · subst hg
    rw [update_self, update_self]
  · rw [update_of_ne hg, update_of_ne hg]

/-- `executeChunk` with the branch behind it. -/
def finishChunk (c : ReplayLanes.Config) (env : Env) (g : Nat) (h : Helper) (s : Reconvergence)
    (slots : List Slot) (fates : List Fate) (overflow : Bool) : Helper × ReplayLanes.Report :=
  let done := ReplayLanes.executeSlots c env (ReplayLanes.failRename env slots) h.regs h.readyAt
  let lanes := ReplayLanes.retireTerminatedLanes done.lanes
  ({ replayLanes := lanes
     context := update h.context g (ReplayLanes.refreshCurrentGroup lanes g s)
     regs := done.regs
     readyAt := done.readyAt },
    { fates := fates ++ done.fates, overflow })

theorem finishChunk_issued (env : Env) (g : Nat) {s : Reconvergence}
    {slots' : List Slot} (overflow : Bool)
    (hlanes : Issuable c (slots.map Prod.fst))
    (htrails : Trails (slots.map Prod.fst) (slots'.map Prod.fst))
    (hheld : Held h.frames (slots.map Prod.fst) →
      Held (update h.frames g s.stack) (slots'.map Prod.fst))
    (hquiet : ∀ f ∈ fates, isRequest f = false) :
    Issued c { h with replayLanes := slots.map Prod.fst }
      (finishChunk c env g h s slots' fates overflow).1
      (finishChunk c env g h s slots' fates overflow).2.fates := by
  unfold finishChunk
  obtain ⟨hfail, hfail'⟩ := failRename_follows env slots'
  have hready := (hlanes.of_trails htrails).of_trails hfail
  have hloop : Loop c (ReplayLanes.failRename env slots')
      (ReplayLanes.executeSlots c env (ReplayLanes.failRename env slots') h.regs h.readyAt) := by
    apply executeSlots_loop
    have hnodup := hready.nodup
    rw [map_map] at hnodup
    exact hnodup
  generalize ReplayLanes.executeSlots c env (ReplayLanes.failRename env slots') h.regs h.readyAt
    = done at hloop ⊢
  -- every lane left ran, and comes from a lane of the deque
  have hran : ∀ l' ∈ ReplayLanes.retireTerminatedLanes done.lanes, ∃ l ∈ slots.map Prod.fst,
      ∃ l₁ ∈ (ReplayLanes.failRename env slots').map Prod.fst, Follows l l₁ ∧
        Ran c done.fates l₁ l' := by
    intro l' hl'
    obtain ⟨s₁, hs₁, hran⟩ := hloop.ran l' (mem_filter.mp hl').1
    have hl₁ : s₁.1 ∈ (ReplayLanes.failRename env slots').map Prod.fst := mem_map_of_mem hs₁
    obtain ⟨l, hl, hfollows⟩ := (htrails.trans hfail).lane s₁.1 hl₁
    exact ⟨l, hl, s₁.1, hl₁, hfollows, hran⟩
  have hasks : ∀ key, asks (fates ++ done.fates) key = asks done.fates key := by
    intro key
    rw [asks_append, asks_eq_nil, nil_append]
    intro g k pc address hf
    have hno := hquiet _ hf
    cases hno
  constructor
  · have hkeys : done.lanes.map Lane.key
        = ((ReplayLanes.failRename env slots').map Prod.fst).map Lane.key := by
      rw [hloop.keys, map_map]
      rfl
    have hsub := (filter_sublist (p := Lane.active) (l := done.lanes)).map Lane.key
    rw [hkeys] at hsub
    exact hsub.trans (htrails.trans hfail).keys
  · intro l' hl'
    obtain ⟨l, hl, l₁, hl₁, hfollows, hran⟩ := hran l' hl'
    have haccepted := hready.accepted l₁ hl₁
    unfold ReplayLanes.accepts at haccepted
    rw [Bool.and_eq_true, decide_eq_true_iff] at haccepted
    exact hran.index haccepted.2 (hready.index l₁ hl₁)
  · intro l' hl' hparked
    obtain ⟨l, hl, l₁, hl₁, hfollows, hran⟩ := hran l' hl'
    have hgen : l'.gen = l₁.gen := congrArg Prod.fst hran.key
    rw [hasks, hran.key, hgen]
    rcases hran.parked hparked with ⟨hnone, hbefore, hsame⟩ | ⟨hone, hsame, hlt, hcont⟩
    · left
      obtain ⟨hfirst, hsame'⟩ := hfollows.parked hbefore
      exact ⟨hnone, l, hl, hfirst, hfollows.key.symm, hsame'.symm.trans hsame.symm⟩
    · right
      rw [hsame]
      exact ⟨hone, hlt, hcont⟩
  · intro hbefore
    show Held (fun g' => (update h.context g _ g').stack) _
    rw [frames_update, ReplayLanes.refreshCurrentGroup_stack]
    apply (hfail' _ (hheld hbefore)).calm
    intro l' hl'
    obtain ⟨s₁, hs₁, hran⟩ := hloop.ran l' (mem_filter.mp hl').1
    refine ⟨s₁.1, mem_map_of_mem hs₁, hran.key, hran.active, ?_⟩
    rw [hran.blocked]
    exact id
  · intro f hf
    rcases mem_append.mp hf with hf | hf
    · cases f with
      | requested g k pc address =>
        have hno := hquiet _ hf
        cases hno
      | rejected g k pc address => trivial
      | stride g k => trivial
    · exact hloop.admitted f hf

theorem executeChunk_issued (env : Env) (g : Nat) (seed : Lane) (branch : Option Branch)
    (hlanes : Issuable c (slots.map Prod.fst)) :
    Issued c { h with replayLanes := slots.map Prod.fst }
      (ReplayLanes.executeChunk c env g seed branch h slots).1
      (ReplayLanes.executeChunk c env g seed branch h slots).2.fates := by
  have hsame : update h.frames g (h.context g).stack = h.frames := update_eq_self g h.frames
  -- without a commit
  have hnone : Issued c { h with replayLanes := slots.map Prod.fst }
      (finishChunk c env g h (h.context g) slots [] false).1
      (finishChunk c env g h (h.context g) slots [] false).2.fates := by
    apply finishChunk_issued env g false hlanes (.refl _)
    · rw [hsame]
      exact id
    · intro f hf
      cases hf
  cases branch with
  | none => exact hnone
  | some b =>
    by_cases hcomplete : b.complete = true
    · obtain ⟨htrails, hheld, hquiet⟩ := commitBranch_trails (c := c) (g := g)
        (b := b) ((c.template g).uop seed.uopIndex) seed (h.context g) slots
      have hcommit := finishChunk_issued env g
        (ReplayLanes.commitBranch c g ((c.template g).uop seed.uopIndex) b seed (h.context g)
          slots).2.2.2 hlanes htrails (by
            intro hbefore
            apply hheld h.frames
            rw [hsame]
            exact hbefore) hquiet
      unfold ReplayLanes.executeChunk
      dsimp only
      rw [if_pos hcomplete]
      exact hcommit
    · unfold ReplayLanes.executeChunk
      dsimp only
      rw [if_neg hcomplete]
      exact hnone

theorem issueChunk_issued (env : Env) (g : Nat) (seed : Lane)
    (hlanes : Issuable c (slots.map Prod.fst)) :
    Issued c { h with replayLanes := slots.map Prod.fst }
      (ReplayLanes.issueChunk c env g seed h slots).1
      (ReplayLanes.issueChunk c env g seed h slots).2.fates := by
  have hstalled : Issued c { h with replayLanes := slots.map Prod.fst }
      { h with replayLanes := slots.map Prod.fst } [] := (Trails.refl _).issued hlanes id
  unfold ReplayLanes.issueChunk
  dsimp only
  split_ifs
  · exact hstalled
  · exact executeChunk_issued env g seed _ hlanes
  · exact hstalled
  · exact executeChunk_issued env g seed none hlanes
  · exact hstalled

/-- `issueDVRReplayLanes` past the erasure of the lanes that have ended. -/
def issueFrom (c : ReplayLanes.Config) (env : Env) (h : Helper) : Helper × ReplayLanes.Report :=
  match ReplayLanes.chooseContext c env h with
  | none =>
    let slots := ReplayLanes.pickLanes c env h.readyAt (fun _ => false) h.replayLanes none 0
    ({ h with replayLanes := ReplayLanes.retireTerminatedLanes (slots.map Prod.fst) }, {})
  | some g =>
    let h := ReplayLanes.reconverge c g h
    let slots := ReplayLanes.pickChunk c env g h
    match slots.find? Prod.snd with
    | none => ({ h with replayLanes := ReplayLanes.retireTerminatedLanes (slots.map Prod.fst) }, {})
    | some (seed, _) => ReplayLanes.issueChunk c env g seed h slots

/-- The picking loop, and the lanes that it ends retired. -/
theorem pickLanes_issued (env : Env) (member : Lane → Bool) (hlanes : Issuable c h.replayLanes) :
    let slots := ReplayLanes.pickLanes c env h.readyAt member h.replayLanes none 0
    Trails h.replayLanes (slots.map Prod.fst) ∧
      (Held h.frames h.replayLanes → Held h.frames (slots.map Prod.fst)) ∧
      Issued c h { h with replayLanes := ReplayLanes.retireTerminatedLanes (slots.map Prod.fst) }
        [] := by
  intro slots
  have hpick := pickLanes_follows (c := c) env h.readyAt member hlanes.pcs none 0
  have htrails : Trails h.replayLanes (slots.map Prod.fst) := by
    apply Trails.of_forall₂
    rw [forall₂_map_right_iff]
    exact hpick.imp fun l s hs => hs.1
  refine ⟨htrails, fun hbefore => hbefore.picked hpick, ?_⟩
  apply Trails.issued (htrails.trans (Trails.of_filter _ Lane.active)) hlanes
  intro hbefore
  exact (hbefore.picked hpick).filter Lane.active

theorem issueFrom_issued (env : Env) (hlanes : Issuable c h.replayLanes)
    (hpops : ∀ g, ReplayLanes.chooseContext c env h = some g →
      releases g (h.context g).stack h.replayLanes = true) :
    Issued c h (issueFrom c env h).1 (issueFrom c env h).2.fates := by
  unfold issueFrom
  cases hchoose : ReplayLanes.chooseContext c env h with
  | none => exact (pickLanes_issued env (fun _ => false) hlanes).2.2
  | some g =>
    dsimp only
    obtain ⟨htrails, hheld⟩ := reconverge_trails (c := c) (hpops g hchoose)
    have hlanes' := hlanes.of_trails htrails
    generalize ReplayLanes.reconverge c g h = h₁ at htrails hheld hlanes' ⊢
    obtain ⟨hpicked, hpicked', hretired⟩ := pickLanes_issued env
      (ReplayLanes.inCurrentGroup g (h₁.context g)) hlanes'
    unfold ReplayLanes.pickChunk
    generalize ReplayLanes.pickLanes c env h₁.readyAt
      (ReplayLanes.inCurrentGroup g (h₁.context g)) h₁.replayLanes none 0 = slots
      at hpicked hpicked' hretired ⊢
    cases slots.find? Prod.snd with
    | none => exact hretired.after htrails hheld
    | some seed =>
      have hissued := issueChunk_issued env g seed.1 (h := h₁) (hlanes'.of_trails hpicked)
      exact hissued.after (htrails.trans hpicked) fun hbefore => hpicked' (hheld hbefore)

/-- One call of `issueDVRReplayLanes`, where every pop is safe. -/
theorem issueDVRReplayLanes_issued (cfg : Config) (env : Env)
    (hlanes : Issuable cfg.helper h.replayLanes) (hpops : popsSafely cfg env h = true) :
    Issued cfg.helper h (ReplayLanes.issueDVRReplayLanes cfg.helper env h).1
      (ReplayLanes.issueDVRReplayLanes cfg.helper env h).2.fates := by
  have halive := Trails.of_filter h.replayLanes (ReplayLanes.alive cfg.helper)
  unfold ReplayLanes.issueDVRReplayLanes
  by_cases hearly : (!env.capacity || h.replayLanes.isEmpty) = true
  · rw [if_pos hearly]
    exact (Trails.refl _).issued hlanes id
  rw [if_neg hearly]
  by_cases hempty : ((h.replayLanes.filter (ReplayLanes.alive cfg.helper)).isEmpty ||
      !env.readyUops) = true
  · rw [if_pos hempty]
    exact halive.issued hlanes fun hbefore => hbefore.filter _
  rw [if_neg hempty]
  have hfrom := issueFrom_issued (c := cfg.helper) env
    (h := { h with replayLanes := h.replayLanes.filter (ReplayLanes.alive cfg.helper) })
    (hlanes.of_trails halive) (by
      intro g hchoose
      have hcapacity : env.capacity = true := by
        by_contra hfull
        rw [Bool.not_eq_true] at hfull
        exact hearly (by rw [hfull]; rfl)
      have hready : env.readyUops = true := by
        by_contra hno
        rw [Bool.not_eq_true] at hno
        exact hempty (by rw [hno, Bool.not_false, Bool.or_true])
      unfold popsSafely at hpops
      dsimp only at hpops
      rw [hcapacity, hready, hchoose] at hpops
      exact hpops)
  exact hfrom.after halive fun hbefore => hbefore.filter _

end Gem5Dvr.ParkedLanes
