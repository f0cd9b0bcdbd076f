/-
  From the deque to the chunk: arrivals, popped frames, skipped uops.

  None of these phases executes a uop with an effect.  A lane moves on its chain in two ways only:

    * a popped frame puts its lanes at the frame's PC, which is on the chain of each of them;
    * a uop without effect is skipped, and the chain skips it too.

  Where a skip comes to depends on the PC alone (`Leads`), so that ONE lane of the current group
  that has been skipped to a uop tells where all lanes of the group stand.
-/
import Gem5Dvr.ReplayChainInv

namespace Gem5Dvr.ReplayLanes

open List Function

variable {c : Config} {value : RegVal} {row : Fin 32 → RegVal} {log : List Fate} {l : Lane}

/-- The budget of a lane that is far from running out. -/
def Roomy (c : Config) (l : Lane) : Prop :=
  l.helperUops + (c.template l.gen).count + 2 ≤ c.dvrHelperMaxUops

/-! ## Reconverging -/

/-- The live frames of every generation. -/
def Helper.frames (h : Helper) (g : Nat) : List Frame := (h.context g).stack

section reconverge

variable {arrived : List Arrival} {lanes : List Lane} {stack : Nat → List Frame}
  {regs : Rows RegVal} {g : Nat} {frame : Frame} {rest : List Frame}

theorem refreshCurrentGroup_stack (lanes : List Lane) (g : Nat) (s : Reconvergence) :
    (refreshCurrentGroup lanes g s).stack = s.stack := by
  unfold refreshCurrentGroup
  dsimp only
  generalize (if s.currentValid = true then s.currentPC else 0) = preferred_pc
  split_ifs
  · rfl
  · cases lanes.find? (fun l => l.unblocked g && l.lanePC != 0) <;> rfl

/-- The lanes of a popped frame go on at its PC; the frames below do not name them. -/
theorem LaneOk.pop (h : LaneOk c (frame :: rest) row value l) (hactive : l.active = true)
    (hgen : l.gen = g) : LaneOk c rest row value (popLane g frame l) := by
  have hmine : (l.active && l.gen == g) = true := by simp [hactive, hgen]
  obtain ⟨hhead, hrest⟩ := pairwise_cons.mp h.once
  unfold popLane
  rw [if_pos hmine]
  by_cases hmask : frame.mask l.lane = true
  · rw [if_pos hmask]
    refine ⟨(h.frames frame mem_cons_self hmask).2, ?_, fun f hf hf' => ?_, hrest⟩
    · refine h.index.imp_right fun hnone => ?_
      have hno := hnone.2 frame mem_cons_self
      rw [hmask] at hno
      exact Bool.noConfusion hno
    · exact absurd ⟨hmask, hf'⟩ (hhead f hf)
  · rw [if_neg hmask]
    have hindex := h.index.imp_right fun hnone =>
      And.intro hnone.1 fun f hf => hnone.2 f (mem_cons_of_mem frame hf)
    split_ifs
    · exact ⟨h.path, hindex, fun f hf hf' =>
        ⟨rfl, (h.frames f (mem_cons_of_mem frame hf) hf').2⟩, hrest⟩
    · exact ⟨h.path, hindex, fun f hf => h.frames f (mem_cons_of_mem frame hf), hrest⟩

theorem popLane_other (hno : (l.active && l.gen == g) = false) : popLane g frame l = l := by
  unfold popLane
  rw [hno]
  rfl

theorem popLane_key (g : Nat) (frame : Frame) (l : Lane) :
    (popLane g frame l).key = l.key ∧ (popLane g frame l).helperUops = l.helperUops ∧
      (popLane g frame l).active = l.active := by
  unfold popLane
  split_ifs <;> exact ⟨rfl, rfl, rfl⟩

/-- The pop of one frame. -/
theorem Stage.pop (h : Stage c arrived lanes (update stack g (frame :: rest)) regs log) :
    Stage c arrived (lanes.map (popLane g frame)) (update stack g rest) regs log := by
  refine h.of_forall₂ (Pointwise.forall₂_map fun l _ => ⟨(popLane_key g frame l).1, ?_⟩)
    (fun _ hf => hf) (fun g' f hf k hk => ?_) (fun _ _ _ => rfl) h.requested
  · intro value _ hfine
    obtain ⟨hgen, hlane⟩ := Prod.mk.inj (popLane_key g frame l).1
    have hactive' := (popLane_key g frame l).2.2
    refine ⟨fun hactive => ?_, fun hdead => ?_⟩
    · rw [hactive'] at hactive
      have hok := hfine.1 hactive
      by_cases hl : l.gen = g
      · rw [hl, update_self] at hok ⊢
        exact hok.pop hactive hl
      · rw [update_of_ne hl] at hok ⊢
        rw [popLane_other (by simp [hl])]
        exact hok
    · rw [hactive'] at hdead
      rw [hgen, hlane]
      exact hfine.2 hdead
  · by_cases hg : g' = g
    · subst hg
      rw [update_self] at hf
      exact h.masks g' f (by rw [update_self]; exact mem_cons_of_mem frame hf) k hk
    · rw [update_of_ne hg] at hf
      exact h.masks g' f (by rw [update_of_ne hg]; exact hf) k hk

/-- The pop loop. -/
theorem Stage.popFrames {frames : List Frame}
    (h : Stage c arrived lanes (update stack g frames) regs log) (s : Reconvergence) :
    Stage c arrived (popFrames g frames s lanes).2
      (update stack g (popFrames g frames s lanes).1.stack) regs log := by
  induction frames generalizing lanes s with
  | nil => exact h
  | cons frame rest ih =>
    unfold ReplayLanes.popFrames
    split_ifs
    · exact ih h.pop _
    · exact h

theorem roomy_popFrames {frames : List Frame} (s : Reconvergence) (h : ∀ l ∈ lanes, Roomy c l) :
    ∀ l ∈ (popFrames g frames s lanes).2, Roomy c l := by
  induction frames generalizing lanes s with
  | nil => exact h
  | cons frame rest ih =>
    unfold popFrames
    split_ifs
    · refine ih _ fun l' hl' => ?_
      obtain ⟨l, hl, rfl⟩ := mem_map.mp hl'
      obtain ⟨hkey, huops, -⟩ := popLane_key g frame l
      have hgen := (Prod.mk.inj hkey).1
      unfold Roomy
      rw [hgen, huops]
      exact h l hl
    · exact h

theorem frames_setContext (h : Helper) (g : Nat) (s : Reconvergence) :
    (h.setContext g s).frames = update h.frames g s.stack := by
  funext g'
  unfold Helper.frames Helper.setContext
  by_cases hg : g' = g
  · subst hg
    simp
  · simp [hg]

theorem rejoinLane_same (c : Config) (g : Nat) (l : Lane) :
    ∃ d, rejoinLane c g l = { l with simtDivergent := d } := by
  unfold rejoinLane
  split_ifs
  · exact ⟨false, rfl⟩
  · exact ⟨l.simtDivergent, rfl⟩

/-- Whether a lane is divergent is nothing to its chain. -/
theorem Fine.divergent {stack : List Frame} (h : Fine c stack row log value l) (d : Bool) :
    Fine c stack row log value { l with simtDivergent := d } :=
  ⟨fun hactive => ⟨(h.1 hactive).path, (h.1 hactive).index, (h.1 hactive).frames,
    (h.1 hactive).once⟩, h.2⟩

/-- Reconvergence moves lanes of popped frames forward on their chains, and no others. -/
theorem Stage.reconverge {h : Helper}
    (hs : Stage c arrived h.replayLanes h.frames h.regs log) (g : Nat) :
    Stage c arrived (reconverge c g h).replayLanes (reconverge c g h).frames
      (reconverge c g h).regs log := by
  have hstart : Stage c arrived h.replayLanes (update h.frames g
      (refreshCurrentGroup h.replayLanes g (h.context g)).stack) h.regs log := by
    rw [refreshCurrentGroup_stack]
    have hsame : update h.frames g (h.context g).stack = h.frames := update_eq_self g h.frames
    rw [hsame]
    exact hs
  have hpopped := hstart.popFrames (refreshCurrentGroup h.replayLanes g (h.context g))
  unfold ReplayLanes.reconverge
  dsimp only
  generalize ReplayLanes.popFrames g _ _ h.replayLanes = r at hpopped ⊢
  obtain ⟨s, lanes⟩ := r
  show Stage c arrived (if s.stack.isEmpty = true then lanes.map (rejoinLane c g) else lanes)
    (h.setContext g s).frames h.regs log
  rw [frames_setContext]
  split_ifs
  · refine hpopped.map_lanes fun l _ => ?_
    obtain ⟨d, hd⟩ := rejoinLane_same c g l
    rw [hd]
    exact ⟨rfl, fun value hfine => hfine.divergent d⟩
  · exact hpopped

theorem roomy_reconverge {h : Helper} (g : Nat) (hroom : ∀ l ∈ h.replayLanes, Roomy c l) :
    ∀ l ∈ (reconverge c g h).replayLanes, Roomy c l := by
  have hpopped : ∀ l ∈ (popFrames g (refreshCurrentGroup h.replayLanes g (h.context g)).stack
      (refreshCurrentGroup h.replayLanes g (h.context g)) h.replayLanes).2, Roomy c l :=
    roomy_popFrames _ hroom
  unfold reconverge
  dsimp only
  generalize popFrames g _ _ h.replayLanes = r at hpopped ⊢
  obtain ⟨s, lanes⟩ := r
  split_ifs
  · intro l' hl'
    obtain ⟨l, hl, rfl⟩ := mem_map.mp hl'
    obtain ⟨d, hd⟩ := rejoinLane_same c g l
    rw [hd]
    exact hpopped l hl
  · exact hpopped

end reconverge

/-! ## Arrivals -/

section enqueue

variable {arrived : List Arrival}

theorem Rows.set_same {α : Type} (rows : Rows α) (g : Nat) (k : Fin 128) (r : Fin 32) (v : α) :
    rows.set g k r v g k = update (rows g k) r v := by
  funext r'
  unfold Rows.set
  by_cases hr : r' = r
  · subst hr
    simp
  · simp [hr]

theorem Rows.set_other {α : Type} (rows : Rows α) {g g' : Nat} {k k' : Fin 128} (r : Fin 32) (v : α)
    (h : ¬ (g' = g ∧ k' = k)) : rows.set g k r v g' k' = rows g' k' := by
  funext r'
  unfold Rows.set
  rw [if_neg fun hall => h ⟨hall.1, hall.2.1⟩]

theorem frames_join (h : Helper) (g : Nat) (k : Fin 128) (pc : Addr) :
    (fun g' => (update h.context g ((h.context g).join k pc) g').stack) = h.frames := by
  funext g'
  have hjoin : ((h.context g).join k pc).stack = (h.context g).stack := by
    unfold Reconvergence.join
    dsimp only
    split_ifs <;> rfl
  by_cases hg : g' = g
  · subst hg
    rw [update_self]
    exact hjoin
  · rw [update_of_ne hg]
    rfl

/-- A lane that arrives stands at the origin of its chain, and no live frame names it. -/
theorem LaneOk.arrive {p : Template} {stack : List Frame} {r : Fin 32} {a : Arrival}
    (hp : c.template a.gen = p) (hr : p.triggerDestination = some r) (hcount : 1 < p.count)
    (hmask : ∀ f ∈ stack, f.mask a.lane = false) :
    LaneOk c stack (update p.initialRegs r a.value) a.value
      { gen := a.gen, lane := a.lane, lanePC := (p.uop 1).pc } where
  path := by
    refine ⟨0, ?_⟩
    show Chain.origin (c.template a.gen) a.value = _
    rw [hp]
    unfold Chain.origin
    rw [hr]
  index := .inl (by show 1 < (c.template a.gen).count; rw [hp]; exact hcount)
  frames f hf hf' := by
    rw [show f.mask a.lane = false from hmask f hf] at hf'
    exact Bool.noConfusion hf'
  once := pairwise_of_forall_mem_list fun f hf _ _ hboth => by
    rw [show f.mask a.lane = false from hmask f hf] at hboth
    exact Bool.noConfusion hboth.1

theorem Stage.enqueue {h : Helper} (hs : Stage c arrived h.replayLanes h.frames h.regs log)
    {a : Arrival} (hnew : ∀ value, ⟨a.gen, a.lane, value⟩ ∉ arrived) :
    Stage c (if accepts c a.gen = true then a :: arrived else arrived)
      (enqueueReplayLane c h a.gen a.lane a.value).replayLanes
      (enqueueReplayLane c h a.gen a.lane a.value).frames
      (enqueueReplayLane c h a.gen a.lane a.value).regs log := by
  unfold enqueueReplayLane accepts
  dsimp only
  cases hr : (c.template a.gen).triggerDestination with
  | none =>
    exact hs
  | some r =>
    dsimp only
    by_cases hcount : (c.template a.gen).count ≤ 1
    · rw [if_pos hcount, if_neg (by simp [hcount])]
      exact hs
    rw [if_neg hcount, if_pos (by simpa using hcount)]
    have hframes : Helper.frames
        { replayLanes := h.replayLanes ++
            [{ gen := a.gen, lane := a.lane, lanePC := ((c.template a.gen).uop 1).pc }]
          context := if ((c.template a.gen).uop 1).pc = 0 then h.context
            else update h.context a.gen
              ((h.context a.gen).join a.lane ((c.template a.gen).uop 1).pc)
          regs := h.regs.set a.gen a.lane r a.value
          readyAt := h.readyAt.set a.gen a.lane r 0 } = h.frames := by
      unfold Helper.frames
      split_ifs
      · rfl
      · exact frames_join h a.gen a.lane _
    rw [hframes]
    dsimp only
    have hfresh : ∀ l ∈ h.replayLanes, ¬ (l.gen = a.gen ∧ l.lane = a.lane) := by
      rintro l hl ⟨hgen, hlane⟩
      obtain ⟨value, harr, -⟩ := hs.fine l hl
      rw [hgen, hlane] at harr
      exact hnew value harr
    have hmask : ∀ f ∈ h.frames a.gen, f.mask a.lane = false := by
      intro f hf
      by_contra hyes
      rw [Bool.not_eq_false] at hyes
      obtain ⟨value, harr⟩ := hs.masks a.gen f hf a.lane hyes
      exact hnew value harr
    have hrow : h.regs.set a.gen a.lane r a.value a.gen a.lane =
        update (c.template a.gen).initialRegs r a.value := by
      rw [Rows.set_same, hs.rows a.gen a.lane hnew]
    constructor
    · rw [map_append, nodup_append]
      refine ⟨hs.keys, nodup_singleton _, ?_⟩
      rintro key hkey _ hlast rfl
      obtain ⟨l, hl, rfl⟩ := mem_map.mp hkey
      exact hfresh l hl (Prod.mk.inj (mem_singleton.mp hlast))
    · intro l hl
      rcases mem_append.mp hl with hold | hlast
      · obtain ⟨value, harr, hfine⟩ := hs.fine l hold
        refine ⟨value, mem_cons_of_mem a harr, ?_⟩
        rw [Rows.set_other _ r a.value (hfresh l hold)]
        exact hfine
      · rw [mem_singleton.mp hlast]
        refine ⟨a.value, mem_cons_self, ?_⟩
        rw [hrow]
        exact ⟨fun _ => .arrive rfl hr (by omega) hmask, fun h => Bool.noConfusion h⟩
    · intro a' ha' hno
      rcases mem_cons.mp ha' with rfl | hold
      · exact absurd rfl (hno _ (mem_append_right _ mem_cons_self))
      · exact hs.gone a' hold fun l hl => hno l (mem_append_left _ hl)
    · intro g f hf k hk
      obtain ⟨value, harr⟩ := hs.masks g f hf k hk
      exact ⟨value, mem_cons_of_mem a harr⟩
    · intro g k hno
      rw [Rows.set_other _ r a.value]
      · exact hs.rows g k fun value harr => hno value (mem_cons_of_mem a harr)
      · rintro ⟨rfl, rfl⟩
        exact hno a.value mem_cons_self
    · intro g k pc address hreq
      obtain ⟨value, harr, hload⟩ := hs.requested g k pc address hreq
      exact ⟨value, mem_cons_of_mem a harr, hload⟩

end enqueue

/-! ## Skipping -/

/-- A chain that stands at `pc` comes to `pc'` without a change of its registers. -/
def Leads (p : Template) (pc pc' : Addr) : Prop :=
  ∀ value row, Reaches p value (.run pc row) → Reaches p value (.run pc' row)

/-- The lane `l`, at the uop `index`, after its skips: at the uop `index'`, or ended. -/
structure Skipped (p : Template) (index : Nat) (l : Lane) (index' : Nat) (l' : Lane) : Prop where
  key : l'.key = l.key
  blocked : l'.reconvergenceBlocked = l.reconvergenceBlocked
  uops : l'.helperUops ≤ l.helperUops + (p.count - index)
  there : l'.active = true → Leads p l.lanePC l'.lanePC ∧ p.findPC l'.lanePC = some index' ∧
    (p.uop index').stateless = false
  gone : l'.active = false →
    ∀ value row, Reaches p value (.run l.lanePC row) → Reaches p value .ended

theorem Chain.uop_stateless {p : Template} {index : Nat} (h : (p.uop index).stateless = true)
    (row : Fin 32 → RegVal) : Chain.uop p index row = .run (p.successor index) row := by
  simp [Chain.uop, h]

/-- `skipStateless` skips what the chain skips. -/
theorem skipStateless_spec {p : Template} (hskips : p.SkipsByPC) (fuel : Nat) {index : Nat}
    {l : Lane} (hf : p.findPC l.lanePC = some index) (hfuel : p.count ≤ index + fuel)
    (hroom : l.helperUops + (p.count - index) < c.dvrHelperMaxUops) (hactive : l.active = true) :
    Skipped p index l (skipStateless c p fuel index l).1 (skipStateless c p fuel index l).2 := by
  induction fuel generalizing index l with
  | zero =>
    have hbound := (findPC_bounds hf).2.1
    omega
  | succ fuel ih =>
    obtain ⟨hone, hbound, -, -⟩ := findPC_bounds hf
    unfold skipStateless
    by_cases hst : index < p.count ∧ (p.uop index).stateless = true
    · rw [if_pos hst]
      have hmove : ∀ value row, Reaches p value (.run l.lanePC row) →
          Reaches p value (.run (p.successor index) row) := by
        intro value row hr
        rw [← Chain.uop_stateless hst.2]
        exact hr.uop hf
      dsimp only
      split_ifs with hend
      · -- the last uop of the template
        refine ⟨rfl, rfl, ?_, fun h => Bool.noConfusion h, fun _ value row hr => ?_⟩
        · show l.helperUops + 1 ≤ _
          omega
        · have hzero : p.successor index = 0 := by
            unfold Template.successor
            rw [if_neg (by omega)]
          have hr' := hmove value row hr
          rw [hzero] at hr'
          exact hr'.ended (findPC_zero p)
      · have hnext : index + 1 < p.count := by omega
        have hsucc : p.successor index = (p.uop (index + 1)).pc := by
          unfold Template.successor
          rw [if_pos hnext]
        have hfound : p.findPC (Lane.lanePC
            { l with helperUops := l.helperUops + 1, lanePC := (p.uop (index + 1)).pc }) =
              some (index + 1) := hskips index hone hnext hst.2
        have hrest := ih hfound (by omega) (by show l.helperUops + 1 + _ < _; omega) hactive
        rw [hsucc] at hmove
        refine ⟨hrest.key, hrest.blocked, ?_, fun h => ?_, fun h value row hr => ?_⟩
        · have huops := hrest.uops
          change _ ≤ l.helperUops + 1 + _ at huops
          omega
        · obtain ⟨hleads, hthere⟩ := hrest.there h
          exact ⟨fun value row hr => hleads value row (hmove value row hr), hthere⟩
        · exact hrest.gone h value row (hmove value row hr)
    · rw [if_neg hst]
      have hno : (p.uop index).stateless = false := by
        rw [← Bool.not_eq_true]
        exact fun h => hst ⟨hbound, h⟩
      refine ⟨rfl, rfl, Nat.le_add_right _ _, fun _ => ⟨fun _ _ hr => hr, hf, hno⟩, fun h => ?_⟩
      rw [hactive] at h
      exact Bool.noConfusion h

/-! ## Picking -/

/-- What picking does to a lane; the flag says that the lane is in the chunk. -/
structure Picked (c : Config) (member : Lane → Bool) (l : Lane) (s : Slot) : Prop where
  key : s.1.key = l.key
  blocked : s.1.reconvergenceBlocked = l.reconvergenceBlocked
  uops : s.1.helperUops + 2 ≤ c.dvrHelperMaxUops
  fine : ∀ stack row log value, Fine c stack row log value l → Fine c stack row log value s.1
  chosen : s.2 = true → s.1.active = true ∧ member l = true ∧
    s.1.helperUops + 3 ≤ c.dvrHelperMaxUops ∧
    Leads (c.template s.1.gen) l.lanePC s.1.lanePC ∧
    (c.template s.1.gen).findPC s.1.lanePC = some s.1.uopIndex ∧
    ((c.template s.1.gen).uop s.1.uopIndex).stateless = false

theorem Picked.refl (member : Lane → Bool) (hroom : Roomy c l) : Picked c member l (l, false) :=
  ⟨rfl, rfl, by unfold Roomy at hroom; show l.helperUops + 2 ≤ _; omega, fun _ _ _ _ h => h,
    fun h => Bool.noConfusion h⟩

theorem Picked.drop {member : Lane → Bool} {l' : Lane} {there : Bool}
    (h : Picked c member l (l', there)) : Picked c member l (l', false) :=
  ⟨h.key, h.blocked, h.uops, h.fine, fun h => Bool.noConfusion h⟩

/-- A lane on its way into the chunk stays on its chain. -/
theorem approach_spec {member : Lane → Bool} (hskips : ∀ g, (c.template g).SkipsByPC)
    (hmember : ∀ l, member l = true → l.reconvergenceBlocked = false) (hroom : Roomy c l) :
    Picked c member l (approach c member l) := by
  unfold approach
  by_cases hgone : (!l.active || decide ((c.template l.gen).count ≤ l.uopIndex)) = true
  · rw [if_pos hgone]
    exact .refl member hroom
  rw [if_neg hgone]
  have hactive : l.active = true := by
    simp only [Bool.or_eq_true, Bool.not_eq_true', decide_eq_true_eq, not_or,
      Bool.not_eq_false] at hgone
    exact hgone.1
  rw [if_neg (by unfold Roomy at hroom; omega)]
  by_cases hmem : member l = true
  · rw [if_neg (by rw [hmem]; exact Bool.false_ne_true)]
    unfold Roomy at hroom
    dsimp only
    cases hf : (c.template l.gen).findPC l.lanePC with
    | none =>
      -- the PC is outside of the template
      refine ⟨rfl, rfl, by show l.helperUops + 2 ≤ _; omega, fun _ _ _ _ hfine => ?_,
        fun h => Bool.noConfusion h⟩
      exact ⟨fun h => Bool.noConfusion h, fun _ => .of_ended ((hfine.1 hactive).path.ended hf)⟩
    | some index =>
      obtain ⟨hone, hbound, -, -⟩ := findPC_bounds hf
      have hskip := skipStateless_spec (hskips l.gen) (c.template l.gen).count hf (by omega)
        (by omega : _ < c.dvrHelperMaxUops) hactive
      dsimp only
      generalize skipStateless c (c.template l.gen) (c.template l.gen).count index l = s at hskip ⊢
      obtain ⟨index', l'⟩ := s
      dsimp only at hskip ⊢
      have huops := hskip.uops
      obtain ⟨hgen, hlane⟩ := Prod.mk.inj hskip.key
      cases hstill : l'.active with
      | true =>
        obtain ⟨hleads, hfound, hstate⟩ := hskip.there hstill
        rw [← hgen] at hleads hfound hstate
        refine ⟨hskip.key, hskip.blocked, by show l'.helperUops + 2 ≤ _; omega,
          fun stack row log value hfine => ⟨fun _ => ?_, fun h => absurd h (by simp)⟩,
          fun _ => ⟨rfl, hmem, by show l'.helperUops + 3 ≤ _; omega, hleads, hfound, hstate⟩⟩
        have hok := hfine.1 hactive
        rw [hgen] at hleads hfound
        exact hok.move (hmember l hmem) hgen hlane (hleads value row hok.path)
          (.inl (findPC_bounds hfound).2.1)
      | false =>
        refine ⟨hskip.key, hskip.blocked, by show l'.helperUops + 2 ≤ _; omega,
          fun stack row log value hfine => ⟨fun h => absurd h (by simp [hstill]), fun _ => ?_⟩,
          fun h => Bool.noConfusion h⟩
        show Over c log l'.gen l'.lane value
        rw [hgen, hlane]
        exact .of_ended (hskip.gone hstill value row (hfine.1 hactive).path)
  · rw [if_pos (by rw [Bool.not_eq_true] at hmem; rw [hmem]; rfl)]
    exact .refl member (by unfold Roomy; exact hroom)

variable {env : Env} {readyAt : Rows Nat} {member : Lane → Bool} {lanes : List Lane}

/-- Every lane of the deque, picked or not, stays on its chain. -/
theorem pickLanes_spec (hskips : ∀ g, (c.template g).SkipsByPC)
    (hmember : ∀ l, member l = true → l.reconvergenceBlocked = false)
    (hroom : ∀ l ∈ lanes, Roomy c l) (seed : Option Lane) (size : Nat) :
    Forall₂ (Picked c member) lanes (pickLanes c env readyAt member lanes seed size) := by
  induction lanes generalizing seed size with
  | nil => exact .nil
  | cons l rest ih =>
    have hl := hroom l mem_cons_self
    have hrest := ih fun l' hl' => hroom l' (mem_cons_of_mem l hl')
    have happroach := approach_spec hskips hmember hl
    unfold pickLanes
    split_ifs with hfull
    · exact .cons (.refl member hl) (hrest seed size)
    · dsimp only
      generalize approach c member l = s at happroach ⊢
      obtain ⟨l', there⟩ := s
      split_ifs with hpick
      · simp only [Bool.and_eq_true] at hpick
        have hthere : there = true := hpick.1.1.1
        rw [hthere] at happroach
        exact .cons happroach (hrest _ _)
      · exact .cons happroach.drop (hrest seed size)

/-- The chunk is at one uop: the seed's. -/
theorem pickLanes_fits (lanes : List Lane) (seed : Option Lane) (size : Nat) {s : Slot}
    (hs : s ∈ pickLanes c env readyAt member lanes seed size) (hpicked : s.2 = true) :
    (∀ x, seed = some x → s.1.uopIndex = x.uopIndex) ∧
      (seed = none → ∀ x, (pickLanes c env readyAt member lanes seed size).find? Prod.snd = some x →
        s.1.uopIndex = x.1.uopIndex) := by
  induction lanes generalizing seed size with
  | nil => cases hs
  | cons l rest ih =>
    unfold pickLanes at hs ⊢
    split_ifs at hs ⊢ with hfull
    · rcases mem_cons.mp hs with rfl | hs
      · exact Bool.noConfusion hpicked
      · rw [find?_cons_of_neg Bool.false_ne_true]
        exact ih seed size hs
    · dsimp only at hs ⊢
      generalize approach c member l = a at hs ⊢
      obtain ⟨l', there⟩ := a
      split_ifs at hs ⊢ with hpick
      · -- the rest of the chunk goes with the seed, which is this lane if there was none
        have hfits : fits l' seed = true := by
          rw [Bool.and_eq_true] at hpick
          exact hpick.2
        have hsame : l'.uopIndex = (seed.getD l').uopIndex := by
          cases seed with
          | none => rfl
          | some x =>
            simp only [fits, Bool.and_eq_true, beq_iff_eq] at hfits
            exact hfits.1.2
        have hall : s.1.uopIndex = (seed.getD l').uopIndex := by
          rcases mem_cons.mp hs with rfl | hs
          · exact hsame
          · exact (ih (some (seed.getD l')) (size + 1) hs).1 _ rfl
        refine ⟨?_, ?_⟩
        · rintro x rfl
          exact hall
        · rintro rfl x hx
          rw [← Option.some.inj hx]
          exact hall
      · rcases mem_cons.mp hs with rfl | hs
        · exact Bool.noConfusion hpicked
        · rw [find?_cons_of_neg Bool.false_ne_true]
          exact ih seed size hs

end Gem5Dvr.ReplayLanes
