/-
  A branch on the whole current group: evaluation, commit, split.

  The outcomes are computed for every lane of the group, by lane number (`Outcomes`).  What is then
  done with them differs from lane to lane:

    * the commit loop moves lanes to their next PCs, but not all of them: it compares with the
      `uopIndex` of the seed, which it changes when it comes to the seed;
    * the split defers the lanes of the other paths, the ones the commit loop has passed over too.

  Both are sound: a lane that was passed over stays at the branch, and if it is deferred the frame
  has its next PC.
-/
import Gem5Dvr.ReplayChainPick

namespace Gem5Dvr.ReplayLanes

open List Function

variable {c : Config} {value : RegVal} {row : Fin 32 → RegVal} {log : List Fate} {l : Lane}

section branch

variable {arrived : List Arrival} {lanes : List Lane} {slots : List Slot}
  {stack : Nat → List Frame} {regs : Rows RegVal} {g i : Nat} {b : Branch}

/-! ## Outcomes -/

/-- The next PCs of the branch at `i` are on the chains of its lanes. -/
structure Outcomes (c : Config) (arrived : List Arrival) (regs : Rows RegVal) (g i : Nat)
    (lanes : List Lane) (b : Branch) : Prop where
  next : ∀ l ∈ lanes, l.gen = g → ∀ path, b.nextPC l.lane = some path →
    (l.active = true ∧ l.reconvergenceBlocked = false ∧ l.uopIndex = i) ∧
      ∀ value, ⟨g, l.lane, value⟩ ∈ arrived →
        Reaches (c.template g) value (.run path (regs g l.lane))
  here : ∀ k path, b.nextPC k = some path → ∃ value, ⟨g, k, value⟩ ∈ arrived

/-- A branch on a chain. -/
theorem Chain.uop_conditional {p : Template} {index : Nat}
    (hstate : (p.uop index).stateless = false) (hcond : (p.uop index).conditional = true)
    {next : Addr} (hnext : branchNext (p.uop index) row = some next) :
    Chain.uop p index row = .run next row := by
  simp [Chain.uop, hstate, hcond, hnext]

variable {op : Uop} {path : Addr} {s : Reconvergence} {frames : List Frame} {fates : List Fate}
    {s' : Slot} {paths : List Addr}

theorem nextPC_evaluated {group : List Lane} {k : Fin 128}
    (h : (evaluateBranchGroup op regs group).nextPC k = some path) :
    ∃ l ∈ group, l.lane = k ∧ branchNext op (regs l.gen l.lane) = some path := by
  have hmem := mem_of_getLast? h
  obtain ⟨l, hl, hnext⟩ := mem_filterMap.mp hmem
  obtain ⟨hgroup, hlane⟩ := mem_filter.mp hl
  exact ⟨l, hgroup, by simpa using hlane, hnext⟩

theorem mem_unique (h : (lanes.map Lane.key).Nodup) {l l' : Lane} (hl : l ∈ lanes)
    (hl' : l' ∈ lanes) (hgen : l.gen = l'.gen) (hlane : l.lane = l'.lane) : l = l' :=
  inj_on_of_nodup_map h hl hl' (Prod.ext hgen hlane)

/-- The lanes of the current group are evaluated at the uop that the seed was skipped to. -/
theorem Stage.outcomes (h : Stage c arrived lanes stack regs log)
    (harr : (arrived.map Arrival.key).Nodup) {pc : Addr}
    (hleads : Leads (c.template g) s.currentPC pc) (hf : (c.template g).findPC pc = some i)
    (hstate : ((c.template g).uop i).stateless = false)
    (hcond : ((c.template g).uop i).conditional = true) {group : List Lane}
    (hgroup : group = lanes.filter fun l => inCurrentGroup g s l && l.uopIndex == i) :
    Outcomes c arrived regs g i lanes (evaluateBranchGroup ((c.template g).uop i) regs group) := by
  have hmember : ∀ l ∈ group, l ∈ lanes ∧ l.gen = g ∧ l.active = true ∧
      l.reconvergenceBlocked = false ∧ l.lanePC = s.currentPC ∧ l.uopIndex = i := by
    intro l hl
    rw [hgroup] at hl
    simp only [mem_filter, inCurrentGroup, Lane.unblocked, Bool.and_eq_true, beq_iff_eq,
      Bool.not_eq_true'] at hl
    obtain ⟨hl, ⟨⟨⟨-, ⟨hactive, hgen⟩, hblocked⟩, hpc⟩, -⟩, hindex⟩ := hl
    exact ⟨hl, hgen, hactive, hblocked, hpc, hindex⟩
  constructor
  · intro l hl hgen path hpath
    obtain ⟨l', hl', hlane, hnext⟩ := nextPC_evaluated hpath
    obtain ⟨hmem, hgen', hactive, hblocked, hpc, hindex⟩ := hmember l' hl'
    have hsame : l = l' := mem_unique h.keys hl hmem (hgen.trans hgen'.symm) hlane.symm
    subst hsame
    refine ⟨⟨hactive, hblocked, hindex⟩, fun value hvalue => ?_⟩
    obtain ⟨value', harrived, hfine⟩ := h.fine l hl
    have heq : (⟨l.gen, l.lane, value'⟩ : Arrival) = ⟨g, l.lane, value⟩ :=
      inj_on_of_nodup_map harr harrived hvalue (by rw [hgen]; rfl)
    have hval : value' = value := (Arrival.mk.inj heq).2.2
    have hpathok := (hfine.1 hactive).path
    rw [hgen, hval, hpc] at hpathok
    rw [hgen] at hnext
    rw [← Chain.uop_conditional hstate hcond hnext]
    exact (hleads value _ hpathok).uop hf
  · intro k path hpath
    obtain ⟨l, hl, rfl, -⟩ := nextPC_evaluated hpath
    obtain ⟨hmem, hgen, -⟩ := hmember l hl
    obtain ⟨value, harrived, -⟩ := h.fine l hmem
    rw [hgen] at harrived
    exact ⟨value, harrived⟩

/-! ## Commit -/

/-- What commit and split do to a lane, as far as its execution is concerned: it keeps its uop, or
    it has gone to the uop of its PC. -/
structure Branched (c : Config) (s s' : Slot) : Prop where
  key : s'.1.key = s.1.key
  chosen : s'.2 = s.2
  uops : s'.1.helperUops ≤ s.1.helperUops + 1
  index : s'.1.uopIndex = s.1.uopIndex ∨ (s'.1.active = true ∧
    (c.template s'.1.gen).findPC s'.1.lanePC = some s'.1.uopIndex)

theorem Branched.refl (c : Config) (s : Slot) : Branched c s s :=
  ⟨rfl, rfl, Nat.le_add_right _ _, .inl rfl⟩

theorem commitLane_branched (c : Config) (op : Uop) (groups : Nat) (next_pc : Addr) (s : Slot)
    (hroom : s.1.helperUops + 2 ≤ c.dvrHelperMaxUops) :
    Branched c s ((commitLane c op groups next_pc s.1).1, s.2) := by
  unfold commitLane
  dsimp only
  split_ifs with hzero hstride
  · exact ⟨rfl, rfl, Nat.le_refl _, .inl rfl⟩
  · exact ⟨rfl, rfl, Nat.le_refl _, .inl rfl⟩
  · cases hf : (c.template s.1.gen).findPC next_pc with
    | none => exact ⟨rfl, rfl, Nat.le_refl _, .inl rfl⟩
    | some next_index =>
      refine ⟨rfl, rfl, Nat.le_refl _, .inr ⟨?_, hf⟩⟩
      exact decide_eq_true (by omega)

/-- A commit ends a lane or goes on with it; it does not block it. -/
theorem commitLane_frame (c : Config) (op : Uop) (groups : Nat) (next_pc : Addr) (l : Lane) :
    (commitLane c op groups next_pc l).1.reconvergenceBlocked = l.reconvergenceBlocked ∧
      ∀ f, (commitLane c op groups next_pc l).2 = some f → f = .stride l.gen l.lane := by
  unfold commitLane
  dsimp only
  split_ifs
  · exact ⟨rfl, by simp⟩
  · exact ⟨rfl, fun f hf => (Option.some.inj hf).symm⟩
  · cases (c.template l.gen).findPC next_pc <;> exact ⟨rfl, by simp⟩

/-- A committed lane is at its next PC, or its chain is over, or it has come to the stride PC. -/
theorem commitLane_fine {groups : Nat} {next_pc : Addr}
    {log' : List Fate} (hfine : Fine c frames row log value l) (hactive : l.active = true)
    (hb : l.reconvergenceBlocked = false) (hroom : l.helperUops + 2 ≤ c.dvrHelperMaxUops)
    (hcont : (c.template l.gen).continuePastFLR = false)
    (hnext : Reaches (c.template l.gen) value (.run next_pc row))
    (hlog : ∀ f, (commitLane c op groups next_pc l).2 = some f → f ∈ log') :
    Fine c frames row log' value (commitLane c op groups next_pc l).1 := by
  have hok := hfine.1 hactive
  unfold commitLane at hlog ⊢
  dsimp only at hlog ⊢
  split_ifs at hlog ⊢ with hzero hstride
  · refine ⟨fun h => Bool.noConfusion h, fun _ => .of_ended ?_⟩
    rw [hzero] at hnext
    exact hnext.ended (findPC_zero _)
  · -- without continuation the lane ends only AT the stride PC
    refine ⟨fun h => Bool.noConfusion h, fun _ => .inr ⟨hlog _ rfl, row, ?_⟩⟩
    unfold endsAtStride at hstride
    simp only [hcont, Bool.false_and, Bool.or_false, Bool.and_eq_true, beq_iff_eq] at hstride
    rw [← hstride.1]
    exact hnext
  · cases hf : (c.template l.gen).findPC next_pc with
    | none =>
      exact ⟨fun h => Bool.noConfusion h, fun _ => .of_ended (hnext.ended hf)⟩
    | some next_index =>
      refine ⟨fun _ => ?_, fun h => ?_⟩
      · exact hok.move hb rfl rfl hnext (.inl (findPC_bounds hf).2.1)
      · have hlt : l.helperUops + 1 < c.dvrHelperMaxUops := by omega
        exact absurd (decide_eq_true hlt) (by rw [show decide _ = false from h]; simp)

/-- What the commit loop does to one lane: nothing, or its next PC is committed. -/
def Commits (c : Config) (g : Nat) (op : Uop) (b : Branch) (fates : List Fate) (s s' : Slot) : Prop :=
  s' = s ∨ ∃ next, b.nextPC s.1.lane = some next ∧ s.1.gen = g ∧
    s' = ((commitLane c op b.paths.length next s.1).1, s.2) ∧
    ∀ f, (commitLane c op b.paths.length next s.1).2 = some f → f ∈ fates

theorem Commits.mono {fates' : List Fate} {s : Slot}
    (h : Commits c g op b fates s s') (hsub : ∀ f ∈ fates, f ∈ fates') :
    Commits c g op b fates' s s' :=
  h.imp_right fun ⟨next, hnext, hgen, heq, hfates⟩ =>
    ⟨next, hnext, hgen, heq, fun f hf => hsub f (hfates f hf)⟩

/-- Whichever lanes the commit loop passes over, the others are committed. -/
theorem commitLanes_spec (op : Uop) (slots : List Slot) (seedIndex : Nat) (ahead : Bool) :
    Forall₂ (Commits c g op b (commitLanes c g op b slots seedIndex ahead).2) slots
        (commitLanes c g op b slots seedIndex ahead).1 ∧
      ∀ f ∈ (commitLanes c g op b slots seedIndex ahead).2, ∃ g k, f = .stride g k := by
  induction slots generalizing seedIndex ahead with
  | nil => exact ⟨.nil, by simp [commitLanes]⟩
  | cons s rest ih =>
    obtain ⟨l, chosen⟩ := s
    unfold commitLanes
    -- the rest of the loop, with any outcome for this lane
    have hcons : ∀ (l' : Lane) (fate : Option Fate),
        Commits c g op b fate.toList (l, chosen) (l', chosen) →
        (∀ f, fate = some f → f = .stride l.gen l.lane) → ∀ i' ahead',
        Forall₂ (Commits c g op b (fate.toList ++ (commitLanes c g op b rest i' ahead').2))
            ((l, chosen) :: rest) ((l', chosen) :: (commitLanes c g op b rest i' ahead').1) ∧
          ∀ f ∈ fate.toList ++ (commitLanes c g op b rest i' ahead').2, ∃ g k, f = .stride g k := by
      intro l' fate hcommits hstride i' ahead'
      obtain ⟨hrest, hfates⟩ := ih i' ahead'
      refine ⟨.cons (hcommits.mono fun f hf => mem_append_left _ hf)
        (hrest.imp fun s s' h => h.mono fun f hf => mem_append_right _ hf), fun f hf => ?_⟩
      rcases mem_append.mp hf with hmine | hlater
      · exact ⟨_, _, hstride f (Option.mem_toList.mp hmine)⟩
      · exact hfates f hlater
    cases hnext : b.nextPC l.lane with
    | none => exact hcons l none (.inl rfl) (by simp) _ _
    | some next_pc =>
      dsimp only
      by_cases hmine : (l.active && l.gen == g && l.uopIndex == seedIndex) = true
      · rw [if_pos hmine]
        simp only [Bool.and_eq_true, beq_iff_eq] at hmine
        exact hcons _ _
          (.inr ⟨next_pc, hnext, hmine.1.2, rfl, fun f hf => Option.mem_toList.mpr hf⟩)
          (commitLane_frame c op b.paths.length next_pc l).2 _ _
      · rw [if_neg hmine]
        exact hcons l none (.inl rfl) (by simp) _ _

theorem Commits.branched {s : Slot}
    (h : Commits c g op b fates s s') (hroom : s.1.helperUops + 2 ≤ c.dvrHelperMaxUops) :
    Branched c s s' := by
  rcases h with rfl | ⟨next, -, -, rfl, -⟩
  · exact .refl c _
  · exact commitLane_branched c op b.paths.length next s hroom

/-- The commit keeps every lane on its chain. -/
theorem Stage.commit {slots slots' : List Slot}
    (h : Stage c arrived (slots.map Prod.fst) stack regs log)
    (hout : Outcomes c arrived regs g i (slots.map Prod.fst) b)
    (hcont : ∀ g, (c.template g).continuePastFLR = false)
    (hroom : ∀ s ∈ slots, s.1.helperUops + 2 ≤ c.dvrHelperMaxUops)
    (hcommits : Forall₂ (Commits c g op b fates) slots slots')
    (hfates : ∀ f ∈ fates, ∃ g k, f = .stride g k) :
    Stage c arrived (slots'.map Prod.fst) stack regs (log ++ fates) := by
  refine h.of_forall₂ ?_ (fun f hf => mem_append_left _ hf) h.masks (fun _ _ _ => rfl)
    fun g' k pc address hreq => ?_
  · rw [forall₂_map_left_iff, forall₂_map_right_iff]
    refine (Pointwise.with_mem hcommits).imp fun s s' ⟨hs, hone⟩ => ?_
    refine ⟨(hone.branched (hroom s hs)).key, fun value harrived hfine => ?_⟩
    rcases hone with rfl | ⟨next, hnext, hgen, rfl, hmem⟩
    · exact ⟨hfine.1, fun hdead => (hfine.2 hdead).mono fun f hf => mem_append_left _ hf⟩
    · have hl : s.1 ∈ slots.map Prod.fst := mem_map_of_mem hs
      obtain ⟨⟨hactive, hb, -⟩, hreach⟩ := hout.next s.1 hl hgen next hnext
      refine commitLane_fine hfine hactive hb (hroom s hs) (hcont _) ?_
        fun f hf => mem_append_right _ (hmem f hf)
      rw [hgen] at harrived ⊢
      exact hreach value harrived
  · rcases mem_append.mp hreq with hold | hnew
    · exact h.requested g' k pc address hold
    · obtain ⟨g'', k', heq⟩ := hfates _ hnew
      exact Fate.noConfusion heq

/-! ## Split -/

/-- The lanes of these paths may be deferred: the path is on their chains and no frame names
    them yet. -/
def Deferrable (c : Config) (arrived : List Arrival) (regs : Rows RegVal) (g : Nat)
    (frames : List Frame) (b : Branch) (paths : List Addr) (lanes : List Lane) : Prop :=
  ∀ path ∈ paths, ∀ l ∈ lanes, l.gen = g → l.active = true → b.nextPC l.lane = some path →
    l.uopIndex < (c.template g).count ∧ (∀ f ∈ frames, f.mask l.lane = false) ∧
      ∀ value, ⟨g, l.lane, value⟩ ∈ arrived →
        Reaches (c.template g) value (.run path (regs g l.lane))

theorem Stage.deferrable {slots slots' : List Slot}
    (h : Stage c arrived (slots.map Prod.fst) stack regs log)
    (hout : Outcomes c arrived regs g i (slots.map Prod.fst) b) (hi : i < (c.template g).count)
    (hroom : ∀ s ∈ slots, s.1.helperUops + 2 ≤ c.dvrHelperMaxUops)
    (hcommits : Forall₂ (Commits c g op b fates) slots slots') (paths : List Addr) :
    Deferrable c arrived regs g (stack g) b paths (slots'.map Prod.fst) := by
  intro path _ l' hl' hgen _ hpath
  obtain ⟨s', hs', rfl⟩ := mem_map.mp hl'
  obtain ⟨s, hs, hone⟩ := Pointwise.exists_left hcommits hs'
  have hbranched := hone.branched (hroom s hs)
  obtain ⟨hgen', hlane'⟩ := Prod.mk.inj hbranched.key
  rw [hgen'] at hgen
  rw [hlane'] at hpath ⊢
  have hl : s.1 ∈ slots.map Prod.fst := mem_map_of_mem hs
  obtain ⟨⟨hactive, hb, hindex⟩, hreach⟩ := hout.next s.1 hl hgen path hpath
  obtain ⟨value, -, hfine⟩ := h.fine s.1 hl
  refine ⟨?_, fun f hf => ?_, hreach⟩
  · rcases hbranched.index with hsame | ⟨-, hfound⟩
    · rw [hsame, hindex]
      exact hi
    · rw [hgen', hgen] at hfound
      exact (findPC_bounds hfound).2.1
  · rw [← hgen] at hf
    exact (hfine.1 hactive).mask_false hb hf

theorem Branch.mask_iff {k : Fin 128} (h : b.mask path k = true) : b.nextPC k = some path := by
  unfold Branch.mask at h
  rw [Bool.and_eq_true, beq_iff_eq] at h
  exact h.2

theorem LaneOk.push {frame : Frame} (h : LaneOk c frames row value l)
    (hgen : l.gen = g) (hdefer : frame.mask l.lane = true →
      l.uopIndex < (c.template l.gen).count ∧ (∀ f ∈ frames, f.mask l.lane = false) ∧
        Reaches (c.template l.gen) value (.run frame.pc row)) :
    LaneOk c (frame :: frames) row value (blockLane g frame.mask l) := by
  unfold blockLane
  by_cases hmask : frame.mask l.lane = true
  · rw [if_pos ⟨hgen, hmask⟩]
    obtain ⟨hindex, hfree, hreach⟩ := hdefer hmask
    refine ⟨h.path, .inl hindex, fun f hf hf' => ?_, pairwise_cons.mpr ⟨fun f hf hboth => ?_,
      h.once⟩⟩
    · rcases mem_cons.mp hf with rfl | hold
      · exact ⟨rfl, hreach⟩
      · rw [show f.mask l.lane = false from hfree f hold] at hf'
        exact Bool.noConfusion hf'
    · rw [show f.mask l.lane = false from hfree f hf] at hboth
      exact Bool.noConfusion hboth.2
  · rw [if_neg fun hall => hmask hall.2]
    refine ⟨h.path, h.index.imp_right fun hnone => ⟨hnone.1, fun f hf => ?_⟩, fun f hf hf' => ?_,
      pairwise_cons.mpr ⟨fun f _ hboth => hmask hboth.1, h.once⟩⟩
    · rcases mem_cons.mp hf with rfl | hold
      · exact Bool.eq_false_iff.mpr hmask
      · exact hnone.2 f hold
    · rcases mem_cons.mp hf with rfl | hold
      · exact absurd hf' hmask
      · exact h.frames f hold hf'

theorem blockLane_same (g : Nat) (mask : Fin 128 → Bool) (l : Lane) :
    ∃ blocked, blockLane g mask l = { l with reconvergenceBlocked := blocked } := by
  unfold blockLane
  split_ifs
  · exact ⟨true, rfl⟩
  · exact ⟨l.reconvergenceBlocked, rfl⟩

/-- The push of one frame. -/
theorem Stage.push (reconvergencePC : Addr)
    (h : Stage c arrived lanes (update stack g frames) regs log)
    (hdefer : Deferrable c arrived regs g frames b [path] lanes)
    (hhere : ∀ k path, b.nextPC k = some path → ∃ value, ⟨g, k, value⟩ ∈ arrived) :
    Stage c arrived (lanes.map (blockLane g (b.mask path)))
      (update stack g ({ reconvergencePC, pc := path, mask := b.mask path } :: frames))
      regs log := by
  refine h.of_forall₂ (Pointwise.forall₂_map fun l hl => ?_) (fun _ hf => hf)
    (fun g' f hf k hk => ?_) (fun _ _ _ => rfl) h.requested
  · obtain ⟨blocked, hsame⟩ := blockLane_same g (b.mask path) l
    refine ⟨by rw [hsame]; rfl, fun value harrived hfine => ⟨fun hactive => ?_, fun hdead => ?_⟩⟩
    · have hactive' : l.active = true := by rw [hsame] at hactive; exact hactive
      have hok := hfine.1 hactive'
      by_cases hgen : l.gen = g
      · rw [hgen, update_self] at hok ⊢
        refine hok.push hgen fun hmask => ?_
        obtain ⟨hindex, hfree, hreach⟩ := hdefer path mem_cons_self l hl hgen hactive'
          (Branch.mask_iff hmask)
        rw [hgen] at harrived ⊢
        exact ⟨hindex, hfree, hreach value harrived⟩
      · rw [update_of_ne hgen] at hok ⊢
        unfold blockLane
        rw [if_neg fun hall => hgen hall.1]
        exact hok
    · rw [hsame] at hdead ⊢
      exact hfine.2 hdead
  · by_cases hg : g' = g
    · subst hg
      rw [update_self] at hf
      rcases mem_cons.mp hf with rfl | hold
      · exact hhere k path (Branch.mask_iff hk)
      · exact h.masks g' f (by rw [update_self]; exact hold) k hk
    · rw [update_of_ne hg] at hf
      exact h.masks g' f (by rw [update_of_ne hg]; exact hf) k hk

/-- The lanes of the other paths may still be deferred after a push. -/
theorem Deferrable.push
    (reconvergencePC : Addr) (h : Deferrable c arrived regs g frames b (path :: paths) lanes)
    (hnew : path ∉ paths) :
    Deferrable c arrived regs g ({ reconvergencePC, pc := path, mask := b.mask path } :: frames) b
      paths (lanes.map (blockLane g (b.mask path))) := by
  intro path' hpath' l' hl' hgen hactive hnext
  obtain ⟨l, hl, rfl⟩ := mem_map.mp hl'
  obtain ⟨blocked, hsame⟩ := blockLane_same g (b.mask path) l
  rw [hsame] at hgen hactive hnext ⊢
  obtain ⟨hindex, hfree, hreach⟩ := h path' (mem_cons_of_mem path hpath') l hl hgen hactive hnext
  refine ⟨hindex, fun f hf => ?_, hreach⟩
  rcases mem_cons.mp hf with rfl | hold
  · by_contra hmask
    rw [Bool.not_eq_false] at hmask
    have hboth := Branch.mask_iff hmask
    rw [show b.nextPC l.lane = some path' from hnext] at hboth
    exact hnew (Option.some.inj hboth ▸ hpath')
  · exact hfree f hold

theorem map_onLanes (f : Lane → Lane) (slots : List Slot) :
    (onLanes f slots).map Prod.fst = (slots.map Prod.fst).map f := by
  unfold onLanes
  rw [map_map, map_map]
  rfl

/-- What split and marking do to a lane, as far as its execution is concerned. -/
structure Marked (s s' : Slot) : Prop where
  key : s'.1.key = s.1.key
  chosen : s'.2 = s.2
  uops : s'.1.helperUops = s.1.helperUops
  index : s'.1.uopIndex = s.1.uopIndex
  pc : s'.1.lanePC = s.1.lanePC
  active : s'.1.active = s.1.active

theorem Marked.trans {s s'' : Slot} (h : Marked s s') (h' : Marked s' s'') : Marked s s'' :=
  ⟨h'.key.trans h.key, h'.chosen.trans h.chosen, h'.uops.trans h.uops, h'.index.trans h.index,
    h'.pc.trans h.pc, h'.active.trans h.active⟩

theorem marked_refl (slots : List Slot) : Forall₂ Marked slots slots :=
  forall₂_same.mpr fun _ _ => ⟨rfl, rfl, rfl, rfl, rfl, rfl⟩

theorem marked_block (g : Nat) (mask : Fin 128 → Bool) (slots : List Slot) :
    Forall₂ Marked slots (onLanes (blockLane g mask) slots) := by
  refine Pointwise.forall₂_map fun s _ => ?_
  obtain ⟨blocked, hsame⟩ := blockLane_same g mask s.1
  rw [hsame]
  exact ⟨rfl, rfl, rfl, rfl, rfl, rfl⟩

theorem markDivergent_same (g : Nat) (b : Branch) (l : Lane) :
    ∃ d, markDivergent g b l = { l with simtDivergent := d } := by
  unfold markDivergent
  split_ifs
  · exact ⟨true, rfl⟩
  · exact ⟨l.simtDivergent, rfl⟩

theorem marked_divergent (g : Nat) (b : Branch) (slots : List Slot) :
    Forall₂ Marked slots (onLanes (markDivergent g b) slots) := by
  refine Pointwise.forall₂_map fun s _ => ?_
  obtain ⟨d, hsame⟩ := markDivergent_same g b s.1
  rw [hsame]
  exact ⟨rfl, rfl, rfl, rfl, rfl, rfl⟩

/-- The push loop, when the stack does not overflow. -/
theorem Stage.split (reconvergencePC : Addr) (hnodup : paths.Nodup)
    (h : Stage c arrived (slots.map Prod.fst) (update stack g s.stack) regs log)
    (hdefer : Deferrable c arrived regs g s.stack b paths (slots.map Prod.fst))
    (hhere : ∀ k path, b.nextPC k = some path → ∃ value, ⟨g, k, value⟩ ∈ arrived)
    (hfits : (splitPaths g reconvergencePC b paths s slots).2.2 = false) :
    Stage c arrived ((splitPaths g reconvergencePC b paths s slots).2.1.map Prod.fst)
        (update stack g (splitPaths g reconvergencePC b paths s slots).1.stack) regs log ∧
      Forall₂ Marked slots (splitPaths g reconvergencePC b paths s slots).2.1 := by
  induction paths generalizing s slots with
  | nil => exact ⟨h, marked_refl slots⟩
  | cons path rest ih =>
    obtain ⟨hnew, hrest⟩ := nodup_cons.mp hnodup
    unfold splitPaths at hfits ⊢
    split_ifs at hfits ⊢ with hfull
    have hpushed := h.push reconvergencePC (fun p hp => hdefer p (by
      rw [mem_singleton.mp hp]
      exact mem_cons_self)) hhere
    have hdefer' := hdefer.push reconvergencePC hnew
    rw [← map_onLanes] at hpushed hdefer'
    obtain ⟨hstage, hmarked⟩ := ih hrest hpushed hdefer' hfits
    exact ⟨hstage, Pointwise.trans (marked_block g (b.mask path) slots) hmarked
      fun _ _ _ h h' => h.trans h'⟩

theorem nodup_pushPath (nexts : List Addr) (h : paths.Nodup) :
    (nexts.foldl pushPath paths).Nodup := by
  induction nexts generalizing paths with
  | nil => exact h
  | cons next rest ih =>
    apply ih
    unfold pushPath
    split_ifs with hmem
    · exact h
    · exact nodup_append.mpr ⟨h, nodup_singleton next, by
        rintro a ha _ hb rfl
        exact hmem (mem_singleton.mp hb ▸ ha)⟩

/-- The branch of the group: every lane stays on its chain, and keeps its uop or has gone to the uop
    of its PC. -/
theorem Stage.commitBranch {seed : Lane}
    (h : Stage c arrived (slots.map Prod.fst) stack regs log) (hstack : s.stack = stack g)
    (hout : Outcomes c arrived regs g i (slots.map Prod.fst) b) (hi : i < (c.template g).count)
    (hcont : ∀ g, (c.template g).continuePastFLR = false) (hpaths : b.paths.Nodup)
    (hroom : ∀ s ∈ slots, s.1.helperUops + 2 ≤ c.dvrHelperMaxUops)
    (hfits : (commitBranch c g op b seed s slots).2.2.2 = false) :
    Stage c arrived ((commitBranch c g op b seed s slots).2.1.map Prod.fst)
        (update stack g (commitBranch c g op b seed s slots).1.stack) regs
        (log ++ (commitBranch c g op b seed s slots).2.2.1) ∧
      Forall₂ (Branched c) slots (commitBranch c g op b seed s slots).2.1 := by
  obtain ⟨hcommits, hfates⟩ := commitLanes_spec (c := c) (g := g) (b := b) op slots
    seed.uopIndex true
  unfold ReplayLanes.commitBranch at hfits ⊢
  generalize commitLanes c g op b slots seed.uopIndex true = r at hcommits hfates hfits ⊢
  obtain ⟨slots', fates⟩ := r
  dsimp only at hcommits hfates hfits ⊢
  have hcommitted := h.commit hout hcont hroom hcommits hfates
  have hdefer := h.deferrable hout hi hroom hcommits
  have hbranched : Forall₂ (Branched c) slots slots' :=
    (Pointwise.with_mem hcommits).imp fun s s' hs => hs.2.branched (hroom s hs.1)
  have hsame : update stack g s.stack = stack := by
    rw [hstack, update_eq_self]
  -- marking lanes divergent, or blocking them, keeps them branched
  have hmarked : ∀ {slots''}, Forall₂ Marked slots' slots'' →
      Forall₂ (Branched c) slots slots'' := by
    intro slots'' hm
    refine Pointwise.trans hbranched hm fun s s' s'' hb hm => ?_
    have hgen := (Prod.mk.inj hm.key).1
    refine ⟨hm.key.trans hb.key, hm.chosen.trans hb.chosen, by rw [hm.uops]; exact hb.uops, ?_⟩
    rw [hm.index, hm.pc, hm.active, hgen]
    exact hb.index
  have hdivergent : ∀ {slots'' stack' log'}, Stage c arrived (slots''.map Prod.fst) stack' regs log' →
      Stage c arrived ((onLanes (markDivergent g b) slots'').map Prod.fst) stack' regs log' := by
    intro slots'' stack' log' hst
    rw [map_onLanes]
    refine hst.map_lanes fun l _ => ?_
    obtain ⟨d, hd⟩ := markDivergent_same g b l
    rw [hd]
    exact ⟨rfl, fun value hfine => hfine.divergent d⟩
  by_cases hone : b.paths.length ≤ 1
  · rw [if_pos hone]
    rw [hsame]
    exact ⟨hcommitted, hbranched⟩
  rw [if_neg hone] at hfits ⊢
  by_cases hzero : op.reconvergencePC = 0
  · rw [if_pos hzero]
    rw [hsame]
    exact ⟨hdivergent hcommitted, hmarked (marked_divergent g b slots')⟩
  rw [if_neg hzero] at hfits ⊢
  have hnodup : (b.paths.reverse.filter fun path => path != b.selected seed).Nodup :=
    (nodup_reverse.mpr hpaths).filter _
  rw [← hstack] at hdefer
  rw [← hsame] at hcommitted
  obtain ⟨hsplit, hmark⟩ := hcommitted.split op.reconvergencePC hnodup (hdefer _) hout.here hfits
  rw [refreshCurrentGroup_stack]
  exact ⟨hdivergent hsplit, hmarked (Pointwise.trans hmark (marked_divergent g b _)
    fun _ _ _ h h' => h.trans h')⟩

end branch

end Gem5Dvr.ReplayLanes
