/-
  Every lane computes its own chain, over whole runs.

  The chunk executes uop by uop what the chains of its lanes execute: a lane that is in the chunk of
  a non-branch stands AT the uop (`Ready`); after a branch has been committed a lane of the chunk
  executes once more, and in a clean call that is the next uop of its chain.

  `lanes_run_own_chains`: in a clean run every request is for the address of the lane's own chain,
  and no lane goes before its chain is over, but at the stride PC.
-/
import Gem5Dvr.ReplayChainBranch

namespace Gem5Dvr.ReplayLanes

open List Function

variable {c : Config} {value : RegVal} {row : Fin 32 → RegVal} {log log' : List Fate} {l : Lane}
  {env : Env}

/-! ## Executing the chunk -/

/-- A lane of the chunk is at a branch, which does nothing more, or at a uop of its chain. -/
def Ready (c : Config) (l : Lane) : Prop := ((c.template l.gen).uop l.uopIndex).conditional = true ∨
    (l.active = true ∧ l.reconvergenceBlocked = false ∧
      (c.template l.gen).findPC l.lanePC = some l.uopIndex ∧
      ((c.template l.gen).uop l.uopIndex).stateless = false)

/-- The registers of the lane after the effect. -/
def Effect.after (e : Effect) (row : Fin 32 → RegVal) : Fin 32 → RegVal :=
  match e.write with
  | some (r, value) => update row r value
  | none => row

theorem Chain.uop_executed {p : Template} {index : Nat} (hstate : (p.uop index).stateless = false)
    (hcond : (p.uop index).conditional = false) : Chain.uop p index row =
      match (p.uop index).evaluate (Uop.operand row (p.uop index).source0)
          (Uop.operand row (p.uop index).source1) with
      | none => .ended
      | some result =>
        if (p.uop index).load && !(p.uop index).tainted then .run (p.successor index) row
        else if (p.uop index).load then .load (p.uop index).pc result
        else .run (nextPC p index) (writeBack (p.uop index) row result) := by
  have hlive : ¬ (p.uop index).stateless = true := Bool.eq_false_iff.mp hstate
  have hstraight : ¬ (p.uop index).conditional = true := Bool.eq_false_iff.mp hcond
  exact (if_neg hlive).trans (if_neg hstraight)

/-- A lane that goes on at a PC of its chain, or ends there because there is no such PC. -/
theorem Fine.advance {frames : List Frame} {row' : Fin 32 → RegVal} {pc : Addr}
    (h : LaneOk c frames row value l) (hactive : l.active = true)
    (hb : l.reconvergenceBlocked = false) (hroom : l.helperUops + 2 ≤ c.dvrHelperMaxUops)
    (hpath : Reaches (c.template l.gen) value (.run pc row')) :
    Fine c frames row' log value (advance c l pc) := by
  have hlt : ¬ c.dvrHelperMaxUops ≤ l.helperUops + 1 := by omega
  refine ⟨fun hstill => ?_, fun hdead => ?_⟩
  · have hpc : pc ≠ 0 := by
      rintro rfl
      simp [ReplayLanes.advance] at hstill
    refine h.move hb rfl rfl hpath ?_
    show (if pc = 0 ∨ c.dvrHelperMaxUops ≤ l.helperUops + 1 then l.uopIndex
      else (c.template l.gen).indexOf pc) < _ ∨ _
    rw [if_neg (not_or.mpr ⟨hpc, hlt⟩)]
    cases hf : (c.template l.gen).findPC pc with
    | none => exact .inr hf
    | some index =>
      rw [indexOf_eq hf]
      exact .inl (findPC_bounds hf).2.1
  · have hpc : pc = 0 := by
      by_contra hne
      have hlt' : l.helperUops + 1 < c.dvrHelperMaxUops := by omega
      have hstill : (ReplayLanes.advance c l pc).active = true := by
        show (l.active && pc != 0 && decide (l.helperUops + 1 < c.dvrHelperMaxUops)) = true
        rw [hactive, decide_eq_true hlt', bne_iff_ne.mpr hne]
        rfl
      rw [hstill] at hdead
      exact Bool.noConfusion hdead
    rw [hpc] at hpath
    exact .of_ended (hpath.ended (findPC_zero _))

/-- One lane of the chunk executes what its chain executes. -/
theorem executeLane_fine {frames : List Frame} (h : Fine c frames row log value l)
    (hready : Ready c l) (hroom : l.helperUops + 2 ≤ c.dvrHelperMaxUops)
    (hcont : ∀ g, (c.template g).continuePastFLR = false) (hlog : ∀ f ∈ log, f ∈ log')
    (hfate : ∀ f, (executeLane c env row l).fate = some f → f ∈ log') :
    Fine c frames ((executeLane c env row l).after row) log' value (executeLane c env row l).lane ∧
      ∀ g k pc address, (executeLane c env row l).fate = some (.requested g k pc address) →
        g = l.gen ∧ k = l.lane ∧ Reaches (c.template g) value (.load pc address) := by
  unfold executeLane at hfate ⊢
  by_cases hcond : ((c.template l.gen).uop l.uopIndex).conditional = true
  · rw [if_pos hcond]
    exact ⟨⟨h.1, fun hdead => (h.2 hdead).mono hlog⟩, by simp⟩
  rw [if_neg hcond] at hfate ⊢
  obtain ⟨hactive, hb, hfound, hstate⟩ := hready.resolve_left hcond
  rw [Bool.not_eq_true] at hcond
  have hok := h.1 hactive
  have hchain := hok.path.uop hfound
  rw [Chain.uop_executed hstate hcond] at hchain
  cases hev : ((c.template l.gen).uop l.uopIndex).evaluate
      (Uop.operand row ((c.template l.gen).uop l.uopIndex).source0)
      (Uop.operand row ((c.template l.gen).uop l.uopIndex).source1) with
  | none =>
    rw [hev] at hchain
    exact ⟨⟨fun h => Bool.noConfusion h, fun _ => .of_ended hchain⟩, by simp⟩
  | some result =>
    rw [hev] at hchain hfate
    dsimp only at hchain hfate ⊢
    by_cases hplain : (((c.template l.gen).uop l.uopIndex).load &&
        !((c.template l.gen).uop l.uopIndex).tainted) = true
    · -- the value of an untainted load is not known, and not asked for
      rw [if_pos hplain] at hchain ⊢
      exact ⟨.advance hok hactive hb hroom hchain, by simp⟩
    rw [if_neg hplain] at hchain hfate ⊢
    by_cases hload : ((c.template l.gen).uop l.uopIndex).load = true
    · rw [if_pos hload] at hchain hfate ⊢
      by_cases hadmit : admits c env (c.template l.gen) row
          ((c.template l.gen).uop l.uopIndex).pc result = true
      · rw [if_pos hadmit, hcont] at hfate ⊢
        refine ⟨⟨fun h => Bool.noConfusion h, fun _ => .inl (.inr ⟨_, _, hchain,
          .inl (hfate _ rfl)⟩)⟩, fun g k pc address hreq => ?_⟩
        cases hreq
        exact ⟨rfl, rfl, hchain⟩
      · rw [if_neg hadmit] at hfate ⊢
        refine ⟨⟨fun h => Bool.noConfusion h, fun _ => .inl (.inr ⟨_, _, hchain,
          .inr (hfate _ rfl)⟩)⟩, fun g k pc address hreq => ?_⟩
        cases hreq
    · rw [if_neg hload] at hchain ⊢
      refine ⟨.advance hok hactive hb hroom ?_, by simp⟩
      have hrow : Effect.after { lane := advance c l (nextPC (c.template l.gen) l.uopIndex)
                                 write := ((c.template l.gen).uop l.uopIndex).destination.map
                                   fun r => (r, result) } row =
          writeBack ((c.template l.gen).uop l.uopIndex) row result := by
        unfold Effect.after writeBack
        cases ((c.template l.gen).uop l.uopIndex).destination <;> rfl
      rw [hrow]
      exact hchain

theorem executeLane_key (c : Config) (env : Env) (row : Fin 32 → RegVal) (l : Lane) :
    (executeLane c env row l).lane.key = l.key := by
  unfold executeLane
  by_cases hcond : ((c.template l.gen).uop l.uopIndex).conditional = true
  · rw [if_pos hcond]
  · rw [if_neg hcond]
    cases ((c.template l.gen).uop l.uopIndex).evaluate _ _ with
    | none => rfl
    | some result =>
      dsimp only
      split_ifs <;> rfl

/-! ### The lane loop -/

section loop

variable {regs : Rows RegVal} {readyAt : Rows Nat} {slots : List Slot}

/-- What the loop does to one slot; `regs'` and `fates` are those at the end of the loop. -/
structure Executes (c : Config) (env : Env) (regs regs' : Rows RegVal) (fates : List Fate)
    (s : Slot) (l' : Lane) : Prop where
  lane : l' = if s.2 then (executeLane c env (regs s.1.gen s.1.lane) s.1).lane else s.1
  row : regs' s.1.gen s.1.lane =
    if s.2 then (executeLane c env (regs s.1.gen s.1.lane) s.1).after (regs s.1.gen s.1.lane)
    else regs s.1.gen s.1.lane
  fate : s.2 = true → ∀ f, (executeLane c env (regs s.1.gen s.1.lane) s.1).fate = some f → f ∈ fates

variable (c env) in
/-- The lanes have their own registers, so that none sees what another one writes. -/
theorem executeSlots_spec (hkeys : (slots.map fun s => s.1.key).Nodup) (regs : Rows RegVal)
    (readyAt : Rows Nat) :
    Forall₂ (Executes c env regs (executeSlots c env slots regs readyAt).regs
        (executeSlots c env slots regs readyAt).fates) slots
        (executeSlots c env slots regs readyAt).lanes ∧
      (∀ g k, (∀ s ∈ slots, s.1.key ≠ (g, k)) →
        (executeSlots c env slots regs readyAt).regs g k = regs g k) ∧
      ∀ f ∈ (executeSlots c env slots regs readyAt).fates, ∃ s ∈ slots, s.2 = true ∧
        (executeLane c env (regs s.1.gen s.1.lane) s.1).fate = some f := by
  induction slots generalizing regs readyAt with
  | nil => exact ⟨.nil, fun _ _ _ => rfl, fun f hf => absurd hf not_mem_nil⟩
  | cons s rest ih =>
    obtain ⟨l, chosen⟩ := s
    rw [map_cons, nodup_cons] at hkeys
    obtain ⟨hfirst, hrest⟩ := hkeys
    have hother : ∀ s ∈ rest, s.1.key ≠ (l.gen, l.lane) := fun s hs heq =>
      hfirst (mem_map.mpr ⟨s, hs, heq⟩)
    -- the rest of the loop, from registers that differ at this lane only
    have hcons : ∀ (regs₁ : Rows RegVal) (readyAt₁ : Rows Nat),
        (∀ g k, (l.gen, l.lane) ≠ (g, k) → regs₁ g k = regs g k) →
        (Forall₂ (Executes c env regs (executeSlots c env rest regs₁ readyAt₁).regs
            (executeSlots c env rest regs₁ readyAt₁).fates) rest
            (executeSlots c env rest regs₁ readyAt₁).lanes) ∧
          (executeSlots c env rest regs₁ readyAt₁).regs l.gen l.lane = regs₁ l.gen l.lane ∧
          (∀ g k, (l.gen, l.lane) ≠ (g, k) → (∀ s ∈ rest, s.1.key ≠ (g, k)) →
            (executeSlots c env rest regs₁ readyAt₁).regs g k = regs g k) ∧
          ∀ f ∈ (executeSlots c env rest regs₁ readyAt₁).fates, ∃ s ∈ rest, s.2 = true ∧
            (executeLane c env (regs s.1.gen s.1.lane) s.1).fate = some f := by
      intro regs₁ readyAt₁ hsame
      obtain ⟨hexec, hframe, hfates⟩ := ih hrest regs₁ readyAt₁
      have hrow : ∀ s ∈ rest, regs₁ s.1.gen s.1.lane = regs s.1.gen s.1.lane := fun s hs =>
        hsame _ _ (hother s hs).symm
      refine ⟨(Pointwise.with_mem hexec).imp fun s l' hs => ?_, hframe _ _ hother,
        fun g k hne hno => (hframe g k hno).trans (hsame g k hne), fun f hf => ?_⟩
      · have hone := hs.2
        exact ⟨by rw [← hrow s hs.1]; exact hone.lane, by rw [← hrow s hs.1]; exact hone.row,
          by rw [← hrow s hs.1]; exact hone.fate⟩
      · obtain ⟨s, hs, hchosen, hfate⟩ := hfates f hf
        exact ⟨s, hs, hchosen, by rw [← hrow s hs]; exact hfate⟩
    cases chosen with
    | false =>
      obtain ⟨hexec, hmine, hframe, hfates⟩ := hcons regs readyAt fun _ _ _ => rfl
      exact ⟨.cons ⟨rfl, hmine, fun h => Bool.noConfusion h⟩ hexec,
        fun g k hno => hframe g k (hno _ mem_cons_self) fun s hs => hno s (mem_cons_of_mem _ hs),
        fun f hf => (hfates f hf).imp fun s hs => ⟨mem_cons_of_mem _ hs.1, hs.2⟩⟩
    | true =>
      unfold executeSlots
      dsimp only
      generalize he : executeLane c env (regs l.gen l.lane) l = e
      -- the registers after this lane's write
      have hfinish : ∀ (regs₁ : Rows RegVal) (readyAt₁ : Rows Nat),
          (∀ g k, (l.gen, l.lane) ≠ (g, k) → regs₁ g k = regs g k) →
          regs₁ l.gen l.lane = e.after (regs l.gen l.lane) →
          Forall₂ (Executes c env regs (executeSlots c env rest regs₁ readyAt₁).regs
              (e.fate.toList ++ (executeSlots c env rest regs₁ readyAt₁).fates))
            ((l, true) :: rest) (e.lane :: (executeSlots c env rest regs₁ readyAt₁).lanes) ∧
          (∀ g k, (∀ s ∈ (l, true) :: rest, s.1.key ≠ (g, k)) →
            (executeSlots c env rest regs₁ readyAt₁).regs g k = regs g k) ∧
          ∀ f ∈ e.fate.toList ++ (executeSlots c env rest regs₁ readyAt₁).fates,
            ∃ s ∈ (l, true) :: rest, s.2 = true ∧
              (executeLane c env (regs s.1.gen s.1.lane) s.1).fate = some f := by
        intro regs₁ readyAt₁ hsame hwrite
        obtain ⟨hexec, hmine, hframe, hfates⟩ := hcons regs₁ readyAt₁ hsame
        refine ⟨.cons ⟨?_, ?_, fun _ f hf => ?_⟩ (hexec.imp fun s l' hs =>
          ⟨hs.lane, hs.row, fun hchosen f hf => mem_append_right _ (hs.fate hchosen f hf)⟩),
          fun g k hno => ?_, fun f hf => ?_⟩
        · show e.lane = (executeLane c env (regs l.gen l.lane) l).lane
          rw [he]
        · show _ = (executeLane c env (regs l.gen l.lane) l).after _
          rw [he, ← hwrite]
          exact hmine
        · change (executeLane c env (regs l.gen l.lane) l).fate = some f at hf
          rw [he] at hf
          exact mem_append_left _ (Option.mem_toList.mpr hf)
        · exact hframe g k (hno _ mem_cons_self) fun s hs => hno s (mem_cons_of_mem _ hs)
        · rcases mem_append.mp hf with hnew | hlater
          · refine ⟨(l, true), mem_cons_self, rfl, ?_⟩
            show (executeLane c env (regs l.gen l.lane) l).fate = some f
            rw [he]
            exact Option.mem_toList.mp hnew
          · exact (hfates f hlater).imp fun s hs => ⟨mem_cons_of_mem _ hs.1, hs.2⟩
      cases hw : e.write with
      | none => exact hfinish regs readyAt (fun _ _ _ => rfl) (by rw [Effect.after, hw])
      | some w =>
        obtain ⟨r, v⟩ := w
        refine hfinish (regs.set l.gen l.lane r v) (readyAt.set l.gen l.lane r env.readyTick)
          (fun g k hne => Rows.set_other regs r v fun hall => hne ?_) ?_
        · rw [hall.1, hall.2]
        · rw [Rows.set_same, Effect.after, hw]

variable {arrived : List Arrival} {stack : Nat → List Frame}

/-- The lane loop keeps every lane on its chain. -/
theorem Stage.execute (h : Stage c arrived (slots.map Prod.fst) stack regs log)
    (hcont : ∀ g, (c.template g).continuePastFLR = false)
    (hready : ∀ s ∈ slots, s.2 = true → Ready c s.1 ∧ s.1.helperUops + 2 ≤ c.dvrHelperMaxUops)
    (env : Env) (readyAt : Rows Nat) :
    Stage c arrived (executeSlots c env slots regs readyAt).lanes stack
      (executeSlots c env slots regs readyAt).regs
      (log ++ (executeSlots c env slots regs readyAt).fates) := by
  have hkeys : (slots.map fun s => s.1.key).Nodup := by
    have hk := h.keys
    rw [map_map] at hk
    exact hk
  have hspec := executeSlots_spec c env hkeys regs readyAt
  generalize executeSlots c env slots regs readyAt = done at hspec ⊢
  obtain ⟨hexec, hframe, hfates⟩ := hspec
  have hmem : ∀ s ∈ slots, s.1 ∈ slots.map Prod.fst := fun s hs => mem_map_of_mem hs
  refine h.of_forall₂ ?_ (fun f hf => mem_append_left _ hf) h.masks (fun g k hno => ?_)
    fun g k pc address hreq => ?_
  · rw [forall₂_map_left_iff]
    refine (Pointwise.with_mem hexec).imp fun s l' ⟨hs, hone⟩ => ?_
    cases hchosen : s.2 with
    | false =>
      have hlane := hone.lane
      have hrow := hone.row
      rw [hchosen] at hlane hrow
      simp only [Bool.false_eq_true, if_false] at hlane hrow
      refine ⟨by rw [hlane], fun value _ hfine => ?_⟩
      rw [hlane, hrow]
      exact ⟨hfine.1, fun hdead => (hfine.2 hdead).mono fun f hf => mem_append_left _ hf⟩
    | true =>
      have hlane := hone.lane
      have hrow := hone.row
      rw [hchosen, if_pos rfl] at hlane hrow
      obtain ⟨hrd, hroom⟩ := hready s hs hchosen
      refine ⟨by rw [hlane, executeLane_key], fun value _ hfine => ?_⟩
      rw [hlane, hrow]
      exact (executeLane_fine hfine hrd hroom hcont (fun f hf => mem_append_left _ hf)
        fun f hf => mem_append_right _ (hone.fate hchosen f hf)).1
  · refine hframe g k fun s hs hkey => ?_
    obtain ⟨value, harrived, -⟩ := h.fine s.1 (hmem s hs)
    obtain ⟨hgen, hlane⟩ := Prod.mk.inj hkey
    rw [hgen, hlane] at harrived
    exact hno value harrived
  · rcases mem_append.mp hreq with hold | hnew
    · exact h.requested g k pc address hold
    · obtain ⟨s, hs, hchosen, hfate⟩ := hfates _ hnew
      obtain ⟨value, harrived, hfine⟩ := h.fine s.1 (hmem s hs)
      obtain ⟨hrd, hroom⟩ := hready s hs hchosen
      have hlog : ∀ f ∈ log, f ∈ log ++ done.fates := fun f hf => mem_append_left _ hf
      obtain ⟨rfl, rfl, hload⟩ := (executeLane_fine hfine hrd hroom hcont hlog fun f hf => by
        rw [hfate] at hf
        rw [← Option.some.inj hf]
        exact mem_append_right _ hnew).2 g k pc address hfate
      exact ⟨value, harrived, hload⟩

end loop

/-! ## A call -/

section call

variable {arrived : List Arrival} {slots : List Slot} {g : Nat} {h : Helper} {seed : Lane}

theorem Stage.pick {lanes : List Lane} {stack : Nat → List Frame} {regs : Rows RegVal}
    {member : Lane → Bool} (hs : Stage c arrived lanes stack regs log)
    (hpicked : Forall₂ (Picked c member) lanes slots) :
    Stage c arrived (slots.map Prod.fst) stack regs log := by
  refine hs.of_forall₂ ?_ (fun _ hf => hf) hs.masks (fun _ _ _ => rfl) hs.requested
  rw [forall₂_map_right_iff]
  exact hpicked.imp fun l s hone => ⟨hone.key, fun value _ hfine => hone.fine _ _ _ _ hfine⟩

/-- A lane of the chunk stands at its uop, and the current PC leads there. -/
structure Chosen (c : Config) (g : Nat) (pc : Addr) (l : Lane) : Prop where
  gen : l.gen = g
  active : l.active = true
  unblocked : l.reconvergenceBlocked = false
  uops : l.helperUops + 3 ≤ c.dvrHelperMaxUops
  leads : Leads (c.template g) pc l.lanePC
  found : (c.template g).findPC l.lanePC = some l.uopIndex
  effect : ((c.template g).uop l.uopIndex).stateless = false

theorem member_unblocked {s : Reconvergence} (h : inCurrentGroup g s l = true) :
    l.reconvergenceBlocked = false := by
  simp only [inCurrentGroup, Lane.unblocked, Bool.and_eq_true, Bool.not_eq_true'] at h
  exact h.1.1.2.2

theorem Picked.is_chosen {s : Reconvergence} {slot : Slot}
    (hpicked : Picked c (inCurrentGroup g s) l slot) (hchosen : slot.2 = true) :
    Chosen c g s.currentPC slot.1 := by
  obtain ⟨hactive, hmember, huops, hleads, hfound, heffect⟩ := hpicked.chosen hchosen
  obtain ⟨hgen', -⟩ := Prod.mk.inj hpicked.key
  simp only [inCurrentGroup, Lane.unblocked, Bool.and_eq_true, beq_iff_eq,
    Bool.not_eq_true'] at hmember
  obtain ⟨⟨⟨-, ⟨-, hgen⟩, hblocked⟩, hpc⟩, -⟩ := hmember
  have hg : slot.1.gen = g := hgen'.trans hgen
  rw [hg] at hfound heffect hleads
  rw [hpc] at hleads
  exact ⟨hg, hactive, hpicked.blocked.trans hblocked, huops, hleads, hfound, heffect⟩

/-- The end of a call: the chunk executes, ended lanes go. -/
theorem Stage.finish {s : Reconvergence} {fates : List Fate}
    (hs : Stage c arrived (slots.map Prod.fst) (update h.frames g s.stack) h.regs
      (log ++ fates)) (harr : (arrived.map Arrival.key).Nodup)
    (hcont : ∀ g, (c.template g).continuePastFLR = false) (hnames : env.renameFails = false)
    (hready : ∀ s ∈ slots, s.2 = true → Ready c s.1 ∧ s.1.helperUops + 2 ≤ c.dvrHelperMaxUops) :
    let done := executeSlots c env (failRename env slots) h.regs h.readyAt
    let lanes := retireTerminatedLanes done.lanes
    let h' : Helper :=
      { replayLanes := lanes
        context := update h.context g (refreshCurrentGroup lanes g s)
        regs := done.regs
        readyAt := done.readyAt }
    Stage c arrived h'.replayLanes h'.frames h'.regs (log ++ (fates ++ done.fates)) := by
  have hsame : failRename env slots = slots := by
    unfold failRename
    rw [hnames]
    simp
  intro done lanes h'
  have hframes : h'.frames = update h.frames g s.stack := by
    show (h.setContext g (refreshCurrentGroup lanes g s)).frames = _
    rw [frames_setContext, refreshCurrentGroup_stack]
  rw [hframes, ← append_assoc]
  have hexecuted := hs.execute hcont hready env h.readyAt
  rw [← hsame] at hexecuted
  exact hexecuted.retire harr

/-- Commit, execution and retirement of a picked chunk. -/
theorem Stage.executeChunk {branch : Option Branch}
    (hs : Stage c arrived (slots.map Prod.fst) h.frames h.regs log)
    (harr : (arrived.map Arrival.key).Nodup)
    (hcont : ∀ g, (c.template g).continuePastFLR = false) (hnames : env.renameFails = false)
    (hchosen : ∀ s ∈ slots, s.2 = true → Chosen c g (h.context g).currentPC s.1 ∧
      s.1.uopIndex = seed.uopIndex)
    (hroom : ∀ s ∈ slots, s.1.helperUops + 2 ≤ c.dvrHelperMaxUops)
    (hi : seed.uopIndex < (c.template g).count)
    (hbranch : ∀ b, branch = some b → ((c.template g).uop seed.uopIndex).conditional = true ∧
      Outcomes c arrived h.regs g seed.uopIndex (slots.map Prod.fst) b ∧ b.paths.Nodup ∧
      (b.complete = true →
        ∀ s ∈ (ReplayLanes.commitBranch c g ((c.template g).uop seed.uopIndex) b seed (h.context g)
          slots).2.1, carried c s = true))
    (hfits : (ReplayLanes.executeChunk c env g seed branch h slots).2.overflow = false) :
    Stage c arrived (ReplayLanes.executeChunk c env g seed branch h slots).1.replayLanes
      (ReplayLanes.executeChunk c env g seed branch h slots).1.frames
      (ReplayLanes.executeChunk c env g seed branch h slots).1.regs
      (log ++ (ReplayLanes.executeChunk c env g seed branch h slots).2.fates) := by
  have hsame : update h.frames g (h.context g).stack = h.frames := update_eq_self g h.frames
  -- nothing is committed: the chunk executes where it stands
  have hplain : ∀ s ∈ slots, s.2 = true → Ready c s.1 ∧
      s.1.helperUops + 2 ≤ c.dvrHelperMaxUops := by
    intro s hs hpicked
    have hc := (hchosen s hs hpicked).1
    refine ⟨.inr ⟨hc.active, hc.unblocked, ?_⟩, hroom s hs⟩
    rw [hc.gen]
    exact ⟨hc.found, hc.effect⟩
  have hstart : Stage c arrived (slots.map Prod.fst)
      (update h.frames g (h.context g).stack) h.regs (log ++ []) := by
    rw [hsame, append_nil]
    exact hs
  unfold ReplayLanes.executeChunk at hfits ⊢
  cases branch with
  | none => exact hstart.finish harr hcont hnames hplain
  | some b =>
    obtain ⟨hcond, hout, hpaths, hclean⟩ := hbranch b rfl
    dsimp only at hfits ⊢
    by_cases hcomplete : b.complete = true
    · rw [if_pos hcomplete] at hfits ⊢
      obtain ⟨hcommitted, hbranched⟩ := hs.commitBranch rfl hout hi hcont hpaths hroom hfits
      refine hcommitted.finish harr hcont hnames fun s' hs' hpicked => ?_
      have hcarried := hclean hcomplete s' hs'
      obtain ⟨s, hmem, hone⟩ := Pointwise.exists_left hbranched hs'
      rw [hone.chosen] at hpicked
      obtain ⟨hc, hindex⟩ := hchosen s hmem hpicked
      have hgen : s'.1.gen = g := (Prod.mk.inj hone.key).1.trans hc.gen
      refine ⟨?_, by have := hone.uops; have := hc.uops; omega⟩
      rcases hone.index with hstays | ⟨hactive, hfound⟩
      · -- the lane is still at the branch
        left
        rw [hgen, hstays, hindex]
        exact hcond
      · unfold carried at hcarried
        rw [hone.chosen, hpicked, hactive] at hcarried
        simp only [Bool.not_true, Bool.false_or, Bool.or_eq_true, Bool.and_eq_true,
          Bool.not_eq_true'] at hcarried
        exact hcarried.imp id fun hnext => ⟨hactive, hnext.2, hfound, hnext.1⟩
    · rw [if_neg hcomplete]
      exact hstart.finish harr hcont hnames hplain

theorem Stage.issueChunk (hs : Stage c arrived (slots.map Prod.fst) h.frames h.regs log)
    (harr : (arrived.map Arrival.key).Nodup)
    (hcont : ∀ g, (c.template g).continuePastFLR = false) (hnames : env.renameFails = false)
    (hchosen : ∀ s ∈ slots, s.2 = true → Chosen c g (h.context g).currentPC s.1 ∧
      s.1.uopIndex = seed.uopIndex)
    (hroom : ∀ s ∈ slots, s.1.helperUops + 2 ≤ c.dvrHelperMaxUops) (hseed : (seed, true) ∈ slots)
    (hclean : ∀ s ∈ committed c env g seed h slots, carried c s = true)
    (hfits : (ReplayLanes.issueChunk c env g seed h slots).2.overflow = false) :
    Stage c arrived (ReplayLanes.issueChunk c env g seed h slots).1.replayLanes
      (ReplayLanes.issueChunk c env g seed h slots).1.frames
      (ReplayLanes.issueChunk c env g seed h slots).1.regs
      (log ++ (ReplayLanes.issueChunk c env g seed h slots).2.fates) := by
  have hc := (hchosen _ hseed rfl).1
  have hi := (findPC_bounds hc.found).2.1
  have hstalled : Stage c arrived (slots.map Prod.fst) h.frames h.regs (log ++ []) := by
    rw [append_nil]
    exact hs
  unfold ReplayLanes.issueChunk at hfits ⊢
  unfold committed at hclean
  by_cases hcond : ((c.template g).uop seed.uopIndex).conditional = true
  · rw [if_pos hcond] at hfits ⊢
    generalize hgroup : (slots.map Prod.fst).filter (fun l =>
      inCurrentGroup g (h.context g) l && l.uopIndex == seed.uopIndex) = group
      at hfits hclean ⊢
    by_cases hwait : (group.isEmpty || !group.all (sourcesReady c env.now h.readyAt)) = true
    · rw [if_pos hwait]
      exact hstalled
    rw [if_neg hwait] at hfits ⊢
    by_cases hadmit : (env.decoded && env.granted) = true
    · rw [if_pos hadmit] at hfits ⊢
      refine hs.executeChunk harr hcont hnames hchosen hroom hi ?_ hfits
      rintro b hb
      rw [← Option.some.inj hb]
      refine ⟨hcond, hs.outcomes harr hc.leads hc.found hc.effect hcond hgroup.symm,
        nodup_pushPath _ nodup_nil, fun hcomplete => ?_⟩
      have hguard : (((c.template g).uop seed.uopIndex).conditional && !group.isEmpty &&
          group.all (sourcesReady c env.now h.readyAt) && env.decoded && env.granted &&
          (evaluateBranchGroup ((c.template g).uop seed.uopIndex) h.regs group).complete) =
            true := by
        simp only [Bool.or_eq_true, Bool.not_eq_true', not_or, Bool.not_eq_true,
          Bool.not_eq_false] at hwait
        simp only [Bool.and_eq_true] at hadmit
        simp [hcond, hwait.1, hwait.2, hadmit.1, hadmit.2, hcomplete]
      rw [if_pos hguard] at hclean
      exact hclean
    · rw [if_neg hadmit]
      exact hstalled
  · rw [if_neg hcond] at hfits ⊢
    by_cases hadmit : (env.decoded && env.granted) = true
    · rw [if_pos hadmit] at hfits ⊢
      exact hs.executeChunk harr hcont hnames hchosen hroom hi
        (fun b hb => absurd hb (by simp)) hfits
    · rw [if_neg hadmit]
      exact hstalled

/-- A call of `issueDVRReplayLanes`. -/
theorem Stage.issue (hs : Stage c arrived h.replayLanes h.frames h.regs log)
    (harr : (arrived.map Arrival.key).Nodup)
    (hcont : ∀ g, (c.template g).continuePastFLR = false)
    (hskips : ∀ g, (c.template g).SkipsByPC) (hnames : env.renameFails = false)
    (hroom : ∀ l ∈ h.replayLanes, Roomy c l)
    (hclean : ∀ s ∈ committedBranch c env h, carried c s = true)
    (hfits : (issueDVRReplayLanes c env h).2.overflow = false) :
    Stage c arrived (issueDVRReplayLanes c env h).1.replayLanes
      (issueDVRReplayLanes c env h).1.frames (issueDVRReplayLanes c env h).1.regs
      (log ++ (issueDVRReplayLanes c env h).2.fates) := by
  have hnothing : ∀ {lanes stack regs}, Stage c arrived lanes stack regs log →
      Stage c arrived lanes stack regs (log ++ []) := by
    intro lanes stack regs hst
    rw [append_nil]
    exact hst
  unfold issueDVRReplayLanes at hfits ⊢
  unfold committedBranch at hclean
  by_cases hidle : (!env.capacity || h.replayLanes.isEmpty) = true
  · rw [if_pos hidle]
    exact hnothing hs
  rw [if_neg hidle] at hfits ⊢
  have halive := hs.filter_alive harr
  have hroom' : ∀ l ∈ h.replayLanes.filter (alive c), Roomy c l := fun l hl =>
    hroom l (mem_filter.mp hl).1
  generalize hh : ({ h with replayLanes := h.replayLanes.filter (alive c) } : Helper) = h₁
    at hfits hclean ⊢
  have hs₁ : Stage c arrived h₁.replayLanes h₁.frames h₁.regs log := by
    rw [← hh]
    exact halive
  have hroom₁ : ∀ l ∈ h₁.replayLanes, Roomy c l := by
    rw [← hh]
    exact hroom'
  by_cases hwait : (h₁.replayLanes.isEmpty || !env.readyUops) = true
  · rw [if_pos hwait]
    exact hnothing hs₁
  rw [if_neg hwait] at hfits ⊢
  have hopen : (env.capacity && env.readyUops) = true := by
    simp only [Bool.or_eq_true, Bool.not_eq_true', not_or, Bool.not_eq_false] at hidle hwait
    rw [hidle.1, hwait.2]
    rfl
  rw [if_pos hopen] at hclean
  cases hchoice : chooseContext c env h₁ with
  | none =>
    have hpicked : Forall₂ (Picked c fun _ => false) h₁.replayLanes
        (pickLanes c env h₁.readyAt (fun _ => false) h₁.replayLanes none 0) :=
      pickLanes_spec hskips (fun _ hno => Bool.noConfusion hno) hroom₁ none 0
    exact hnothing ((hs₁.pick hpicked).retire harr)
  | some g =>
    rw [hchoice] at hfits hclean
    dsimp only at hfits hclean ⊢
    have hs₂ := hs₁.reconverge g
    have hroom₂ := roomy_reconverge g hroom₁
    generalize ReplayLanes.reconverge c g h₁ = h₂ at hs₂ hroom₂ hfits hclean ⊢
    have hpicked : Forall₂ (Picked c (inCurrentGroup g (h₂.context g))) h₂.replayLanes
        (pickChunk c env g h₂) :=
      pickLanes_spec hskips (fun l => member_unblocked) hroom₂ none 0
    have hsame : ∀ s ∈ pickChunk c env g h₂, s.2 = true → ∀ x,
        (pickChunk c env g h₂).find? Prod.snd = some x → s.1.uopIndex = x.1.uopIndex :=
      fun s hs hchosen => (pickLanes_fits h₂.replayLanes none 0 hs hchosen).2 rfl
    generalize pickChunk c env g h₂ = slots at hpicked hsame hfits hclean ⊢
    have hs₃ := hs₂.pick hpicked
    cases hseed : slots.find? Prod.snd with
    | none => exact hnothing (hs₃.retire harr)
    | some x =>
      obtain ⟨seed, there⟩ := x
      rw [hseed] at hfits hclean hsame
      have hthere : there = true := find?_some hseed
      have hmem := mem_of_find?_eq_some hseed
      rw [hthere] at hmem
      refine hs₃.issueChunk harr hcont hnames (fun s hs hchosen => ?_) (fun s hs => ?_) hmem
        hclean hfits
      · obtain ⟨l, -, hone⟩ := Pointwise.exists_left hpicked hs
        exact ⟨hone.is_chosen hchosen, hsame s hs hchosen _ rfl⟩
      · obtain ⟨l, -, hone⟩ := Pointwise.exists_left hpicked hs
        exact hone.uops

end call

/-! ## Runs -/

/-- What holds of a clean run after every event. -/
structure Held (c : Config) (r : Run) : Prop where
  stage : Stage c r.arrived r.helper.replayLanes r.helper.frames r.helper.regs r.log
  once : (r.arrived.map Arrival.key).Nodup

theorem held_start (c : Config) : Held c { helper := start c } where
  stage :=
    { keys := nodup_nil
      fine := fun _ hl => absurd hl not_mem_nil
      gone := fun _ ha => absurd ha not_mem_nil
      masks := fun _ _ hf => absurd hf not_mem_nil
      rows := fun _ _ _ => rfl
      requested := fun _ _ _ _ hreq => absurd hreq not_mem_nil }
  once := nodup_nil

theorem Held.step {r : Run} (h : Held c r) (hcont : ∀ g, (c.template g).continuePastFLR = false)
    (hskips : ∀ g, (c.template g).SkipsByPC) {e : Event} (hlegal : legal c r e)
    (hclean : clean c r e) : Held c (step c r e) := by
  cases e with
  | enqueue a =>
    refine ⟨h.stage.enqueue hlegal, ?_⟩
    show ((if accepts c a.gen = true then a :: r.arrived else r.arrived).map Arrival.key).Nodup
    split_ifs
    · refine nodup_cons.mpr ⟨fun hmem => ?_, h.once⟩
      obtain ⟨a', ha', hkey⟩ := mem_map.mp hmem
      obtain ⟨hgen, hlane⟩ := Prod.mk.inj hkey
      apply hlegal a'.value
      rw [← hgen, ← hlane]
      exact ha'
    · exact h.once
  | issue env =>
    obtain ⟨hnames, hfits, hroom⟩ := hlegal
    exact ⟨h.stage.issue h.once hcont hskips hnames hroom hclean hfits, h.once⟩

/-- The lanes of a run compute their own chains: what is requested for a lane is the address of ITS
    first tainted load, and a lane that is no longer there has finished its chain, or has come to
    its stride PC. -/
theorem lanes_run_own_chains (c : Config) (hcont : ∀ g, (c.template g).continuePastFLR = false)
    (hskips : ∀ g, (c.template g).SkipsByPC) (es : List Event)
    (hrun : Trace.Admits (fun r e => legal c r e ∧ clean c r e) (step c) { helper := start c } es) :
    let r := es.foldl (step c) { helper := start c }
    RequestsOwn c r ∧ ∀ a ∈ r.arrived, Over c r.log a.gen a.lane a.value ∨ Waiting r a := by
  have hheld : Held c (es.foldl (step c) { helper := start c }) :=
    hrun.invariant (Held c) (fun r e h hok => h.step hcont hskips hok.1 hok.2) (held_start c)
  generalize es.foldl (step c) { helper := start c } = r at hheld
  refine ⟨hheld.stage.requested, fun a ha => ?_⟩
  by_cases hthere : ∃ l ∈ r.helper.replayLanes, l.key = a.key
  · obtain ⟨l, hl, hkey⟩ := hthere
    obtain ⟨value, harrived, hfine⟩ := hheld.stage.fine l hl
    obtain ⟨hgen, hlane⟩ := Prod.mk.inj hkey
    have hsame : (⟨l.gen, l.lane, value⟩ : Arrival) = a :=
      inj_on_of_nodup_map hheld.once harrived ha (by rw [← hkey]; rfl)
    cases hactive : l.active with
    | true => exact .inr ⟨l, hl, hactive, hgen, hlane⟩
    | false =>
      rw [← hsame]
      exact .inl (hfine.2 hactive)
  · exact .inl (hheld.stage.gone a ha fun l hl hkey => hthere ⟨l, hl, hkey⟩)

/-! ### Runs on fixed templates -/

/-- `bne x5, x0`, tainted. -/
def exampleBranch (pc target : Addr) : Uop :=
  { pc, branchTargetPC := target, fallthroughPC := pc + 4, semantic := .BranchNotEqual
    source0 := some 5, source1 := some 0, control := true, conditional := true, tainted := true }

/-- `ld x7, 0(x5)`, tainted. -/
def exampleLoad (pc : Addr) : Uop :=
  { pc, semantic := .LoadDouble, source0 := some 5, destination := some 7, loadBytes := 8
    load := true, tainted := true }

/-- Every generation runs one template. -/
def exampleConfig (stridePC : Addr) (uops : List Uop) : Config where
  template _ := { stridePC, triggerDestination := some 5, uops := {} :: uops }
  dvrHelperMaxUops := 100

/-- Lanes with these values arrive, and then so many calls are made. -/
def exampleEvents (values : List (Fin 128 × RegVal)) (calls : Nat) : List Event :=
  values.map (fun v => .enqueue ⟨0, v.1, v.2⟩) ++ replicate calls (.issue {})

/-- A branch with a load at its target and, past a second branch, a load on the other side. -/
def twoSides : Config := exampleConfig 0x100
  [{ exampleBranch 0x10 0x20 with reconvergencePC := 0x30 }, exampleBranch 0x14 0x20,
    { exampleLoad 0x18 with immediate := 0x6000 }, exampleLoad 0x20]

theorem twoSides_skips : (twoSides.template 0).SkipsByPC := by
  intro index h1 hcount hstateless
  have hc : (twoSides.template 0).count = 5 := rfl
  have hindex : index = 1 ∨ index = 2 ∨ index = 3 := by omega
  rcases hindex with rfl | rfl | rfl
  all_goals exact Bool.noConfusion hstateless

/-- Lane 3 takes the branch and asks for its address, with lane 4 blocked in a frame; the next call
    pops the frame, and lane 4 asks for the other one. -/
theorem lanes_run_own_chains_twoSides :
    let r := (exampleEvents [(3, 0x5000), (4, 0)] 2).foldl (step twoSides) { helper := start twoSides }
    r.log = [.requested 0 3 0x20 0x5000, .requested 0 4 0x18 0x6000] ∧ RequestsOwn twoSides r ∧
      ∀ a ∈ r.arrived, Over twoSides r.log a.gen a.lane a.value ∨ Waiting r a := by
  refine ⟨by decide, ?_⟩
  apply lanes_run_own_chains twoSides (fun _ => rfl) (fun _ => twoSides_skips)
  refine ⟨⟨fun value h => absurd h not_mem_nil, trivial⟩, ⟨fun value h => ?_, trivial⟩,
    ⟨⟨rfl, ?_, ?_⟩, ?_⟩, ⟨⟨rfl, ?_, ?_⟩, ?_⟩, trivial⟩
  · have hone := mem_singleton.mp h
    cases hone
  · decide
  · decide
  · show ∀ s ∈ committedBranch _ _ _, _
    decide
  · decide
  · decide
  · show ∀ s ∈ committedBranch _ _ _, _
    decide

/-- Every request is for the lane's own chain, and a lane that is gone has finished it. -/
def Faithful (c : Config) (r : Run) : Prop :=
  RequestsOwn c r ∧ ∀ a ∈ r.arrived, Finished c r.log a.gen a.lane a.value ∨ Waiting r a

/-- A lane that is gone without its load. -/
theorem not_faithful_of_gone {r : Run} {a : Arrival} {pc address : Addr} (ha : a ∈ r.arrived)
    (hload : Reaches (c.template a.gen) a.value (.load pc address)) (hlanes : r.helper.replayLanes = [])
    (hlog : ∀ pc address, .requested a.gen a.lane pc address ∉ r.log ∧
      .rejected a.gen a.lane pc address ∉ r.log) : ¬ Faithful c r := by
  rintro ⟨-, hall⟩
  rcases hall a ha with (hended | ⟨pc', address', -, hreq | hrej⟩) | ⟨l, hl, -⟩
  · exact Chain.noConfusion (hload.unique hended rfl rfl)
  · exact (hlog pc' address').1 hreq
  · exact (hlog pc' address').2 hrej
  · rw [hlanes] at hl
    exact absurd hl not_mem_nil

/-- The branch goes back to the stride PC, where the load is. -/
def backToStride : Config := exampleConfig 0x08 [exampleBranch 0x14 0x08, exampleLoad 0x08]

/-- The target of the branch is a NOP. -/
def branchToNop : Config :=
  exampleConfig 0x100 [exampleBranch 0x10 0x20, { pc := 0x20 }, exampleLoad 0x24]

/-- A NOP is followed by a second uop of the PC 0x18. -/
def nopToCopy : Config :=
  exampleConfig 0x100 [{ pc := 0x18, semantic := .AddImmediate, immediate := 8
                         source0 := some 5, destination := some 6 },
    { pc := 0x10 }, exampleLoad 0x18]

/-- The chains of `nopToCopy` come to no load. -/
theorem nopToCopy_never {s : Chain} {value : RegVal} (h : Reaches (nopToCopy.template 0) value s) :
    ∃ row, s = .run 0x18 row ∨ s = .run 0x10 row := by
  obtain ⟨j, rfl⟩ := h
  induction j with
  | zero => exact ⟨_, .inl rfl⟩
  | succ j ih =>
    rw [iterate_succ_apply']
    obtain ⟨row, hrun | hrun⟩ := ih
    · rw [hrun]
      exact ⟨_, .inr rfl⟩
    · rw [hrun]
      exact ⟨_, .inl rfl⟩

/-- A legal run that is not faithful. -/
def Unfaithful (c : Config) (es : List Event) : Prop :=
  Trace.Admits (legal c) (step c) { helper := start c } es ∧
    ¬ Faithful c (es.foldl (step c) { helper := start c })

/-- A lane whose chain comes to a load is gone without it, at its stride PC or past its branch; and
    a lane asks for an address that is not on its chain, after a skip. -/
theorem lanes_leave_chains : Unfaithful backToStride (exampleEvents [(0, 0), (1, 0x5000)] 1) ∧
      Unfaithful branchToNop (exampleEvents [(0, 0x5000)] 1) ∧
      Unfaithful nopToCopy (exampleEvents [(0, 0x5000)] 2) := by
  refine ⟨⟨⟨?_, ?_, ⟨rfl, ?_, ?_⟩, trivial⟩, ?_⟩, ⟨⟨?_, ⟨rfl, ?_, ?_⟩, trivial⟩, ?_⟩,
    ⟨⟨?_, ⟨rfl, ?_, ?_⟩, ⟨rfl, ?_, ?_⟩, trivial⟩, ?_⟩⟩
  · exact fun value h => absurd h not_mem_nil
  · intro value h
    have hone := mem_singleton.mp h
    cases hone
  · decide
  · decide
  · apply not_faithful_of_gone (a := ⟨0, 1, 0x5000⟩) mem_cons_self ⟨2, rfl⟩
    · decide
    · have hlog : ((exampleEvents [(0, 0), (1, 0x5000)] 1).foldl (step backToStride)
          { helper := start backToStride }).log = [.stride 0 1] := by decide
      rw [hlog]
      simp
  · exact fun value h => absurd h not_mem_nil
  · decide
  · decide
  · apply not_faithful_of_gone (a := ⟨0, 0, 0x5000⟩) mem_cons_self ⟨3, rfl⟩
    · decide
    · have hlog : ((exampleEvents [(0, 0x5000)] 1).foldl (step branchToNop)
          { helper := start branchToNop }).log = [] := by decide
      rw [hlog]
      simp
  · exact fun value h => absurd h not_mem_nil
  · decide
  · decide
  · decide
  · decide
  · rintro ⟨hown, -⟩
    have hlog : .requested 0 0 0x18 0x5000 ∈ ((exampleEvents [(0, 0x5000)] 2).foldl
        (step nopToCopy) { helper := start nopToCopy }).log := by decide
    obtain ⟨value, -, hload⟩ := hown 0 0 0x18 0x5000 hlog
    obtain ⟨row, hrun | hrun⟩ := nopToCopy_never hload
    · exact Chain.noConfusion hrun
    · exact Chain.noConfusion hrun

end Gem5Dvr.ReplayLanes
