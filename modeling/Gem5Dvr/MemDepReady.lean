/-
  When a memory instruction is handed out (`cpu/o3/mem_dep_unit.cc` 157-376).

    1. Insertions keep the invariant: the producers that are found are older than the instruction.
    2. `inv_step`: a call keeps the invariant, and hands out an instruction given to `insert` only
       when it waits for nothing, has its registers and is not squashed.
    3. `ready_when_done`: what "waits for nothing" comes to.  The sources of producers form an
       if-else chain, so that the predictor is not asked behind an outstanding barrier.
-/
import Gem5Dvr.MemDepRun

namespace Gem5Dvr.MemDep

open List Function
open Option (bind_eq_some_iff map_eq_some_iff)

namespace Run

variable {σ : Type} {P : DepPred σ} {r r' : Run σ}

variable {inst : DynInst} {ev : Event} {evs : List Event} {i : Inserted}

/-! ## Insertions -/

/-- What the predictor knows after an insertion. -/
theorem known_inserted {p p' : σ} (h : p' = p ∨ (inst.isStore || inst.isAtomic) = true ∧
      p' = P.insertStore p inst.pc inst.seqNum) (m : Nat) (hm : P.known p' m) :
    P.known p m ∨ m = inst.seqNum ∧ inst.hasDependents = true := by
  rcases h with rfl | ⟨hstore, rfl⟩
  · exact Or.inl hm
  · rcases P.known_insertStore p inst.pc inst.seqNum m hm with hm | hm
    · exact Or.inl hm
    · refine Or.inr ⟨hm, ?_⟩
      rw [DynInst.hasDependents, hstore]
      rfl

/-- The producers that are found were there before, each once, and are of a kind that has
    dependents. -/
theorem Inv.store_entries (h : Inv P r) (hlt : r.youngest < inst.seqNum) :
    ((r.unit.newEntry inst).store_entries P inst).Nodup ∧
      ∀ p ∈ (r.unit.newEntry inst).store_entries P inst, p ∈ r.unit.memDepHash ∧
        ∃ f, r.unit.heap p = some f ∧ f.inst.hasDependents = true := by
  have hload : ∀ f : MemDepEntry, f.inst.loadBarrier = true → f.inst.hasDependents = true := by
    intro f hf
    rcases Bool.or_eq_true _ _ ▸ hf with hf | hf
    · simp [DynInst.hasDependents, hf]
    · simp [DynInst.hasDependents, hf]
  have hstore : ∀ f : MemDepEntry, f.inst.storeBarrier = true → f.inst.hasDependents = true := by
    intro f hf
    rcases Bool.or_eq_true _ _ ▸ hf with hf | hf
    · simp [DynInst.hasDependents, hf]
    · simp [DynInst.hasDependents, hf]
  unfold MemDepUnit.store_entries MemDepUnit.producing_stores
  split
  · refine ⟨h.loads.1.filter _, fun p hp => ?_⟩
    obtain ⟨hmem, f, hf, hk⟩ := (h.loads.2 p).mp (mem_filter.mp hp).1
    exact ⟨hmem, f, hf, hload f hk⟩
  · split
    · refine ⟨h.stores.1.filter _, fun p hp => ?_⟩
      obtain ⟨hmem, f, hf, hk⟩ := (h.stores.2 p).mp (mem_filter.mp hp).1
      exact ⟨hmem, f, hf, hstore f hk⟩
    · dsimp only
      split
      · rename_i hne
        refine ⟨(pairwise_singleton _ _).filter _, fun p hp => ?_⟩
        obtain ⟨hp, hmem⟩ := mem_filter.mp hp
        obtain rfl := mem_singleton.mp hp
        -- what the predictor answers is older than the instruction
        obtain ⟨f, hf, hk⟩ := h.known _ (P.known_checkInst _ _ hne)
        have hold := h.young _ f hf
        refine ⟨?_, f, hf, hk⟩
        have hmem := of_decide_eq_true hmem
        rcases mem_cons.mp hmem with heq | hmem
        · exact absurd (heq ▸ hold) (Nat.not_le.mpr hlt)
        · exact hmem
      · exact ⟨nodup_nil, fun p hp => absurd hp not_mem_nil⟩

/-- The record tells the producers. -/
theorem Inv.record_chain (h : Inv P r) (hlt : r.youngest < inst.seqNum) :
    (r.record P inst).producers = (r.record P inst).chain := by
  have hfound : ∀ {sns : List Nat}, (∀ m ∈ sns, m ∈ r.unit.memDepHash) →
      (sns.filter fun n => n ∈ inst.seqNum :: r.unit.memDepHash) = sns := fun hsns =>
    filter_eq_self.mpr fun m hm => decide_eq_true (mem_cons_of_mem _ (hsns m hm))
  show ((r.unit.newEntry inst).producing_stores P inst).filter
    (fun n => n ∈ inst.seqNum :: r.unit.memDepHash) = _
  show List.filter _ (if ((inst.isLoad || inst.isAtomic) && !r.unit.loadBarrierSNs.isEmpty) = true
    then r.unit.loadBarrierSNs
    else if ((inst.isStore || inst.isAtomic) && !r.unit.storeBarrierSNs.isEmpty) = true
    then r.unit.storeBarrierSNs else _) = if ((inst.isLoad || inst.isAtomic) &&
      !r.unit.loadBarrierSNs.isEmpty) = true then r.unit.loadBarrierSNs
    else if ((inst.isStore || inst.isAtomic) && !r.unit.storeBarrierSNs.isEmpty) = true
    then r.unit.storeBarrierSNs else _
  split
  · exact hfound fun m hm => ((h.loads.2 m).mp hm).1
  · split
    · exact hfound fun m hm => ((h.stores.2 m).mp hm).1
    · show (if P.checkInst r.unit.depPred inst.pc ≠ 0 then [P.checkInst r.unit.depPred inst.pc]
        else []).filter _ = if P.checkInst r.unit.depPred inst.pc ≠ 0 ∧
          decide (P.checkInst r.unit.depPred inst.pc ∈ r.unit.memDepHash) = true then
            [P.checkInst r.unit.depPred inst.pc] else []
      generalize hdep : P.checkInst r.unit.depPred inst.pc = dep
      by_cases hz : dep = 0
      · simp [hz]
      · have hknown := P.known_checkInst r.unit.depPred inst.pc
        rw [hdep] at hknown
        obtain ⟨f, hf, -⟩ := h.known dep (hknown hz)
        have hne : dep ≠ inst.seqNum := by
          have hold := h.young dep f hf
          omega
        by_cases hmem : dep ∈ r.unit.memDepHash
        · simp [hz, hmem]
        · simp [hz, hne, hmem]

theorem inv_insert {u : MemDepUnit σ} (h : Inv P r)
    (hlt : r.youngest < inst.seqNum) (hstep : r.unit.insert P inst = some u) :
    let r' : Run σ := { r with
      unit := u
      youngest := inst.seqNum
      inserted := update r.inserted inst.seqNum (some (r.record P inst)) }
    Inv P r' ∧ HandedOk r r' := by
  obtain ⟨hnd, hst⟩ := h.store_entries hlt
  have hself : inst.seqNum ∉ (r.unit.newEntry inst).store_entries P inst := by
    intro hmem
    obtain ⟨-, f, hf, -⟩ := hst _ hmem
    exact Nat.not_lt.mpr (h.young _ f hf) hlt
  obtain ⟨e, ha, -, hready, hpred⟩ := MemDepUnit.insert_spec hnd hself hstep
  have hrec : update r.inserted inst.seqNum (some (r.record P inst)) inst.seqNum =
      some (r.record P inst) := update_self ..
  refine ⟨h.added hlt ha hnd hst (known_inserted hpred) (fun m hm => update_of_ne hm _ _) ?_ ?_, ?_⟩
  · rw [hrec]
    rfl
  · intro i hi
    obtain rfl := Option.some.inj (hrec.symm.trans hi)
    exact ⟨rfl, rfl, h.record_chain hlt⟩
  · intro m hm hnot _
    have hm : m ∈ u.readyMemInsts := hm
    rcases hready with hready | ⟨hzero, hregs, hready⟩
    · exact absurd (hready ▸ hm) hnot
    · rw [hready] at hm
      rcases mem_append.mp hm with hm | hm
      · exact absurd hm hnot
      · rw [mem_singleton.mp hm]
        exact ⟨e, ha.self, hzero, hregs, ha.fresh.2.2⟩

/-- A barrier, or an instruction that does not speculate. -/
theorem inv_barrier {u : MemDepUnit σ} (h : Inv P r) (hlt : r.youngest < inst.seqNum)
    (hu : u = { r.unit.insertBarrier inst with depPred := u.depPred })
    (hpred : u.depPred = r.unit.depPred ∨ (inst.isStore || inst.isAtomic) = true ∧
      u.depPred = P.insertStore r.unit.depPred inst.pc inst.seqNum) :
    Inv P { r with unit := u, youngest := inst.seqNum } ∧
      HandedOk r { r with unit := u, youngest := inst.seqNum } := by
  obtain ⟨ha, hready, -⟩ := MemDepUnit.insertBarrier_spec (u := r.unit) inst
  have hfresh : r.inserted inst.seqNum = none := by
    cases hi : r.inserted inst.seqNum with
    | none => rfl
    | some i =>
      obtain ⟨f, hf⟩ := h.entry _ i hi
      exact absurd (h.young _ f hf) (Nat.not_le.mpr hlt)
  refine ⟨h.added hlt (ha.of_depPred hu) nodup_nil (fun p hp => absurd hp not_mem_nil)
    (known_inserted hpred) (fun m _ => rfl) ?_ ?_, ?_⟩
  · rw [hfresh]
    rfl
  · intro i hi
    exact nomatch hfresh.symm.trans hi
  · intro m hm hnot _
    have hm : m ∈ u.readyMemInsts := hm
    rw [hu] at hm
    exact absurd hm hnot

/-! ## A step, and a run -/

theorem inv_step (h : Inv P r) (hstep : r.step P ev = some r') : Inv P r' ∧ HandedOk r r' := by
  cases ev with
  | insert inst =>
    simp only [step] at hstep
    split at hstep
    · rename_i hlt
      obtain ⟨u, hu, rfl⟩ := map_eq_some_iff.mp hstep
      exact inv_insert h hlt hu
    · cases hstep
  | insertNonSpec inst =>
    simp only [step] at hstep
    split at hstep
    · rename_i hlt
      obtain ⟨u, hu, rfl⟩ := map_eq_some_iff.mp hstep
      obtain ⟨heq, hpred⟩ := MemDepUnit.insertStore_spec hu
      exact inv_barrier h hlt heq hpred
    · cases hstep
  | insertBarrier inst =>
    simp only [step] at hstep
    split at hstep
    · rename_i hlt
      cases hstep
      exact inv_barrier h hlt rfl (Or.inl rfl)
    · cases hstep
  | regsReady n =>
    obtain ⟨u, hu, rfl⟩ := map_eq_some_iff.mp hstep
    exact inv_regsReady h hu
  | nonSpecInstReady n =>
    simp only [step] at hstep
    split at hstep
    · rename_i hnone
      obtain ⟨u, hu, rfl⟩ := map_eq_some_iff.mp hstep
      exact inv_nonSpecInstReady h (Option.isNone_iff_eq_none.mp hnone) hu
    · cases hstep
  | completeInst n =>
    obtain ⟨e, hfind, hstep⟩ := bind_eq_some_iff.mp hstep
    obtain ⟨u, hu, rfl⟩ := map_eq_some_iff.mp hstep
    exact inv_completeInst h hfind hu
  | squash num =>
    obtain ⟨u, hu, rfl⟩ := map_eq_some_iff.mp hstep
    exact inv_squash h hu
  | violation store_pc load_pc =>
    cases hstep
    refine ⟨h.same (g := fun _ e => e) (fun m => Option.map_id'.symm)
      (fun m e => ⟨rfl, rfl, rfl, rfl⟩) rfl rfl rfl rfl rfl rfl rfl
      (P.known_violation _ store_pc load_pc), fun m hm hnot _ => absurd hm hnot⟩
  | issue n =>
    obtain ⟨e, -, rfl⟩ := map_eq_some_iff.mp hstep
    refine ⟨h.same (g := fun _ e => e) (fun m => Option.map_id'.symm)
      (fun m e => ⟨rfl, rfl, rfl, rfl⟩) rfl rfl rfl rfl rfl rfl rfl
      (P.known_issued _ e.inst.pc n e.inst.isStore), fun m hm hnot _ => absurd hm hnot⟩

theorem inv_runs (h : Trace.runs (step P) (init P) evs = some r) : Inv P r :=
  Trace.runs_invariant (Inv P) (fun _ _ _ hi hs => (inv_step hi hs).1) inv_init h

/-! ## The registers of an entry -/

/-- An entry has its registers when it could issue at its insertion, or by `regsReady`. -/
def RegsKnown (evs : List Event) (r : Run σ) : Prop :=
  ∀ n e i, r.unit.heap n = some e → e.regsReady = true → r.inserted n = some i →
    i.inst.canIssue = true ∨ Event.regsReady n ∈ evs

/-- The entries of a call that inserts nothing. -/
theorem regs_frame (h : RegsKnown evs r) (hins : r'.inserted = r.inserted)
    (hregs : ∀ n e', r'.unit.heap n = some e' → e'.regsReady = true →
      ev = .regsReady n ∨ ∃ e, r.unit.heap n = some e ∧ e.regsReady = true) :
    RegsKnown (evs ++ [ev]) r' := by
  intro n e' i he' hr hi
  rw [hins] at hi
  rcases hregs n e' he' hr with rfl | ⟨e, he, hre⟩
  · exact Or.inr (mem_append_right evs mem_cons_self)
  · exact (h n e i he hre hi).imp_right fun hmem => mem_append_left _ hmem

/-- The entries of a call that inserts. -/
theorem regs_added {u : MemDepUnit σ}
    {stores : List Nat} {e : MemDepEntry} {ins : Nat → Option Inserted} (h : RegsKnown evs r)
    (ha : MemDepUnit.Added r.unit u inst stores e)
    (hins : ∀ m, m ≠ inst.seqNum → ins m = r.inserted m)
    (hself : e.regsReady = true → ∀ i, ins inst.seqNum = some i → i.inst.canIssue = true) :
    RegsKnown (evs ++ [ev])
      { unit := u, youngest := inst.seqNum, completed := r.completed, inserted := ins } := by
  intro n e' i he' hr hi
  have he' : u.heap n = some e' := he'
  by_cases hn : n = inst.seqNum
  · subst hn
    obtain rfl := Option.some.inj (ha.self.symm.trans he')
    exact Or.inl (hself hr i hi)
  · rw [ha.others n hn] at he'
    obtain ⟨f, hf, rfl⟩ := map_eq_some_iff.mp he'
    have hfr : f.regsReady = true := by
      by_cases hm : n ∈ stores
      · simpa [hm] using hr
      · simpa [hm] using hr
    exact (h n f i hf hfr ((hins n hn).symm.trans hi)).imp_right fun hmem =>
      mem_append_left _ hmem

theorem regs_step (hinv : Inv P r) (h : RegsKnown evs r)
    (hstep : r.step P ev = some r') : RegsKnown (evs ++ [ev]) r' := by
  cases ev with
  | insert inst =>
    simp only [step] at hstep
    split at hstep
    · rename_i hlt
      obtain ⟨u, hu, rfl⟩ := map_eq_some_iff.mp hstep
      obtain ⟨hnd, hst⟩ := hinv.store_entries hlt
      have hself : inst.seqNum ∉ (r.unit.newEntry inst).store_entries P inst := by
        intro hmem
        obtain ⟨-, f, hf, -⟩ := hst _ hmem
        exact Nat.not_lt.mpr (hinv.young _ f hf) hlt
      obtain ⟨e, ha, hregs, -⟩ := MemDepUnit.insert_spec hnd hself hu
      refine regs_added h ha (fun m hm => update_of_ne hm _ _) fun hr i hi => ?_
      rw [update_self] at hi
      obtain rfl := Option.some.inj hi
      exact hregs.symm.trans hr
    · cases hstep
  | insertNonSpec inst =>
    simp only [step] at hstep
    split at hstep
    · rename_i hlt
      obtain ⟨u, hu, rfl⟩ := map_eq_some_iff.mp hstep
      obtain ⟨heq, -⟩ := MemDepUnit.insertStore_spec hu
      refine regs_added h ((MemDepUnit.insertBarrier_spec inst).1.of_depPred heq)
        (fun m _ => rfl) ?_
      exact fun hr => nomatch hr
    · cases hstep
  | insertBarrier inst =>
    simp only [step] at hstep
    split at hstep
    · cases hstep
      refine regs_added h (MemDepUnit.insertBarrier_spec inst).1 (fun m _ => rfl) ?_
      exact fun hr => nomatch hr
    · cases hstep
  | regsReady n =>
    obtain ⟨u, hu, rfl⟩ := map_eq_some_iff.mp hstep
    have hheap : u.heap = (r.unit.setEntry n fun e => { e with regsReady := true }).heap := by
      obtain ⟨e, -, hu⟩ := bind_eq_some_iff.mp hu
      split at hu
      · rw [(moveToReady_cases hu).1]
      · cases hu
        rfl
    refine regs_frame h rfl fun m e' he' hr => ?_
    have he' : u.heap m = some e' := he'
    rw [hheap, MemDepUnit.setEntry_heap] at he'
    split at he'
    · rename_i hm
      exact Or.inl (by rw [hm])
    · exact Or.inr ⟨e', he', hr⟩
  | nonSpecInstReady n =>
    simp only [step] at hstep
    split at hstep
    · obtain ⟨u, hu, rfl⟩ := map_eq_some_iff.mp hstep
      obtain ⟨e, -, hu⟩ := bind_eq_some_iff.mp hu
      obtain ⟨rfl, -⟩ := moveToReady_cases hu
      exact regs_frame h rfl fun m e' he' hr => Or.inr ⟨e', he', hr⟩
    · cases hstep
  | completeInst n =>
    obtain ⟨e, hfind, hstep⟩ := bind_eq_some_iff.mp hstep
    obtain ⟨u, hu, rfl⟩ := map_eq_some_iff.mp hstep
    obtain ⟨v, hv, hc⟩ := completeInst_ok hinv hfind
    obtain rfl : v = u := Option.some.inj (hv.symm.trans hu)
    refine regs_frame h rfl fun m e' he' hr => Or.inr ?_
    have he' : v.heap m = some e' := he'
    rw [hc.heap] at he'
    obtain ⟨f, hf, rfl⟩ := map_eq_some_iff.mp he'
    refine ⟨f, hf, ?_⟩
    unfold MemDepUnit.wakeFrom MemDepUnit.lower at hr
    by_cases hm : m = n
    · by_cases hd : m ∈ e.dependInsts
      · simpa [hm, hm ▸ hd] using hr
      · simpa [hm, hm ▸ hd] using hr
    · by_cases hd : m ∈ e.dependInsts
      · simpa [hm, hd] using hr
      · simpa [hm, hd] using hr
  | squash num =>
    obtain ⟨u, hu, rfl⟩ := map_eq_some_iff.mp hstep
    obtain ⟨v, hv, hu⟩ := bind_eq_some_iff.mp hu
    obtain ⟨pred, -, rfl⟩ := map_eq_some_iff.mp hu
    have hs := MemDepUnit.squashLoop_spec (pairwise_reverse.mpr hinv.sorted) hv
    refine regs_frame h rfl fun m e' he' hr => Or.inr ?_
    have he' : v.heap m = some e' := he'
    rw [hs.heap] at he'
    obtain ⟨f, hf, rfl⟩ := map_eq_some_iff.mp he'
    refine ⟨f, hf, ?_⟩
    unfold MemDepUnit.squashFrom at hr
    split at hr
    · exact hr
    · exact hr
  | violation store_pc load_pc =>
    cases hstep
    exact regs_frame h rfl fun m e' he' hr => Or.inr ⟨e', he', hr⟩
  | issue n =>
    obtain ⟨e, -, rfl⟩ := map_eq_some_iff.mp hstep
    exact regs_frame h rfl fun m e' he' hr => Or.inr ⟨e', he', hr⟩

theorem regs_runs {pre : List Event} (hi : Inv P r) (h : RegsKnown pre r)
    (hrun : Trace.runs (step P) r evs = some r') : RegsKnown (pre ++ evs) r' := by
  induction evs generalizing r pre with
  | nil =>
    cases hrun
    rw [append_nil]
    exact h
  | cons ev evs ih =>
    obtain ⟨s, hs, hrest⟩ := bind_eq_some_iff.mp hrun
    have hall := ih (inv_step hi hs).1 (regs_step hi h hs) hrest
    rwa [append_assoc] at hall

/-! ## What is handed out -/

/-- Of what waits for nothing, every recorded producer has completed. -/
theorem done_of_waits_none {n : Nat} (h : r.waitsFor n = 0) :
    ∀ p ∈ r.producers n, p ∈ r.completed := by
  intro p hp
  by_contra hc
  have hpos : 0 < r.waitsFor n := countP_pos_iff.mpr ⟨p, hp, decide_eq_true hc⟩
  omega

/-- The first source of producers. -/
theorem chain_loads (h : (i.inst.isLoad || i.inst.isAtomic) = true) :
    ∀ b ∈ i.loadBarriers, b ∈ i.chain := by
  intro b hb
  unfold Inserted.chain
  rw [if_pos]
  · exact hb
  · simpa [h] using ne_nil_of_mem hb

/-- The second is asked when the first has none. -/
theorem chain_stores (h : (i.inst.isStore || i.inst.isAtomic) = true)
    (hfirst : (i.inst.isLoad || i.inst.isAtomic) = true → i.loadBarriers = []) :
    ∀ b ∈ i.storeBarriers, b ∈ i.chain := by
  intro b hb
  unfold Inserted.chain
  rw [if_neg, if_pos]
  · exact hb
  · simpa [h] using ne_nil_of_mem hb
  · intro hor
    obtain ⟨hl, hne⟩ := Bool.and_eq_true _ _ ▸ hor
    rw [hfirst hl] at hne
    exact nomatch hne

/-- The predictor is asked when neither has any. -/
theorem chain_predicted (hloads : (i.inst.isLoad || i.inst.isAtomic) = true → i.loadBarriers = [])
    (hstores : (i.inst.isStore || i.inst.isAtomic) = true → i.storeBarriers = [])
    (hz : i.predicted ≠ 0) (ht : i.tracked = true) : i.predicted ∈ i.chain := by
  unfold Inserted.chain
  rw [if_neg, if_neg, if_pos ⟨hz, ht⟩]
  · exact mem_cons_self
  · intro hor
    obtain ⟨hs, hne⟩ := Bool.and_eq_true _ _ ▸ hor
    rw [hstores hs] at hne
    exact nomatch hne
  · intro hor
    obtain ⟨hl, hne⟩ := Bool.and_eq_true _ _ ▸ hor
    rw [hloads hl] at hne
    exact nomatch hne

/-- In every run, an instruction given to `insert` is handed out when it has its registers and is
    not squashed, and what it was recorded to wait for has completed.  The barriers that order it
    have (the write barriers of an atomic, when no read barrier was outstanding), and so has the
    producer the predictor told, when it was asked.  `memDeps` is the number of the recorded
    producers that have not completed, and no completion fails the assertion on it. -/
theorem ready_when_done {evs : List Event} {ev : Event}
    (hrun : Trace.runs (step P) (init P) evs = some r) (hstep : r.step P ev = some r') :
    (∀ n i, n ∈ r'.unit.readyMemInsts → n ∉ r.unit.readyMemInsts → r'.inserted n = some i →
      (∃ e, r'.unit.heap n = some e ∧ e.regsReady = true ∧ e.squashed = false) ∧
      (i.inst.canIssue = true ∨ Event.regsReady n ∈ evs ++ [ev]) ∧
      ((i.inst.isLoad || i.inst.isAtomic) = true → r'.BarriersDone n DynInst.loadBarrier) ∧
      ((i.inst.isStore || i.inst.isAtomic) = true →
        ((i.inst.isLoad || i.inst.isAtomic) = true → i.loadBarriers = []) →
        r'.BarriersDone n DynInst.storeBarrier) ∧
      (((i.inst.isLoad || i.inst.isAtomic) = true → i.loadBarriers = []) →
        ((i.inst.isStore || i.inst.isAtomic) = true → i.storeBarriers = []) →
        i.predicted ≠ 0 → i.tracked = true → i.predicted ∈ r'.completed)) ∧
    (∀ d e, r'.unit.heap d = some e → e.memDeps = r'.waitsFor d) ∧
    ∀ n e, r'.unit.findInHash n = some e → (r'.unit.completeInst e.inst).isSome = true := by
  have hinv := inv_runs hrun
  obtain ⟨hinv', hok⟩ := inv_step hinv hstep
  have hpre : RegsKnown ([] ++ evs) r := regs_runs inv_init (fun n e i he => nomatch he) hrun
  have hregs : RegsKnown (evs ++ [ev]) r' := regs_step hinv hpre hstep
  refine ⟨fun n i hn hnot hi => ?_, hinv'.memDeps, fun n e hfind => ?_⟩
  · obtain ⟨e, he, hzero, hreg, hsq⟩ := hok n hn hnot (by rw [hi]; exact fun h => nomatch h)
    have hdone := done_of_waits_none ((hinv'.memDeps n e he).symm.trans hzero)
    rw [Run.producers, hi] at hdone
    have hord := hinv'.ordered n i hi
    have hchain : ∀ p ∈ i.chain, p ∈ r'.completed := by
      rw [← hord.chain]
      exact hdone
    refine ⟨⟨e, he, hreg, hsq⟩, hregs n e i he hreg hi, fun hl b f hb hf hk => ?_,
      fun hs hfirst b f hb hf hk => ?_, fun hl hs hz ht => ?_⟩
    · rcases hord.loads b f hb hf hk with hd | hd | hd
      · exact Or.inl hd
      · exact Or.inr hd
      · exact Or.inr (hchain b (chain_loads hl b hd))
    · rcases hord.stores b f hb hf hk with hd | hd | hd
      · exact Or.inl hd
      · exact Or.inr hd
      · exact Or.inr (hchain b (chain_stores hs hfirst b hd))
    · exact hchain _ (chain_predicted hl hs hz ht)
  · obtain ⟨u, hu, -⟩ := completeInst_ok hinv' hfind
    rw [hu]
    rfl

end Run

end Gem5Dvr.MemDep
