/-
  Runs of the memory dependence unit (`cpu/o3/mem_dep_unit.cc` 157-610).

    1. What each loop of the unit does to the entries.
    2. `Run`: the calls of a thread, in program order of the instructions, and what is recorded of
       them: which instructions completed, and for one given to `insert` the barriers outstanding
       then, the answer of the predictor and the entries found.
    3. The crux: `memDeps` of an entry is the number of its recorded producers that have not
       completed.  A producer that is in the hash has on its list just the entries it was recorded
       for, each once; one that is squashed takes all its dependents along.
-/
import Mathlib.Data.List.Nodup
import Gem5Dvr.Lib.Trace
import Gem5Dvr.MemDepUnit

namespace Gem5Dvr.MemDep

open List Function
open Option (bind_eq_some_iff bind_some map_eq_some_iff)

namespace MemDepUnit

variable {σ : Type} {P : DepPred σ} {u u' : MemDepUnit σ}

/-! ## What the loops do -/

@[simp] theorem setEntry_heap (n : Nat) (f : MemDepEntry → MemDepEntry) (m : Nat) :
    (u.setEntry n f).heap m = if m = n then (u.heap m).map f else u.heap m := by
  by_cases h : m = n
  · subst h
    simp [setEntry]
  · simp [setEntry, h]

/-- Two units that differ in their entries and in what was handed out. -/
structure SameRest (u u' : MemDepUnit σ) : Prop where
  memDepHash : u'.memDepHash = u.memDepHash
  instList : u'.instList = u.instList
  loadBarrierSNs : u'.loadBarrierSNs = u.loadBarrierSNs
  storeBarrierSNs : u'.storeBarrierSNs = u.storeBarrierSNs
  depPred : u'.depPred = u.depPred

theorem SameRest.refl (u : MemDepUnit σ) : SameRest u u := ⟨rfl, rfl, rfl, rfl, rfl⟩

theorem SameRest.trans {u'' : MemDepUnit σ} (h : SameRest u u') (h' : SameRest u' u'') :
    SameRest u u'' :=
  ⟨h'.1.trans h.1, h'.2.trans h.2, h'.3.trans h.3, h'.4.trans h.4, h'.5.trans h.5⟩

variable {n : Nat} {e : MemDepEntry} {inst : DynInst}

theorem moveToReady_spec (he : u.heap n = some e) (hs : e.squashed = false) :
    u.moveToReady n = some { u with readyMemInsts := u.readyMemInsts ++ [n] } := by
  rw [moveToReady, he]
  simp [hs]

/-- The pushes of `addDependent`. -/
theorem pushes_spec (n : Nat) : ∀ {stores : List Nat}, stores.Nodup → ∀ u : MemDepUnit σ,
    SameRest u (stores.foldl (fun u store => u.setEntry store fun e =>
        { e with dependInsts := e.dependInsts ++ [n] }) u) ∧
      (stores.foldl (fun u store => u.setEntry store fun e =>
        { e with dependInsts := e.dependInsts ++ [n] }) u).readyMemInsts = u.readyMemInsts ∧
      ∀ m, (stores.foldl (fun u store => u.setEntry store fun e =>
        { e with dependInsts := e.dependInsts ++ [n] }) u).heap m =
          if m ∈ stores then (u.heap m).map fun e => { e with dependInsts := e.dependInsts ++ [n] }
          else u.heap m := by
  intro stores
  induction stores with
  | nil => exact fun _ u => ⟨SameRest.refl u, rfl, fun m => by simp⟩
  | cons store rest ih =>
    intro hnd u
    obtain ⟨hnot, hnd⟩ := nodup_cons.mp hnd
    obtain ⟨hrest, hready, hheap⟩ := ih hnd (u.setEntry store fun e =>
      { e with dependInsts := e.dependInsts ++ [n] })
    refine ⟨⟨hrest.1, hrest.2, hrest.3, hrest.4, hrest.5⟩, hready, fun m => ?_⟩
    rw [foldl_cons, hheap m, setEntry_heap]
    by_cases hm : m = store
    · subst hm
      simp [hnot]
    · simp [hm]

/-- What `addDependent` makes of an entry. -/
def dependOn (n : Nat) (stores : List Nat) (m : Nat) (e : MemDepEntry) : MemDepEntry :=
  let e := if m ∈ stores then { e with dependInsts := e.dependInsts ++ [n] } else e
  if m = n then
    { e with
      regsReady := e.inst.canIssue
      inst := { e.inst with canIssue := false }
      memDeps := stores.length }
  else e

theorem addDependent_spec {stores : List Nat} (hnd : stores.Nodup) :
    SameRest u (u.addDependent n stores) ∧
      (u.addDependent n stores).readyMemInsts = u.readyMemInsts ∧
      ∀ m, (u.addDependent n stores).heap m = (u.heap m).map (dependOn n stores m) := by
  obtain ⟨hrest, hready, hheap⟩ := pushes_spec n hnd u
  refine ⟨hrest.trans ⟨rfl, rfl, rfl, rfl, rfl⟩, hready, fun m => ?_⟩
  unfold addDependent dependOn
  rw [setEntry_heap, hheap]
  cases u.heap m with
  | none => simp
  | some e =>
    by_cases hn : m = n
    · by_cases hm : m ∈ stores
      · simp [hn, hn ▸ hm]
      · simp [hn, hn ▸ hm]
    · by_cases hm : m ∈ stores
      · simp [hn, hm]
      · simp [hn, hm]

/-- What waking makes of an entry. -/
def lower (ds : List Nat) (m : Nat) (e : MemDepEntry) : MemDepEntry :=
  if m ∈ ds then { e with memDeps := e.memDeps - 1 } else e

/-- Waking entries that all wait for something: it has a result, and hands out some of them, each
    with nothing left to wait for. -/
theorem wake_spec : ∀ {ds : List Nat}, ds.Nodup → ∀ {u : MemDepUnit σ},
    (∀ d ∈ ds, ∃ e, u.heap d = some e ∧ 0 < e.memDeps) → ∃ u', wake ds u = some u' ∧ SameRest u u' ∧
        (∀ m, u'.heap m = (u.heap m).map (lower ds m)) ∧
        ∃ out, u'.readyMemInsts = u.readyMemInsts ++ out ∧ ∀ d ∈ out, d ∈ ds ∧
          ∃ e, u'.heap d = some e ∧ e.memDeps = 0 ∧ e.regsReady = true ∧ e.squashed = false := by
  intro ds
  induction ds with
  | nil =>
    intro _ u _
    refine ⟨u, rfl, SameRest.refl u, fun m => ?_, [], (append_nil _).symm, nofun⟩
    cases u.heap m <;> simp [lower]
  | cons d ds ih =>
    intro hnd u hpos
    obtain ⟨hnot, hnd⟩ := nodup_cons.mp hnd
    obtain ⟨e, he, hlt⟩ := hpos d mem_cons_self
    let v := u.setEntry d fun e => { e with memDeps := e.memDeps - 1 }
    -- the entries after it are not touched by the first
    have hne : ∀ c ∈ ds, c ≠ d := fun c hc heq => hnot (heq ▸ hc)
    have hv : v.heap d = some { e with memDeps := e.memDeps - 1 } := by
      simp [v, he]
    have hheap : ∀ m, (v.heap m).map (lower ds m) = (u.heap m).map (lower (d :: ds) m) := by
      intro m
      by_cases hm : m = d
      · subst hm
        simp [v, lower, hnot, he]
      · have hlower : lower ds m = lower (d :: ds) m := by
          funext e
          simp [lower, hm]
        simp [v, hlower, hm]
    have hposv : ∀ w : MemDepUnit σ, w.heap = v.heap →
        ∀ c ∈ ds, ∃ e, w.heap c = some e ∧ 0 < e.memDeps := by
      intro w hw c hc
      obtain ⟨f, hf, hfpos⟩ := hpos c (mem_cons_of_mem d hc)
      exact ⟨f, by rw [hw, setEntry_heap, if_neg (hne c hc), hf], hfpos⟩
    have hlast : ∀ {u' : MemDepUnit σ}, (∀ m, u'.heap m = (v.heap m).map (lower ds m)) →
        u'.heap d = some { e with memDeps := e.memDeps - 1 } := by
      intro u' hu'
      rw [hu', hv]
      simp [lower, hnot]
    rw [wake, he]
    simp only [bind_some, if_neg (Nat.pos_iff_ne_zero.mp hlt)]
    split
    · rename_i hready
      let w : MemDepUnit σ := { v with readyMemInsts := v.readyMemInsts ++ [d] }
      obtain ⟨u', hu', hrest, hall, out, hout, hgood⟩ := ih hnd (hposv w rfl)
      refine ⟨u', ?_, ⟨hrest.1, hrest.2, hrest.3, hrest.4, hrest.5⟩, fun m => ?_, d :: out, ?_, ?_⟩
      · rw [moveToReady_spec (u := v) hv hready.2.2]
        exact hu'
      · rw [hall, ← hheap]
      · rw [hout]
        exact append_assoc _ [d] out
      · intro c hc
        rcases mem_cons.mp hc with rfl | hc
        · exact ⟨mem_cons_self, _, hlast hall, hready.1, hready.2.1, hready.2.2⟩
        · exact ⟨mem_cons_of_mem d (hgood c hc).1, (hgood c hc).2⟩
    · obtain ⟨u', hu', hrest, hall, out, hout, hgood⟩ := ih hnd (hposv v rfl)
      refine ⟨u', hu', ⟨hrest.1, hrest.2, hrest.3, hrest.4, hrest.5⟩, fun m => ?_, out, hout, ?_⟩
      · rw [hall, ← hheap]
      · exact fun c hc => ⟨mem_cons_of_mem d (hgood c hc).1, (hgood c hc).2⟩

/-! ## What each call does -/

/-- Instructions that differ in being able to issue only. -/
def SameKind (a b : DynInst) : Prop := { a with canIssue := false } = { b with canIssue := false }

theorem SameKind.fields {a b : DynInst} (h : SameKind a b) :
    a.seqNum = b.seqNum ∧ a.loadBarrier = b.loadBarrier ∧ a.storeBarrier = b.storeBarrier ∧
      a.hasDependents = b.hasDependents := by
  obtain ⟨⟩ := b
  obtain ⟨rfl, rfl, rfl, rfl, rfl, rfl, rfl, rfl, -⟩ := h
  exact ⟨rfl, rfl, rfl, rfl⟩

/-- What an insertion leaves: a new entry `e` at `n` in the hash, with no dependents, and `n` at the
    end of the lists of dependents of `stores`. -/
structure Added (u u' : MemDepUnit σ) (inst : DynInst) (stores : List Nat) (e : MemDepEntry) :
    Prop where
  self : u'.heap inst.seqNum = some e
  others : ∀ m, m ≠ inst.seqNum → u'.heap m = (u.heap m).map fun f =>
    if m ∈ stores then { f with dependInsts := f.dependInsts ++ [inst.seqNum] } else f
  kind : SameKind e.inst inst
  fresh : e.dependInsts = [] ∧ e.memDeps = stores.length ∧ e.squashed = false
  memDepHash : u'.memDepHash = inst.seqNum :: u.memDepHash
  instList : u'.instList = u.instList ++ [inst.seqNum]
  loadBarrierSNs : u'.loadBarrierSNs = if inst.loadBarrier then
    u.loadBarrierSNs.insert inst.seqNum else u.loadBarrierSNs
  storeBarrierSNs : u'.storeBarrierSNs = if inst.storeBarrier then
    u.storeBarrierSNs.insert inst.seqNum else u.storeBarrierSNs

theorem insertStore_spec (h : u.insertStore P inst = some u') :
    u' = { u with depPred := u'.depPred } ∧
      (u'.depPred = u.depPred ∨ (inst.isStore || inst.isAtomic) = true ∧
        u'.depPred = P.insertStore u.depPred inst.pc inst.seqNum) := by
  unfold MemDepUnit.insertStore at h
  split at h
  · rename_i hstore
    cases h
    exact ⟨rfl, Or.inr ⟨hstore, rfl⟩⟩
  · split at h
    · cases h
      exact ⟨rfl, Or.inl rfl⟩
    · cases h

theorem insertBarrier_spec (inst : DynInst) :
    Added u (u.insertBarrier inst) inst [] { inst := inst } ∧
      (u.insertBarrier inst).readyMemInsts = u.readyMemInsts ∧
      (u.insertBarrier inst).depPred = u.depPred := by
  refine ⟨⟨?_, fun m hm => ?_, rfl, ⟨rfl, rfl, rfl⟩, rfl, rfl, rfl, rfl⟩, rfl, rfl⟩
  · exact update_self inst.seqNum _ u.heap
  · show update u.heap inst.seqNum _ m = _
    rw [update_of_ne hm]
    cases u.heap m <;> rfl

/-- Only the predictor is told. -/
theorem Added.of_depPred {v : MemDepUnit σ} {stores : List Nat}
    (h : Added u v inst stores e) (hv : u' = { v with depPred := u'.depPred }) :
    Added u u' inst stores e := by
  rw [hv]
  exact ⟨h.self, h.others, h.kind, h.fresh, h.memDepHash, h.instList, h.loadBarrierSNs,
    h.storeBarrierSNs⟩

/-- `insert`, on producers that are older than the instruction. -/
theorem insert_spec (hnd : ((u.newEntry inst).store_entries P inst).Nodup)
    (hself : inst.seqNum ∉ (u.newEntry inst).store_entries P inst)
    (h : u.insert P inst = some u') :
    ∃ e, Added u u' inst ((u.newEntry inst).store_entries P inst) e ∧ e.regsReady = inst.canIssue ∧
      (u'.readyMemInsts = u.readyMemInsts ∨ e.memDeps = 0 ∧ e.regsReady = true ∧
        u'.readyMemInsts = u.readyMemInsts ++ [inst.seqNum]) ∧
      (u'.depPred = u.depPred ∨ (inst.isStore || inst.isAtomic) = true ∧
        u'.depPred = P.insertStore u.depPred inst.pc inst.seqNum) := by
  unfold MemDepUnit.insert at h
  dsimp only at h
  generalize hstores : (u.newEntry inst).store_entries P inst = stores at *
  obtain ⟨v, hv, h⟩ := bind_eq_some_iff.mp h
  obtain ⟨hu', hpred⟩ := insertStore_spec h
  have hnew : (u.newEntry inst).heap inst.seqNum = some { inst := inst } :=
    update_self inst.seqNum _ u.heap
  have hold : ∀ m, m ≠ inst.seqNum → (u.newEntry inst).heap m = u.heap m := fun m hm =>
    update_of_ne hm _ _
  have hready : u'.readyMemInsts = v.readyMemInsts := by rw [hu']; rfl
  split at hv
  · rename_i hnil
    obtain rfl := List.isEmpty_iff.mp hnil
    have hothers : ∀ (f : MemDepEntry → MemDepEntry) m, m ≠ inst.seqNum →
        ((u.newEntry inst).setEntry inst.seqNum f).heap m = (u.heap m).map fun f =>
          if m ∈ ([] : List Nat) then { f with dependInsts := f.dependInsts ++ [inst.seqNum] }
          else f := by
      intro f m hm
      rw [setEntry_heap, if_neg hm, hold m hm]
      cases u.heap m <;> simp
    split at hv
    · rename_i hissue
      let e : MemDepEntry := { inst := inst, regsReady := true }
      have he : ((u.newEntry inst).setEntry inst.seqNum fun e => { e with regsReady := true }).heap
          inst.seqNum = some e := by
        rw [setEntry_heap, if_pos rfl, hnew]
        rfl
      rw [moveToReady_spec he rfl] at hv
      cases hv
      refine ⟨e, Added.of_depPred ?_ hu', hissue.symm, Or.inr ⟨rfl, rfl, hready⟩, hpred⟩
      exact ⟨he, hothers _, rfl, ⟨rfl, rfl, rfl⟩, rfl, rfl, rfl, rfl⟩
    · rename_i hissue
      cases hv
      refine ⟨{ inst := inst }, Added.of_depPred ?_ hu', (Bool.eq_false_iff.mpr hissue).symm,
        Or.inl hready, hpred⟩
      refine ⟨hnew, fun m hm => ?_, rfl, ⟨rfl, rfl, rfl⟩, rfl, rfl, rfl, rfl⟩
      have h := hothers id m hm
      rw [setEntry_heap, if_neg hm] at h
      exact h
  · cases hv
    obtain ⟨hrest, hr, hheap⟩ := addDependent_spec (n := inst.seqNum) (u := u.newEntry inst) hnd
    refine ⟨dependOn inst.seqNum stores inst.seqNum { inst := inst }, Added.of_depPred ?_ hu',
      ?_, Or.inl (hready.trans hr), ?_⟩
    · refine ⟨?_, fun m hm => ?_, ?_, ?_, hrest.memDepHash, hrest.instList, ?_, ?_⟩
      · exact (hheap inst.seqNum).trans (by rw [hnew]; rfl)
      · refine (hheap m).trans ?_
        rw [hold m hm]
        refine congrArg (fun g => (u.heap m).map g) ?_
        funext f
        simp [dependOn, hm]
      · simp [dependOn, hself, SameKind]
      · simp [dependOn, hself]
      · exact congrArg (fun l : List Nat => if inst.loadBarrier then l.insert inst.seqNum else l)
          hrest.loadBarrierSNs
      · exact congrArg (fun l : List Nat => if inst.storeBarrier then l.insert inst.seqNum else l)
          hrest.storeBarrierSNs
    · simp [dependOn, hself]
    · have hp : ((u.newEntry inst).addDependent inst.seqNum stores).depPred = u.depPred :=
        hrest.depPred
      rcases hpred with hpred | ⟨hstore, hpred⟩
      · exact Or.inl (hpred.trans hp)
      · refine Or.inr ⟨hstore, hpred.trans ?_⟩
        exact congrArg (fun p => P.insertStore p inst.pc inst.seqNum) hp

/-- What the completion of `n` makes of an entry. -/
def wakeFrom (n : Nat) (ds : List Nat) (m : Nat) (e : MemDepEntry) : MemDepEntry :=
  if m = n then { lower ds m e with dependInsts := [] } else lower ds m e

structure Completed (u u' : MemDepUnit σ) (e : MemDepEntry) (n : Nat) : Prop where
  heap : ∀ m, u'.heap m = (u.heap m).map (wakeFrom n e.dependInsts m)
  memDepHash : u'.memDepHash = u.memDepHash.filter fun m => m ≠ n
  instList : u'.instList = u.instList.filter fun m => m ≠ n
  loadBarrierSNs : u'.loadBarrierSNs =
    if e.inst.loadBarrier then u.loadBarrierSNs.filter fun m => m ≠ n else u.loadBarrierSNs
  storeBarrierSNs : u'.storeBarrierSNs =
    if e.inst.storeBarrier then u.storeBarrierSNs.filter fun m => m ≠ n else u.storeBarrierSNs
  depPred : u'.depPred = u.depPred
  ready : ∃ out, u'.readyMemInsts = u.readyMemInsts ++ out ∧ ∀ d ∈ out,
    ∃ f, u'.heap d = some f ∧ f.memDeps = 0 ∧ f.regsReady = true ∧ f.squashed = false

/-- `wakeDependents`, for an instruction without dependents too. -/
theorem wakeDependents_spec (hmem : n ∈ u.memDepHash)
    (he : u.heap n = some e) (hnd : e.dependInsts.Nodup)
    (hpos : ∀ d ∈ e.dependInsts, ∃ f, u.heap d = some f ∧ 0 < f.memDeps)
    (hnone : e.inst.hasDependents = false → e.dependInsts = []) :
    ∃ v, u.wakeDependents n e.inst = some v ∧ SameRest u v ∧
      (∀ m, v.heap m = (u.heap m).map (wakeFrom n e.dependInsts m)) ∧
      ∃ out, v.readyMemInsts = u.readyMemInsts ++ out ∧ ∀ d ∈ out,
        ∃ f, v.heap d = some f ∧ f.memDeps = 0 ∧ f.regsReady = true ∧ f.squashed = false := by
  unfold wakeDependents
  cases hdep : e.inst.hasDependents with
  | false =>
    refine ⟨u, rfl, SameRest.refl u, fun m => ?_, [], (append_nil _).symm, nofun⟩
    rw [hnone hdep]
    by_cases hm : m = n
    · subst hm
      have hself : { e with dependInsts := [] } = e := by
        rw [← hnone hdep]
      simp [he, wakeFrom, lower, hself]
    · cases u.heap m <;> simp [wakeFrom, lower, hm]
  | true =>
    obtain ⟨v, hv, hrest, hheap, out, hout, hgood⟩ := wake_spec hnd hpos
    rw [findInHash, if_pos hmem, he]
    refine ⟨v.setEntry n fun e => { e with dependInsts := [] }, ?_,
      ⟨hrest.1, hrest.2, hrest.3, hrest.4, hrest.5⟩, fun m => ?_, out, hout, fun d hd => ?_⟩
    · simp [hv]
    · rw [setEntry_heap, hheap]
      by_cases hm : m = n
      · cases u.heap m <;> simp [wakeFrom, hm]
      · cases u.heap m <;> simp [wakeFrom, hm]
    · obtain ⟨-, f, hf, hfgood⟩ := hgood d hd
      rw [setEntry_heap, hf]
      by_cases hm : d = n
      · exact ⟨{ f with dependInsts := [] }, by simp [hm], hfgood⟩
      · exact ⟨f, by simp [hm], hfgood⟩

theorem completeInst_spec (hmem : n ∈ u.memDepHash)
    (he : u.heap n = some e) (hseq : e.inst.seqNum = n) (hnd : e.dependInsts.Nodup)
    (hpos : ∀ d ∈ e.dependInsts, ∃ f, u.heap d = some f ∧ 0 < f.memDeps)
    (hnone : e.inst.hasDependents = false → e.dependInsts = [])
    (hload : e.inst.loadBarrier = true → n ∈ u.loadBarrierSNs)
    (hstore : e.inst.storeBarrier = true → n ∈ u.storeBarrierSNs) :
    ∃ u', u.completeInst e.inst = some u' ∧ Completed u u' e n := by
  obtain ⟨v, hv, hrest, hheap, hready⟩ := wakeDependents_spec hmem he hnd hpos hnone
  have hmem' : n ∈ v.memDepHash := by
    rw [hrest.memDepHash]
    exact hmem
  have hs : (e.inst.storeBarrier && v.storeBarrierSNs.isEmpty) = false := by
    rw [hrest.storeBarrierSNs]
    cases hb : e.inst.storeBarrier with
    | false => rfl
    | true => simpa using ne_nil_of_mem (hstore hb)
  have hl : (e.inst.loadBarrier && v.loadBarrierSNs.isEmpty) = false := by
    rw [hrest.loadBarrierSNs]
    cases hb : e.inst.loadBarrier with
    | false => rfl
    | true => simpa using ne_nil_of_mem (hload hb)
  unfold completeInst
  rw [hseq, hv, bind_some, MemDepUnit.completed, if_pos hmem', bind_some,
    eraseBarrierSN, if_neg (by simp [hs, hl]), hseq]
  refine ⟨_, rfl, hheap, ?_, ?_, ?_, ?_, hrest.depPred, hready⟩
  · exact congrArg (List.filter fun m => m ≠ n) hrest.memDepHash
  · exact congrArg (List.filter fun m => m ≠ n) hrest.instList
  · exact congrArg (fun l : List Nat => if e.inst.loadBarrier then l.filter fun m => m ≠ n else l)
      hrest.loadBarrierSNs
  · exact congrArg (fun l : List Nat => if e.inst.storeBarrier then l.filter fun m => m ≠ n else l)
      hrest.storeBarrierSNs

/-- What a squash to `num` of the instructions of `l` makes of an entry. -/
def squashFrom (num : Nat) (l : List Nat) (m : Nat) (e : MemDepEntry) : MemDepEntry :=
  if m ∈ l ∧ num < m then { e with squashed := true } else e

/-- What is left of a set of numbers. -/
def stays (num : Nat) (l : List Nat) (ms : List Nat) : List Nat :=
  ms.filter fun m => ¬ (m ∈ l ∧ num < m)

structure Squashed (u u' : MemDepUnit σ) (num : Nat) (l : List Nat) : Prop where
  heap : ∀ m, u'.heap m = (u.heap m).map (squashFrom num l m)
  memDepHash : u'.memDepHash = stays num l u.memDepHash
  loadBarrierSNs : u'.loadBarrierSNs = stays num l u.loadBarrierSNs
  storeBarrierSNs : u'.storeBarrierSNs = stays num l u.storeBarrierSNs
  instList : u'.instList = (l.filter fun m => m ≤ num).reverse
  depPred : u'.depPred = u.depPred
  ready : u'.readyMemInsts = u.readyMemInsts

theorem stays_cons {num : Nat} {l ms : List Nat} (h : num < n) :
    stays num l (ms.filter fun m => m ≠ n) = stays num (n :: l) ms := by
  rw [stays, stays, filter_filter]
  refine filter_congr fun m _ => ?_
  by_cases hm : m = n
  · subst hm
    simp [h]
  · simp [hm]

/-- The loop, on a list in falling order. -/
theorem squashLoop_spec {num : Nat} : ∀ {l : List Nat}, l.Pairwise (· > ·) →
    ∀ {u u' : MemDepUnit σ}, squashLoop num l u = some u' → Squashed u u' num l := by
  intro l
  induction l with
  | nil =>
    intro _ u u' h
    cases h
    refine ⟨fun m => ?_, ?_, ?_, ?_, rfl, rfl, rfl⟩
    · cases u.heap m <;> simp [squashFrom]
    · simp [stays]
    · simp [stays]
    · simp [stays]
  | cons n rest ih =>
    intro hord u u' h
    obtain ⟨hhead, hrest⟩ := pairwise_cons.mp hord
    rw [squashLoop] at h
    split at h
    · rename_i hlt
      split at h
      · obtain ⟨h1, h2, h3, h4, h5, h6, h7⟩ := ih hrest h
        refine ⟨fun m => ?_, ?_, ?_, ?_, ?_, h6, h7⟩
        · rw [h1]
          show ((u.setEntry n fun e => { e with squashed := true }).heap m).map _ = _
          rw [setEntry_heap]
          by_cases hm : m = n
          · subst hm
            have hnot : m ∉ rest := fun hmem => Nat.lt_irrefl m (hhead m hmem)
            cases u.heap m <;> simp [squashFrom, hnot, show num < m from hlt]
          · cases u.heap m <;> simp [squashFrom, hm]
        · exact h2.trans (stays_cons hlt)
        · exact h3.trans (stays_cons hlt)
        · exact h4.trans (stays_cons hlt)
        · rw [h5, filter_cons_of_neg (by simpa using hlt)]
      · cases h
    · -- the rest is older still
      rename_i hle
      cases h
      have hnone : ∀ m ∈ n :: rest, ¬ num < m := by
        intro m hm
        rcases mem_cons.mp hm with rfl | hm
        · exact hle
        · have hlt := hhead m hm
          omega
      have hstays : ∀ ms : List Nat, ms = stays num (n :: rest) ms := by
        intro ms
        refine (filter_eq_self.mpr fun m _ => ?_).symm
        exact decide_eq_true fun hm => hnone m hm.1 hm.2
      refine ⟨fun m => ?_, hstays _, hstays _, hstays _, ?_, rfl, rfl⟩
      · have hid : ∀ e, squashFrom num (n :: rest) m e = e := fun e =>
          if_neg fun hm => hnone m hm.1 hm.2
        cases u.heap m <;> simp [hid]
      · refine congrArg reverse (filter_eq_self.mpr fun m hm => ?_).symm
        simpa using Nat.le_of_not_lt (hnone m hm)

end MemDepUnit

/-! ## Runs -/

/-- What is recorded of an instruction given to `insert`. -/
structure Inserted where
  inst : DynInst
  loadBarriers : List Nat
  storeBarriers : List Nat
  predicted : Nat
  tracked : Bool
  producers : List Nat
  deriving DecidableEq, Repr

/-- The producers that the if-else chain of `insert` chooses, of what was recorded. -/
def Inserted.chain (i : Inserted) : List Nat :=
  if (i.inst.isLoad || i.inst.isAtomic) && !i.loadBarriers.isEmpty then i.loadBarriers
  else if (i.inst.isStore || i.inst.isAtomic) && !i.storeBarriers.isEmpty then i.storeBarriers
  else if i.predicted ≠ 0 ∧ i.tracked = true then [i.predicted]
  else []

/-- The unit, and the record of the calls. -/
structure Run (σ : Type) where
  unit : MemDepUnit σ
  youngest : Nat := 0
  completed : List Nat := []
  inserted : Nat → Option Inserted := fun _ => none

inductive Event
  | insert (inst : DynInst)
  | insertNonSpec (inst : DynInst)
  | insertBarrier (barr_inst : DynInst)
  | regsReady (n : Nat)
  | nonSpecInstReady (n : Nat)
  | completeInst (n : Nat)
  | squash (squashed_num : Nat)
  | violation (store_pc load_pc : Nat)
  | issue (n : Nat)
  deriving DecidableEq, Repr

namespace Run

variable {σ : Type} (P : DepPred σ) (r : Run σ)

def init : Run σ := { unit := { depPred := P.init } }

/-- The record of an insertion. -/
def record (inst : DynInst) : Inserted where
  inst := inst
  loadBarriers := r.unit.loadBarrierSNs
  storeBarriers := r.unit.storeBarrierSNs
  predicted := P.checkInst r.unit.depPred inst.pc
  tracked := P.checkInst r.unit.depPred inst.pc ∈ r.unit.memDepHash
  producers := (r.unit.newEntry inst).store_entries P inst

/-- Instructions come in program order; an instruction that is made ready as non-speculative was
    not given to `insert`; what completes or issues is in the hash. -/
def step : Event → Option (Run σ)
  | .insert inst =>
    if r.youngest < inst.seqNum then
      (r.unit.insert P inst).map fun u =>
        { r with
          unit := u
          youngest := inst.seqNum
          inserted := update r.inserted inst.seqNum (some (r.record P inst)) }
    else none
  | .insertNonSpec inst =>
    if r.youngest < inst.seqNum then
      (r.unit.insertNonSpec P inst).map fun u => { r with unit := u, youngest := inst.seqNum }
    else none
  | .insertBarrier inst =>
    if r.youngest < inst.seqNum then
      some { r with unit := r.unit.insertBarrier inst, youngest := inst.seqNum }
    else none
  | .regsReady n => (r.unit.regsReady n).map fun u => { r with unit := u }
  | .nonSpecInstReady n =>
    if (r.inserted n).isNone then (r.unit.nonSpecInstReady n).map fun u => { r with unit := u }
    else none
  | .completeInst n =>
    (r.unit.findInHash n).bind fun e => (r.unit.completeInst e.inst).map fun u =>
      { r with unit := u, completed := n :: r.completed }
  | .squash num => (r.unit.squash P num).map fun u => { r with unit := u }
  | .violation store_pc load_pc =>
    some { r with unit := { r.unit with
      depPred := P.violation r.unit.depPred store_pc load_pc } }
  | .issue n =>
    (r.unit.findInHash n).map fun e =>
      { r with unit := { r.unit with
        depPred := P.issued r.unit.depPred e.inst.pc n e.inst.isStore } }

/-- The producers recorded for an instruction. -/
def producers (n : Nat) : List Nat := (r.inserted n).elim [] Inserted.producers

/-- Of those, the ones that have not completed. -/
def waitsFor (n : Nat) : Nat := (r.producers n).countP fun p => p ∉ r.completed

/-- The barriers of a kind that are older than `n` have completed, but for those squashed. -/
def BarriersDone (n : Nat) (kind : DynInst → Bool) : Prop :=
  ∀ b e, b < n → r.unit.heap b = some e → kind e.inst = true → e.squashed = true ∨ b ∈ r.completed

/-! ## The invariant -/

/-- What is recorded of the barriers and the producers of `n`. -/
structure Ordered (r : Run σ) (n : Nat) (i : Inserted) : Prop where
  loads : ∀ b e, b < n → r.unit.heap b = some e → e.inst.loadBarrier = true →
    e.squashed = true ∨ b ∈ r.completed ∨ b ∈ i.loadBarriers
  stores : ∀ b e, b < n → r.unit.heap b = some e → e.inst.storeBarrier = true →
    e.squashed = true ∨ b ∈ r.completed ∨ b ∈ i.storeBarriers
  chain : i.producers = i.chain

/-- The part of the invariant that looks at instructions only. -/
structure Static (r : Run σ) : Prop where
  young : ∀ n e, r.unit.heap n = some e → n ≤ r.youngest
  seq : ∀ n e, r.unit.heap n = some e → e.inst.seqNum = n
  known : ∀ m, P.known r.unit.depPred m → ∃ e, r.unit.heap m = some e ∧ e.inst.hasDependents = true
  nodup : ∀ d, (r.producers d).Nodup
  kinds : ∀ d, ∀ p ∈ r.producers d, ∃ e, r.unit.heap p = some e ∧ e.inst.hasDependents = true
  entry : ∀ d i, r.inserted d = some i → ∃ e, r.unit.heap d = some e
  ordered : ∀ n i, r.inserted n = some i → Ordered r n i

structure Inv (r : Run σ) : Prop extends Static P r where
  done : ∀ n ∈ r.completed, ∃ e, r.unit.heap n = some e
  live : ∀ n, n ∈ r.unit.memDepHash ↔
    ∃ e, r.unit.heap n = some e ∧ e.squashed = false ∧ n ∉ r.completed
  sorted : r.unit.instList.Pairwise (· < ·)
  listed : ∀ n, n ∈ r.unit.instList ↔ n ∈ r.unit.memDepHash
  loads : r.unit.loadBarrierSNs.Nodup ∧ ∀ n, n ∈ r.unit.loadBarrierSNs ↔
    n ∈ r.unit.memDepHash ∧ ∃ e, r.unit.heap n = some e ∧ e.inst.loadBarrier = true
  stores : r.unit.storeBarrierSNs.Nodup ∧ ∀ n, n ∈ r.unit.storeBarrierSNs ↔
    n ∈ r.unit.memDepHash ∧ ∃ e, r.unit.heap n = some e ∧ e.inst.storeBarrier = true
  deps : ∀ p e, p ∈ r.unit.memDepHash → r.unit.heap p = some e →
    e.dependInsts.Nodup ∧ ∀ d, d ∈ e.dependInsts ↔ p ∈ r.producers d
  memDeps : ∀ d e, r.unit.heap d = some e → e.memDeps = r.waitsFor d

variable {P} {r r' : Run σ}

theorem inv_init : Inv P (init P) := by
  refine ⟨⟨?_, ?_, ?_, ?_, ?_, ?_, ?_⟩, ?_, ?_, List.Pairwise.nil, ?_, ⟨nodup_nil, ?_⟩,
    ⟨nodup_nil, ?_⟩, ?_, ?_⟩
  · exact fun n e h => nomatch h
  · exact fun n e h => nomatch h
  · exact fun m h => absurd h (P.known_init m)
  · exact fun d => nodup_nil
  · exact fun d p hp => absurd hp not_mem_nil
  · exact fun d i h => nomatch h
  · exact fun n i h => nomatch h
  · exact fun n h => absurd h not_mem_nil
  · refine fun n => ⟨fun h => absurd h not_mem_nil, ?_⟩
    rintro ⟨e, h, -⟩
    exact nomatch h
  · exact fun n => Iff.rfl
  · refine fun n => ⟨fun h => absurd h not_mem_nil, fun h => h.1⟩
  · refine fun n => ⟨fun h => absurd h not_mem_nil, fun h => h.1⟩
  · exact fun p e h => absurd h not_mem_nil
  · exact fun d e h => nomatch h

/-- A call that inserts nothing: the instructions stay, and what is squashed or has completed stays
    so. -/
structure Frame (r r' : Run σ) : Prop where
  heap : ∀ m, ∃ g : MemDepEntry → MemDepEntry, r'.unit.heap m = (r.unit.heap m).map g ∧
    ∀ e, (g e).inst = e.inst ∧ (e.squashed = true → (g e).squashed = true)
  youngest : r'.youngest = r.youngest
  inserted : r'.inserted = r.inserted
  completed : ∀ n ∈ r.completed, n ∈ r'.completed

/-- The barriers of a kind that are older than `n` are squashed, have completed or are in `sns`. -/
def Accounted (r : Run σ) (n : Nat) (kind : DynInst → Bool) (sns : List Nat) : Prop :=
  ∀ b e, b < n → r.unit.heap b = some e → kind e.inst = true →
    e.squashed = true ∨ b ∈ r.completed ∨ b ∈ sns

/-- The outstanding instructions of a kind are those of `sns`. -/
def Outstanding (r : Run σ) (kind : DynInst → Bool) (sns : List Nat) : Prop :=
  sns.Nodup ∧ ∀ n, n ∈ sns ↔
    n ∈ r.unit.memDepHash ∧ ∃ e, r.unit.heap n = some e ∧ kind e.inst = true

section Frame

variable {kind : DynInst → Bool} {sns : List Nat}

theorem Frame.back (h : Frame r r') {m : Nat} {e' : MemDepEntry} (he : r'.unit.heap m = some e') :
    ∃ e, r.unit.heap m = some e ∧ e'.inst = e.inst ∧ (e.squashed = true → e'.squashed = true) := by
  obtain ⟨g, hg, hkeep⟩ := h.heap m
  rw [hg] at he
  obtain ⟨e, hm, rfl⟩ := map_eq_some_iff.mp he
  exact ⟨e, hm, hkeep e⟩

theorem Frame.kind_iff (h : Frame r r') (m : Nat) :
    (∃ e, r'.unit.heap m = some e ∧ kind e.inst = true) ↔
      ∃ e, r.unit.heap m = some e ∧ kind e.inst = true := by
  constructor
  · rintro ⟨e', he', hk⟩
    obtain ⟨e, he, hinst, -⟩ := h.back he'
    exact ⟨e, he, hinst ▸ hk⟩
  · rintro ⟨e, he, hk⟩
    obtain ⟨g, hg, hkeep⟩ := h.heap m
    exact ⟨g e, by rw [hg, he]; rfl, by rw [(hkeep e).1]; exact hk⟩

theorem Frame.forth (h : Frame r r') {m : Nat} (hm : ∃ e, r.unit.heap m = some e) :
    ∃ e', r'.unit.heap m = some e' := by
  obtain ⟨e, he⟩ := hm
  obtain ⟨g, hg, -⟩ := h.heap m
  exact ⟨g e, by rw [hg, he]; rfl⟩

theorem Frame.accounted (h : Frame r r') {n : Nat} (ha : Accounted r n kind sns) :
    Accounted r' n kind sns := by
  intro b e' hb he' hk
  obtain ⟨e, he, hinst, hsq⟩ := h.back he'
  exact (ha b e hb he (hinst ▸ hk)).imp hsq (Or.imp_left (h.completed b))

theorem Frame.outstanding (h : Frame r r') (ho : Outstanding r kind sns) {sns' : List Nat}
    (hsub : ∀ n ∈ r'.unit.memDepHash, n ∈ r.unit.memDepHash)
    (hsns : sns'.Nodup ∧ ∀ n, n ∈ sns' ↔ n ∈ sns ∧ n ∈ r'.unit.memDepHash) :
    Outstanding r' kind sns' := by
  refine ⟨hsns.1, fun n => ?_⟩
  rw [hsns.2, ho.2, h.kind_iff]
  exact ⟨fun hn => ⟨hn.2, hn.1.2⟩, fun hn => ⟨⟨hsub n hn.1, hn.2⟩, hn.1⟩⟩

theorem Frame.producers (h : Frame r r') (d : Nat) : r'.producers d = r.producers d := by
  rw [Run.producers, h.inserted]
  rfl

theorem Frame.static (h : Frame r r') (hs : Static P r)
    (hknown : ∀ m, P.known r'.unit.depPred m → P.known r.unit.depPred m) : Static P r' where
  young n e he := by
    obtain ⟨f, hf, -⟩ := h.back he
    rw [h.youngest]
    exact hs.young n f hf
  seq n e he := by
    obtain ⟨f, hf, hinst, -⟩ := h.back he
    rw [hinst]
    exact hs.seq n f hf
  known m hm := (h.kind_iff _).mpr (hs.known m (hknown m hm))
  nodup d := by
    rw [h.producers]
    exact hs.nodup d
  kinds d p hp := (h.kind_iff _).mpr (hs.kinds d p (h.producers d ▸ hp))
  entry d i hi := h.forth (hs.entry d i (h.inserted ▸ hi))
  ordered n i hi :=
    have hord := hs.ordered n i (h.inserted ▸ hi)
    ⟨h.accounted hord.loads, h.accounted hord.stores, hord.chain⟩

end Frame

variable {e : MemDepEntry} {n : Nat}

/-- The invariant after a call that makes `g m e` of the entry `e` of `m`: what has left the hash is
    squashed or has completed, and an entry in it has the dependents it had. -/
theorem Inv.frame (h : Inv P r) {g : Nat → MemDepEntry → MemDepEntry}
    (hheap : ∀ m, r'.unit.heap m = (r.unit.heap m).map (g m))
    (hkeep : ∀ m e, (g m e).inst = e.inst ∧ (e.squashed = true → (g m e).squashed = true))
    (hyoung : r'.youngest = r.youngest) (hins : r'.inserted = r.inserted)
    (hcomp : ∀ n ∈ r.completed, n ∈ r'.completed)
    (hknown : ∀ m, P.known r'.unit.depPred m → P.known r.unit.depPred m)
    (hdone : ∀ n ∈ r'.completed, n ∈ r.completed ∨ n ∈ r.unit.memDepHash)
    (hsub : ∀ n ∈ r'.unit.memDepHash, n ∈ r.unit.memDepHash)
    (hlive : ∀ n e, n ∈ r.unit.memDepHash → r.unit.heap n = some e →
      (n ∈ r'.unit.memDepHash ↔ (g n e).squashed = false ∧ n ∉ r'.completed))
    (hsorted : r'.unit.instList.Pairwise (· < ·))
    (hlisted : ∀ n, n ∈ r'.unit.instList ↔ n ∈ r'.unit.memDepHash)
    (hload : r'.unit.loadBarrierSNs.Nodup ∧ ∀ n, n ∈ r'.unit.loadBarrierSNs ↔
      n ∈ r.unit.loadBarrierSNs ∧ n ∈ r'.unit.memDepHash)
    (hstore : r'.unit.storeBarrierSNs.Nodup ∧ ∀ n, n ∈ r'.unit.storeBarrierSNs ↔
      n ∈ r.unit.storeBarrierSNs ∧ n ∈ r'.unit.memDepHash)
    (hdeps : ∀ p ∈ r'.unit.memDepHash, ∀ e, (g p e).dependInsts = e.dependInsts)
    (hmem : ∀ d e, e.memDeps = r.waitsFor d → (g d e).memDeps = r'.waitsFor d) : Inv P r' := by
  have hframe : Frame r r' := ⟨fun m => ⟨g m, hheap m, hkeep m⟩, hyoung, hins, hcomp⟩
  have hback : ∀ m e', r'.unit.heap m = some e' → ∃ e, r.unit.heap m = some e ∧ e' = g m e := by
    intro m e' he
    rw [hheap] at he
    obtain ⟨e, hm, rfl⟩ := map_eq_some_iff.mp he
    exact ⟨e, hm, rfl⟩
  refine ⟨hframe.static h.toStatic hknown, ?_, ?_, hsorted, hlisted,
    hframe.outstanding h.loads hsub hload, hframe.outstanding h.stores hsub hstore, ?_, ?_⟩
  · intro n hn
    refine hframe.forth ?_
    rcases hdone n hn with hn | hn
    · exact h.done n hn
    · obtain ⟨e, he, -⟩ := (h.live n).mp hn
      exact ⟨e, he⟩
  · intro n
    constructor
    · intro hn
      obtain ⟨e, he, -⟩ := (h.live n).mp (hsub n hn)
      exact ⟨g n e, by rw [hheap, he]; rfl, (hlive n e (hsub n hn) he).mp hn⟩
    · rintro ⟨e', he', hs, hc⟩
      obtain ⟨e, he, rfl⟩ := hback n e' he'
      refine (hlive n e ((h.live n).mpr ⟨e, he, ?_, fun hn => hc (hcomp n hn)⟩) he).mpr ⟨hs, hc⟩
      exact Bool.eq_false_iff.mpr fun ht => Bool.eq_false_iff.mp hs ((hkeep n e).2 ht)
  · intro p e' hp he'
    obtain ⟨e, he, rfl⟩ := hback p e' he'
    rw [hdeps p hp]
    refine ⟨(h.deps p e (hsub p hp) he).1, fun d => ?_⟩
    rw [hframe.producers]
    exact (h.deps p e (hsub p hp) he).2 d
  · intro d e' he'
    obtain ⟨e, he, rfl⟩ := hback d e' he'
    exact hmem d e (h.memDeps d e he)

/-- A call that only makes registers ready, hands out, or tells the predictor. -/
theorem Inv.same (h : Inv P r) {g : Nat → MemDepEntry → MemDepEntry}
    (hheap : ∀ m, r'.unit.heap m = (r.unit.heap m).map (g m))
    (hkeep : ∀ m e, (g m e).inst = e.inst ∧ (g m e).squashed = e.squashed ∧
      (g m e).dependInsts = e.dependInsts ∧ (g m e).memDeps = e.memDeps)
    (hyoung : r'.youngest = r.youngest) (hins : r'.inserted = r.inserted)
    (hcomp : r'.completed = r.completed) (hhash : r'.unit.memDepHash = r.unit.memDepHash)
    (hlist : r'.unit.instList = r.unit.instList)
    (hload : r'.unit.loadBarrierSNs = r.unit.loadBarrierSNs)
    (hstore : r'.unit.storeBarrierSNs = r.unit.storeBarrierSNs)
    (hknown : ∀ m, P.known r'.unit.depPred m → P.known r.unit.depPred m) : Inv P r' := by
  refine h.frame hheap (fun m e => ⟨(hkeep m e).1, fun hs => (hkeep m e).2.1.trans hs⟩) hyoung hins
    (fun n hn => hcomp ▸ hn) hknown (fun n hn => Or.inl (hcomp ▸ hn)) (fun n hn => hhash ▸ hn)
    (fun n e hn he => ?_) (hlist ▸ h.sorted) (fun n => by rw [hlist, hhash]; exact h.listed n)
    ?_ ?_ (fun p _ e => (hkeep p e).2.2.1) (fun d e he => ?_)
  · obtain ⟨f, hf, hs, hc⟩ := (h.live n).mp hn
    obtain rfl : f = e := Option.some.inj (hf.symm.trans he)
    rw [hhash, hcomp, (hkeep n f).2.1]
    exact ⟨fun _ => ⟨hs, hc⟩, fun _ => hn⟩
  · rw [hload, hhash]
    exact ⟨h.loads.1, fun n => ⟨fun hn => ⟨hn, ((h.loads.2 n).mp hn).1⟩, And.left⟩⟩
  · rw [hstore, hhash]
    exact ⟨h.stores.1, fun n => ⟨fun hn => ⟨hn, ((h.stores.2 n).mp hn).1⟩, And.left⟩⟩
  · rw [(hkeep d e).2.2.2, he, Run.waitsFor, Run.waitsFor, Run.producers, Run.producers, hins, hcomp]

/-- An instruction is handed out when it waits for nothing, has its registers and is not
    squashed. -/
def HandedOk (r r' : Run σ) : Prop :=
  ∀ n, n ∈ r'.unit.readyMemInsts → n ∉ r.unit.readyMemInsts → r'.inserted n ≠ none →
    ∃ e, r'.unit.heap n = some e ∧ e.memDeps = 0 ∧ e.regsReady = true ∧ e.squashed = false

theorem findInHash_spec {u : MemDepUnit σ}
    (h : u.findInHash n = some e) : n ∈ u.memDepHash ∧ u.heap n = some e := by
  unfold MemDepUnit.findInHash at h
  split at h
  · rename_i hmem
    exact ⟨hmem, h⟩
  · cases h

theorem moveToReady_cases {u v : MemDepUnit σ} (h : u.moveToReady n = some v) :
    v = { u with readyMemInsts := u.readyMemInsts ++ [n] } ∧
      ∃ e, u.heap n = some e ∧ e.squashed = false := by
  obtain ⟨e, he, h⟩ := bind_eq_some_iff.mp h
  split at h
  · cases h
  · rename_i hs
    cases h
    exact ⟨rfl, e, he, Bool.eq_false_iff.mpr hs⟩

theorem inv_regsReady {u : MemDepUnit σ} (h : Inv P r) (hstep : r.unit.regsReady n = some u) :
    Inv P { r with unit := u } ∧ HandedOk r { r with unit := u } := by
  obtain ⟨e, hfind, hstep⟩ := bind_eq_some_iff.mp hstep
  obtain ⟨hmem, he⟩ := findInHash_spec hfind
  let v := r.unit.setEntry n fun e => { e with regsReady := true }
  have hn : v.heap n = some { e with regsReady := true } := by simp [v, he]
  have hsame : ∀ out, Inv P { r with unit := { v with readyMemInsts := out } } := by
    intro out
    refine h.same (g := fun m e => { e with regsReady := if m = n then true else e.regsReady })
      (fun m => ?_) (fun m e => ⟨rfl, rfl, rfl, rfl⟩) rfl rfl rfl rfl rfl rfl rfl fun _ hm => hm
    show v.heap m = _
    rw [MemDepUnit.setEntry_heap]
    by_cases hm : m = n
    · simp [hm]
    · simp [hm]
  split at hstep
  · rename_i hzero
    obtain ⟨rfl, f, hf, hs⟩ := moveToReady_cases hstep
    refine ⟨hsame _, ?_⟩
    intro m hm hnot _
    rcases mem_append.mp hm with hm | hm
    · exact absurd hm hnot
    · rw [mem_singleton.mp hm]
      obtain rfl : _ = f := Option.some.inj (hn.symm.trans hf)
      exact ⟨_, hn, hzero, rfl, hs⟩
  · cases hstep
    exact ⟨hsame _, fun m hm hnot _ => absurd hm hnot⟩

theorem inv_nonSpecInstReady {u : MemDepUnit σ} (h : Inv P r)
    (hins : r.inserted n = none) (hstep : r.unit.nonSpecInstReady n = some u) :
    Inv P { r with unit := u } ∧ HandedOk r { r with unit := u } := by
  obtain ⟨e, hfind, hstep⟩ := bind_eq_some_iff.mp hstep
  obtain ⟨rfl, -⟩ := moveToReady_cases hstep
  refine ⟨h.same (g := fun _ e => e) (fun m => Option.map_id'.symm) (fun m e => ⟨rfl, rfl, rfl, rfl⟩)
    rfl rfl rfl rfl rfl rfl rfl fun _ hm => hm, ?_⟩
  intro m hm hnot hm'
  rcases mem_append.mp hm with hm | hm
  · exact absurd hm hnot
  · rw [mem_singleton.mp hm] at hm'
    exact absurd hins hm'

/-- Of a list without repetition, one less is left to wait for. -/
theorem countP_completed {c : List Nat} (hn : n ∉ c) : ∀ {l : List Nat}, l.Nodup →
    l.countP (fun p => p ∉ n :: c) + (if n ∈ l then 1 else 0) = l.countP fun p => p ∉ c := by
  intro l
  induction l with
  | nil => exact fun _ => rfl
  | cons a l ih =>
    intro hnd
    obtain ⟨ha, hnd⟩ := nodup_cons.mp hnd
    have hl := ih hnd
    rw [countP_cons, countP_cons]
    by_cases han : a = n
    · subst han
      simp [ha, hn] at hl ⊢
      exact hl
    · have hna : n ≠ a := fun h => han h.symm
      simp only [mem_cons, han, hna, false_or] at hl ⊢
      omega

theorem Inv.waits_pos (h : Inv P r) {p d : Nat} (hp : p ∈ r.unit.memDepHash)
    (hd : p ∈ r.producers d) : ∃ f, r.unit.heap d = some f ∧ 0 < f.memDeps := by
  have hins : ∃ i, r.inserted d = some i := by
    cases hi : r.inserted d with
    | none => simp [Run.producers, hi] at hd
    | some i => exact ⟨i, rfl⟩
  obtain ⟨i, hi⟩ := hins
  obtain ⟨f, hf⟩ := h.entry d i hi
  refine ⟨f, hf, ?_⟩
  obtain ⟨-, -, -, hnot⟩ := (h.live p).mp hp
  rw [h.memDeps d f hf, Run.waitsFor, countP_pos_iff]
  exact ⟨p, hd, decide_eq_true hnot⟩

/-- Completing what is in the hash has a result. -/
theorem completeInst_ok (h : Inv P r) (hfind : r.unit.findInHash n = some e) :
    ∃ u, r.unit.completeInst e.inst = some u ∧ MemDepUnit.Completed r.unit u e n := by
  obtain ⟨hmem, he⟩ := findInHash_spec hfind
  obtain ⟨hnd, hdeps⟩ := h.deps n e hmem he
  refine MemDepUnit.completeInst_spec hmem he (h.seq n e he) hnd ?_ ?_ ?_ ?_
  · exact fun d hd => h.waits_pos hmem ((hdeps d).mp hd)
  · intro hnone
    refine eq_nil_iff_forall_not_mem.mpr fun d hd => ?_
    obtain ⟨f, hf, hkind⟩ := h.kinds d n ((hdeps d).mp hd)
    obtain rfl : e = f := Option.some.inj (he.symm.trans hf)
    exact Bool.noConfusion (hnone.symm.trans hkind)
  · exact fun hl => (h.loads.2 n).mpr ⟨hmem, e, he, hl⟩
  · exact fun hs => (h.stores.2 n).mpr ⟨hmem, e, he, hs⟩

theorem wakeFrom_keeps (n : Nat) (ds : List Nat) (m : Nat) (e : MemDepEntry) :
    (MemDepUnit.wakeFrom n ds m e).inst = e.inst ∧
      (MemDepUnit.wakeFrom n ds m e).squashed = e.squashed ∧
      (MemDepUnit.wakeFrom n ds m e).memDeps = (if m ∈ ds then e.memDeps - 1 else e.memDeps) ∧
      (m ≠ n → (MemDepUnit.wakeFrom n ds m e).dependInsts = e.dependInsts) := by
  unfold MemDepUnit.wakeFrom MemDepUnit.lower
  by_cases hn : m = n
  · subst hn
    by_cases hd : m ∈ ds
    · simp [hd]
    · simp [hd]
  · by_cases hd : m ∈ ds
    · simp [hn, hd]
    · simp [hn, hd]

theorem Outstanding.ne {kind : DynInst → Bool} {sns : List Nat} (ho : Outstanding r kind sns)
    (he : r.unit.heap n = some e) {m : Nat} (hm : m ∈ sns) (hk : ¬ kind e.inst = true) :
    m ≠ n := by
  rintro rfl
  obtain ⟨-, f, hf, hkf⟩ := (ho.2 m).mp hm
  obtain rfl : e = f := Option.some.inj (he.symm.trans hf)
  exact hk hkf

theorem inv_completeInst {u : MemDepUnit σ} (h : Inv P r)
    (hfind : r.unit.findInHash n = some e) (hstep : r.unit.completeInst e.inst = some u) :
    Inv P { r with unit := u, completed := n :: r.completed } ∧
      HandedOk r { r with unit := u, completed := n :: r.completed } := by
  obtain ⟨hmem, he⟩ := findInHash_spec hfind
  obtain ⟨v, hv, hc⟩ := completeInst_ok h hfind
  obtain rfl : v = u := Option.some.inj (hv.symm.trans hstep)
  obtain ⟨hnd, hdeps⟩ := h.deps n e hmem he
  obtain ⟨-, -, -, hnot⟩ := (h.live n).mp hmem
  have hkeeps := wakeFrom_keeps n e.dependInsts
  have hhash : ∀ m, m ∈ v.memDepHash ↔ m ∈ r.unit.memDepHash ∧ m ≠ n := fun m => by
    rw [hc.memDepHash, mem_filter, decide_eq_true_iff]
  have hsets : ∀ {kind : DynInst → Bool} {sns : List Nat}, Outstanding r kind sns →
      (if kind e.inst then sns.filter fun m => m ≠ n else sns).Nodup ∧
        ∀ m, m ∈ (if kind e.inst then sns.filter fun m => m ≠ n else sns) ↔
          m ∈ sns ∧ m ∈ v.memDepHash := by
    intro kind sns ho
    split
    · refine ⟨ho.1.filter _, fun m => ?_⟩
      rw [mem_filter, decide_eq_true_iff, hhash]
      exact and_congr_right fun hm => (and_iff_right ((ho.2 m).mp hm).1).symm
    · rename_i hk
      refine ⟨ho.1, fun m => (and_iff_left_of_imp fun hm => ?_).symm⟩
      exact (hhash m).mpr ⟨((ho.2 m).mp hm).1, ho.ne he hm hk⟩
  refine ⟨h.frame hc.heap (fun m f => ⟨(hkeeps m f).1, fun hs => (hkeeps m f).2.1.trans hs⟩) rfl rfl
    (fun m hm => mem_cons_of_mem n hm) (fun m hm => hc.depPred ▸ hm) ?_
    (fun m hm => ((hhash m).mp hm).1) ?_ (hc.instList ▸ h.sorted.filter _) ?_
    (hc.loadBarrierSNs ▸ hsets h.loads) (hc.storeBarrierSNs ▸ hsets h.stores)
    (fun p hp f => (hkeeps p f).2.2.2 ((hhash p).mp hp).2) ?_, ?_⟩
  · intro m hm
    rcases mem_cons.mp hm with rfl | hm
    · exact Or.inr hmem
    · exact Or.inl hm
  · intro m f hm hf
    obtain ⟨f', hf', hs, hcm⟩ := (h.live m).mp hm
    obtain rfl : f' = f := Option.some.inj (hf'.symm.trans hf)
    rw [(hkeeps m f').2.1]
    refine (hhash m).trans ⟨fun hne => ⟨hs, ?_⟩, fun hne => ⟨hm, fun heq => hne.2 ?_⟩⟩
    · simp [hne.2, hcm]
    · rw [heq]
      exact mem_cons_self
  · intro m
    show m ∈ v.instList ↔ m ∈ v.memDepHash
    rw [hc.instList, hc.memDepHash, mem_filter, mem_filter, h.listed]
  · intro d f hf
    rw [(hkeeps d f).2.2.1, hf]
    have hcount := countP_completed hnot (h.nodup d)
    show (if d ∈ e.dependInsts then r.waitsFor d - 1 else r.waitsFor d) =
      (r.producers d).countP fun p => p ∉ n :: r.completed
    rw [Run.waitsFor]
    by_cases hd : d ∈ e.dependInsts
    · rw [if_pos ((hdeps d).mp hd)] at hcount
      rw [if_pos hd]
      omega
    · rw [if_neg fun hp => hd ((hdeps d).mpr hp)] at hcount
      rw [if_neg hd]
      omega
  · intro m hm hnot' _
    obtain ⟨out, hout, hgood⟩ := hc.ready
    have hm : m ∈ v.readyMemInsts := hm
    rw [hout] at hm
    rcases mem_append.mp hm with hm | hm
    · exact absurd hm hnot'
    · exact hgood m hm

theorem squashFrom_keeps (num : Nat) (l : List Nat) (m : Nat) (e : MemDepEntry) :
    (MemDepUnit.squashFrom num l m e).inst = e.inst ∧
      ((MemDepUnit.squashFrom num l m e).squashed = true ↔ e.squashed = true ∨ m ∈ l ∧ num < m) ∧
      (MemDepUnit.squashFrom num l m e).memDeps = e.memDeps ∧
      (MemDepUnit.squashFrom num l m e).dependInsts = e.dependInsts := by
  unfold MemDepUnit.squashFrom
  by_cases h : m ∈ l ∧ num < m
  · simp [h]
  · simp only [if_neg h]
    simp [h]

theorem inv_squash {num : Nat} {u : MemDepUnit σ} (h : Inv P r)
    (hstep : r.unit.squash P num = some u) :
    Inv P { r with unit := u } ∧ HandedOk r { r with unit := u } := by
  obtain ⟨v, hv, hstep⟩ := bind_eq_some_iff.mp hstep
  obtain ⟨pred, hpred, rfl⟩ := map_eq_some_iff.mp hstep
  have hfall : r.unit.instList.reverse.Pairwise (· > ·) := pairwise_reverse.mpr h.sorted
  have hs := MemDepUnit.squashLoop_spec hfall hv
  have hlist : ∀ m, m ∈ r.unit.instList.reverse ↔ m ∈ r.unit.memDepHash := fun m =>
    mem_reverse.trans (h.listed m)
  have hstays : ∀ ms m, m ∈ MemDepUnit.stays num r.unit.instList.reverse ms ↔
      m ∈ ms ∧ ¬ (m ∈ r.unit.memDepHash ∧ num < m) := by
    intro ms m
    rw [MemDepUnit.stays, mem_filter, decide_eq_true_iff, hlist]
  have hkeeps := squashFrom_keeps num r.unit.instList.reverse
  have hhash : ∀ m, m ∈ v.memDepHash ↔ m ∈ r.unit.memDepHash ∧ m ≤ num := by
    intro m
    rw [hs.memDepHash, hstays]
    exact and_congr_right fun hm => by simp [hm]
  have hsets : ∀ {kind : DynInst → Bool} {sns : List Nat}, Outstanding r kind sns →
      (MemDepUnit.stays num r.unit.instList.reverse sns).Nodup ∧
        ∀ m, m ∈ MemDepUnit.stays num r.unit.instList.reverse sns ↔ m ∈ sns ∧ m ∈ v.memDepHash := by
    intro kind sns ho
    refine ⟨ho.1.filter _, fun m => ?_⟩
    rw [hstays, hhash]
    exact and_congr_right fun hm => by simp [((ho.2 m).mp hm).1]
  refine ⟨h.frame hs.heap (fun m f => ⟨(hkeeps m f).1, fun hf => (hkeeps m f).2.1.mpr (Or.inl hf)⟩)
    rfl rfl (fun m hm => hm) (fun m hm => ?_) (fun m hm => Or.inl hm)
    (fun m hm => ((hhash m).mp hm).1) ?_ ?_ ?_
    (hs.loadBarrierSNs ▸ hsets h.loads) (hs.storeBarrierSNs ▸ hsets h.stores)
    (fun p _ f => (hkeeps p f).2.2.2) (fun d f hf => (hkeeps d f).2.2.1.trans hf), ?_⟩
  · rw [← hs.depPred]
    exact P.known_squash v.depPred pred num m hpred hm
  · intro m f hm hf
    obtain ⟨f', hf', hsq, hc⟩ := (h.live m).mp hm
    obtain rfl : f' = f := Option.some.inj (hf'.symm.trans hf)
    have hkeep := (hkeeps m f').2.1
    rw [hsq, hlist] at hkeep
    refine (hhash m).trans ⟨fun hle => ⟨Bool.eq_false_iff.mpr fun ht => ?_, hc⟩, fun hle => ⟨hm, ?_⟩⟩
    · rcases hkeep.mp ht with ht | ht
      · cases ht
      · exact Nat.not_lt.mpr hle.2 ht.2
    · exact Nat.le_of_not_lt fun hlt => Bool.eq_false_iff.mp hle.1 (hkeep.mpr (Or.inr ⟨hm, hlt⟩))
  · show v.instList.Pairwise (· < ·)
    rw [hs.instList, pairwise_reverse]
    exact hfall.filter _
  · intro m
    show m ∈ v.instList ↔ m ∈ v.memDepHash
    rw [hs.instList, hhash, mem_reverse, mem_filter, hlist, decide_eq_true_iff]
  · intro m hm hnot _
    have hm : m ∈ v.readyMemInsts := hm
    rw [hs.ready] at hm
    exact absurd hm hnot

/-! ### An insertion at the young end -/

section Added

variable {inst : DynInst} {u : MemDepUnit σ} {stores : List Nat} {kind : DynInst → Bool}
  {sns : List Nat} {ins : Nat → Option Inserted} {m : Nat} {f f' : MemDepEntry}

/-- An older entry after the insertion: one more dependent, when the new one waits for it. -/
def Kept (inst : DynInst) (stores : List Nat) (m : Nat) (f f' : MemDepEntry) : Prop :=
  f'.inst = f.inst ∧ f'.squashed = f.squashed ∧ f'.memDeps = f.memDeps ∧
    f'.dependInsts = if m ∈ stores then f.dependInsts ++ [inst.seqNum] else f.dependInsts

theorem Inv.none_new (h : Inv P r) (hlt : r.youngest < inst.seqNum) (f : MemDepEntry) :
    r.unit.heap inst.seqNum ≠ some f := fun hf => Nat.not_lt.mpr (h.young _ f hf) hlt

theorem Inv.ne_new (h : Inv P r) (hlt : r.youngest < inst.seqNum) (hf : r.unit.heap m = some f) :
    m ≠ inst.seqNum := by
  rintro rfl
  exact h.none_new hlt f hf

theorem Inv.added_forth (h : Inv P r) (hlt : r.youngest < inst.seqNum)
    (ha : MemDepUnit.Added r.unit u inst stores e) (hf : r.unit.heap m = some f) :
    ∃ f', u.heap m = some f' ∧ Kept inst stores m f f' := by
  refine ⟨_, (ha.others m (h.ne_new hlt hf)).trans (by rw [hf]; rfl), ?_⟩
  unfold Kept
  by_cases hm : m ∈ stores
  · simp [hm]
  · simp [hm]

theorem Inv.added_back (h : Inv P r) (hlt : r.youngest < inst.seqNum)
    (ha : MemDepUnit.Added r.unit u inst stores e) (hf' : u.heap m = some f') :
    m = inst.seqNum ∧ f' = e ∨
      m ≠ inst.seqNum ∧ ∃ f, r.unit.heap m = some f ∧ Kept inst stores m f f' := by
  by_cases hm : m = inst.seqNum
  · subst hm
    exact Or.inl ⟨rfl, Option.some.inj (hf'.symm.trans ha.self)⟩
  · right
    have hsame := hf'
    rw [ha.others m hm] at hsame
    obtain ⟨f, hf, -⟩ := map_eq_some_iff.mp hsame
    obtain ⟨g, hg, hkeep⟩ := h.added_forth hlt ha hf
    obtain rfl : g = f' := Option.some.inj (hg.symm.trans hf')
    exact ⟨hm, f, hf, hkeep⟩

theorem Inv.added_kind (h : Inv P r) (hlt : r.youngest < inst.seqNum)
    (ha : MemDepUnit.Added r.unit u inst stores e)
    (hf : ∃ f, r.unit.heap m = some f ∧ kind f.inst = true) :
    ∃ f, u.heap m = some f ∧ kind f.inst = true := by
  obtain ⟨f, hf, hk⟩ := hf
  obtain ⟨f', hf', hinst, -⟩ := h.added_forth hlt ha hf
  exact ⟨f', hf', by rw [hinst]; exact hk⟩

/-- The set of the outstanding barriers of a kind grows by the new one. -/
theorem Inv.added_outstanding (h : Inv P r) (hlt : r.youngest < inst.seqNum)
    (ha : MemDepUnit.Added r.unit u inst stores e) (hk : kind e.inst = kind inst)
    (ho : Outstanding r kind sns) :
    Outstanding { unit := u, youngest := inst.seqNum, completed := r.completed, inserted := ins } kind
      (if kind inst then sns.insert inst.seqNum else sns) := by
  have hmem : ∀ m, m ∈ (if kind inst then sns.insert inst.seqNum else sns) ↔
      m = inst.seqNum ∧ kind inst = true ∨ m ∈ sns := by
    intro m
    split
    · rename_i hki
      rw [mem_insert_iff, hki]
      simp
    · rename_i hki
      simp [hki]
  refine ⟨?_, fun m => ?_⟩
  · split
    · exact Nodup.insert ho.1
    · exact ho.1
  · rw [hmem]
    show _ ↔ m ∈ u.memDepHash ∧ _
    rw [ha.memDepHash, mem_cons]
    constructor
    · rintro (⟨rfl, hki⟩ | hm)
      · exact ⟨Or.inl rfl, e, ha.self, hk.trans hki⟩
      · exact ⟨Or.inr ((ho.2 m).mp hm).1, h.added_kind hlt ha ((ho.2 m).mp hm).2⟩
    · rintro ⟨hm, f', hf', hkf⟩
      rcases h.added_back hlt ha hf' with ⟨rfl, rfl⟩ | ⟨hmne, f, hf, hinst, -⟩
      · exact Or.inl ⟨rfl, hk.symm.trans hkf⟩
      · rw [hinst] at hkf
        exact Or.inr ((ho.2 m).mpr ⟨hm.resolve_left hmne, f, hf, hkf⟩)

/-- What was accounted for still is: the new one is not older than any. -/
theorem Inv.added_accounted (h : Inv P r) (hlt : r.youngest < inst.seqNum)
    (ha : MemDepUnit.Added r.unit u inst stores e) (hm : m ≤ inst.seqNum)
    (hacc : Accounted r m kind sns) :
    Accounted { unit := u, youngest := inst.seqNum, completed := r.completed, inserted := ins } m kind
      sns := by
  intro b f' hb hf' hkf
  rcases h.added_back hlt ha hf' with ⟨rfl, -⟩ | ⟨-, f, hf, hinst, hsq, -⟩
  · exact absurd hb (Nat.not_lt.mpr hm)
  · rw [hinst] at hkf
    rw [hsq]
    exact hacc b f hb hf hkf

/-- The barriers outstanding account for all. -/
theorem Inv.accounted (h : Inv P r) (ho : Outstanding r kind sns) : Accounted r m kind sns := by
  intro b f _ hf hkf
  by_cases hsq : f.squashed = true
  · exact Or.inl hsq
  · by_cases hc : b ∈ r.completed
    · exact Or.inr (Or.inl hc)
    · refine Or.inr (Or.inr ((ho.2 b).mpr ⟨?_, f, hf, hkf⟩))
      exact (h.live b).mpr ⟨f, hf, Bool.eq_false_iff.mpr hsq, hc⟩

theorem Inv.added (h : Inv P r) (hlt : r.youngest < inst.seqNum)
    (ha : MemDepUnit.Added r.unit u inst stores e) (hnd : stores.Nodup)
    (hst : ∀ p ∈ stores, p ∈ r.unit.memDepHash ∧
      ∃ f, r.unit.heap p = some f ∧ f.inst.hasDependents = true)
    (hknown : ∀ m, P.known u.depPred m → P.known r.unit.depPred m ∨
      m = inst.seqNum ∧ inst.hasDependents = true)
    (hins : ∀ m, m ≠ inst.seqNum → ins m = r.inserted m)
    (hself : (ins inst.seqNum).elim [] Inserted.producers = stores)
    (hrec : ∀ i, ins inst.seqNum = some i → i.loadBarriers = r.unit.loadBarrierSNs ∧
      i.storeBarriers = r.unit.storeBarrierSNs ∧ i.producers = i.chain) :
    Inv P { unit := u, youngest := inst.seqNum, completed := r.completed, inserted := ins } := by
  obtain ⟨hseq, hlb, hsb, hdep⟩ := ha.kind.fields
  have hprod : ∀ d, d ≠ inst.seqNum →
      (ins d).elim [] Inserted.producers = r.producers d := fun d hd => by rw [hins d hd]; rfl
  have hold : r.producers inst.seqNum = [] := by
    rw [Run.producers]
    cases hi : r.inserted inst.seqNum with
    | none => rfl
    | some i =>
      obtain ⟨f, hf⟩ := h.entry _ i hi
      exact absurd hf (h.none_new hlt f)
  refine ⟨⟨?_, ?_, ?_, ?_, ?_, ?_, ?_⟩, ?_, ?_, ?_, ?_, ?_, ?_, ?_, ?_⟩
  · intro m f' hf'
    rcases h.added_back hlt ha hf' with ⟨rfl, -⟩ | ⟨-, f, hf, -⟩
    · exact Nat.le_refl _
    · exact Nat.le_of_lt (Nat.lt_of_le_of_lt (h.young m f hf) hlt)
  · intro m f' hf'
    rcases h.added_back hlt ha hf' with ⟨rfl, rfl⟩ | ⟨-, f, hf, hinst, -⟩
    · exact hseq
    · rw [hinst]
      exact h.seq m f hf
  · intro m hm
    rcases hknown m hm with hm | ⟨rfl, hk⟩
    · exact h.added_kind hlt ha (h.known m hm)
    · exact ⟨e, ha.self, hdep.trans hk⟩
  · intro d
    show ((ins d).elim [] Inserted.producers).Nodup
    by_cases hd : d = inst.seqNum
    · rw [hd, hself]
      exact hnd
    · rw [hprod d hd]
      exact h.nodup d
  · intro d p hp
    have hp : p ∈ (ins d).elim [] Inserted.producers := hp
    by_cases hd : d = inst.seqNum
    · rw [hd, hself] at hp
      exact h.added_kind hlt ha (hst p hp).2
    · rw [hprod d hd] at hp
      exact h.added_kind hlt ha (h.kinds d p hp)
  · intro d i hi
    by_cases hd : d = inst.seqNum
    · exact ⟨e, by rw [hd]; exact ha.self⟩
    · obtain ⟨f, hf⟩ := h.entry d i ((hins d hd).symm.trans hi)
      obtain ⟨f', hf', -⟩ := h.added_forth hlt ha hf
      exact ⟨f', hf'⟩
  · intro m i hi
    by_cases hm : m = inst.seqNum
    · subst hm
      obtain ⟨hl, hs, hchain⟩ := hrec i hi
      refine ⟨h.added_accounted hlt ha (Nat.le_refl _) ?_,
        h.added_accounted hlt ha (Nat.le_refl _) ?_, hchain⟩
      · rw [hl]
        exact h.accounted h.loads
      · rw [hs]
        exact h.accounted h.stores
    · have hi : r.inserted m = some i := (hins m hm).symm.trans hi
      obtain ⟨g, hg⟩ := h.entry m i hi
      have hmle := Nat.le_of_lt (Nat.lt_of_le_of_lt (h.young m g hg) hlt)
      have hord := h.ordered m i hi
      exact ⟨h.added_accounted hlt ha hmle hord.loads, h.added_accounted hlt ha hmle hord.stores,
        hord.chain⟩
  · intro m hm
    obtain ⟨f, hf⟩ := h.done m hm
    obtain ⟨f', hf', -⟩ := h.added_forth hlt ha hf
    exact ⟨f', hf'⟩
  · intro m
    show m ∈ u.memDepHash ↔ ∃ f, u.heap m = some f ∧ f.squashed = false ∧ m ∉ r.completed
    rw [ha.memDepHash, mem_cons]
    constructor
    · rintro (rfl | hm)
      · refine ⟨e, ha.self, ha.fresh.2.2, fun hc => ?_⟩
        obtain ⟨f, hf⟩ := h.done _ hc
        exact h.none_new hlt f hf
      · obtain ⟨f, hf, hsq, hc⟩ := (h.live m).mp hm
        obtain ⟨f', hf', -, hsq', -⟩ := h.added_forth hlt ha hf
        exact ⟨f', hf', hsq'.trans hsq, hc⟩
    · rintro ⟨f', hf', hsq, hc⟩
      rcases h.added_back hlt ha hf' with ⟨rfl, -⟩ | ⟨-, f, hf, -, hsq', -⟩
      · exact Or.inl rfl
      · exact Or.inr ((h.live m).mpr ⟨f, hf, hsq'.symm.trans hsq, hc⟩)
  · show u.instList.Pairwise (· < ·)
    rw [ha.instList, pairwise_append]
    refine ⟨h.sorted, pairwise_singleton _ _, fun a haa b hb => ?_⟩
    rw [mem_singleton.mp hb]
    obtain ⟨f, hf, -⟩ := (h.live a).mp ((h.listed a).mp haa)
    exact Nat.lt_of_le_of_lt (h.young a f hf) hlt
  · intro m
    show m ∈ u.instList ↔ m ∈ u.memDepHash
    rw [ha.instList, ha.memDepHash, mem_append, mem_singleton, mem_cons, h.listed]
    exact or_comm
  · show Outstanding _ _ u.loadBarrierSNs
    rw [ha.loadBarrierSNs]
    exact h.added_outstanding hlt ha hlb h.loads
  · show Outstanding _ _ u.storeBarrierSNs
    rw [ha.storeBarrierSNs]
    exact h.added_outstanding hlt ha hsb h.stores
  · intro p f' hp hf'
    show f'.dependInsts.Nodup ∧ ∀ d, d ∈ f'.dependInsts ↔ p ∈ (ins d).elim [] Inserted.producers
    rcases h.added_back hlt ha hf' with ⟨rfl, rfl⟩ | ⟨hpne, f, hf, -, -, -, hdeps⟩
    · -- nothing waits for the new one
      rw [ha.fresh.1]
      refine ⟨nodup_nil, fun d => ⟨fun hd => absurd hd not_mem_nil, fun hd => ?_⟩⟩
      by_cases hdn : d = inst.seqNum
      · rw [hdn, hself] at hd
        obtain ⟨-, f, hf, -⟩ := hst _ hd
        exact absurd hf (h.none_new hlt f)
      · rw [hprod d hdn] at hd
        obtain ⟨f, hf, -⟩ := h.kinds d _ hd
        exact absurd hf (h.none_new hlt f)
    · have hp : p ∈ u.memDepHash := hp
      rw [ha.memDepHash, mem_cons] at hp
      obtain ⟨hnodup, hiff⟩ := h.deps p f (hp.resolve_left hpne) hf
      have hnot : inst.seqNum ∉ f.dependInsts := by
        rw [hiff, hold]
        exact not_mem_nil
      rw [hdeps]
      by_cases hps : p ∈ stores
      · rw [if_pos hps]
        refine ⟨concat_eq_append ▸ (nodup_concat _ _).mpr ⟨hnot, hnodup⟩, fun d => ?_⟩
        rw [mem_append, mem_singleton, hiff]
        by_cases hdn : d = inst.seqNum
        · rw [hdn, hself]
          exact ⟨fun _ => hps, fun _ => Or.inr rfl⟩
        · rw [hprod d hdn]
          exact ⟨fun hor => hor.resolve_right hdn, Or.inl⟩
      · rw [if_neg hps]
        refine ⟨hnodup, fun d => ?_⟩
        rw [hiff]
        by_cases hdn : d = inst.seqNum
        · rw [hdn, hself, hold]
          exact ⟨fun hd => absurd hd not_mem_nil, fun hd => absurd hd hps⟩
        · rw [hprod d hdn]
  · intro d f' hf'
    show f'.memDeps = ((ins d).elim [] Inserted.producers).countP fun p => p ∉ r.completed
    rcases h.added_back hlt ha hf' with ⟨rfl, rfl⟩ | ⟨hd, f, hf, -, -, hmem, -⟩
    · rw [hself, ha.fresh.2.1]
      refine (countP_eq_length.mpr fun p hp => ?_).symm
      obtain ⟨g, -, -, hc⟩ := (h.live p).mp (hst p hp).1
      exact decide_eq_true hc
    · rw [hprod d hd, hmem]
      exact h.memDeps d f hf

end Added

end Run

end Gem5Dvr.MemDep
