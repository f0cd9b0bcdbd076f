/-
  The histories of the TAGE predictor follow the surviving branches.

    1. `Follows`: histories that stand for a list of branches.  A new branch is one more, and the
       folded histories are the folds of the outcomes (`Folding.register_folded`).
    2. The ring of slots: what is written, and what is not (`slot_ne`).
    3. `Linked`: what the branches in flight keep.  From it a squash restores the histories of the
       older ones (`Linked.squash`).
    4. The invariant over the runs, and the result.
-/
import Gem5Dvr.Tage

namespace Gem5Dvr.Tage

open List Function

open Folding (folded)

variable {c : Config} {t : ThreadHistory} {bs : List Branch} {b : Branch}

/-! ## What histories stand for -/

/-- The outcomes of branches, the youngest first; none before them was taken. -/
def bitAt (bs : List Branch) (i : Nat) : Bool := (bs[i]?.map Branch.taken).getD false

@[simp] theorem bitAt_succ (b : Branch) (bs : List Branch) (i : Nat) :
    bitAt (b :: bs) (i + 1) = bitAt bs i := rfl

def pathOf (c : Config) : List Branch → Nat
  | [] => 0
  | b :: bs => ThreadHistory.nextPath c (pathOf c bs) b.pc

/-- A folded history, over the outcomes. -/
def foldOf (bs : List Branch) (f : FoldedHistory) : FoldedHistory :=
  { f with comp := folded f.compLength (bitAt bs) f.origLength }

def tableOf (bs : List Branch) (p : TableParams) : Table where
  computeIndices := foldOf bs (Table.init p).computeIndices
  computeTags0 := foldOf bs (Table.init p).computeTags0
  computeTags1 := foldOf bs (Table.init p).computeTags1

def tablesOf (c : Config) (bs : List Branch) : List Table := c.tables.map (tableOf bs)

/-- The size of the ring of slots. -/
def ring (c : Config) : Nat := c.histBufferSize - c.maxHist

/-- The histories stand for the branches. -/
structure Follows (c : Config) (t : ThreadHistory) (bs : List Branch) : Prop where
  gHist : t.gHist = t.ptGhist
  slot : t.ptGhist < ring c
  bits : ∀ i ≤ c.maxHist, t.globalHistory (t.ptGhist + i) = bitAt bs i
  path : t.pathHist = pathOf c bs
  tables : t.tables = tablesOf c bs

/-! ## Folded histories -/

/-- One outcome more. -/
theorem update_foldOf {f : FoldedHistory} (hpos : 0 < f.compLength) (hlt : f.compLength < 32)
    (hout : f.outpoint = f.origLength % f.compLength) {h : Nat → Bool} (hfront : h 0 = b.taken)
    (hold : h f.origLength = bitAt (b :: bs) f.origLength) :
    (foldOf bs f).update h = foldOf (b :: bs) f := by
  have hcomp : folded f.compLength (bitAt bs) f.origLength < 2 ^ f.compLength :=
    Folding.folded_lt hpos _ _
  have hwrap : folded f.compLength (bitAt bs) f.origLength <<< 1 < 2 ^ 32 := by
    have hpow : 2 ^ (f.compLength + 1) ≤ 2 ^ 32 := Nat.pow_le_pow_right (by decide) hlt
    omega
  have hreg := Folding.register_folded hpos f.origLength (bitAt (b :: bs))
  rw [foldOf, FoldedHistory.update, foldOf]
  simp only [Nat.mod_eq_of_lt hwrap, hfront, hold, hout]
  rw [FoldedHistory.mk.injEq]
  exact ⟨hreg, rfl, rfl, rfl⟩

/-- One outcome more, for the three of a table. -/
theorem update_tableOf {p : TableParams} (hp : p ∈ c.tables) {h : Nat → Bool}
    (hfront : h 0 = b.taken) (hold : ∀ i ≤ c.maxHist, h i = bitAt (b :: bs) i) :
    (tableOf bs p).update h = tableOf (b :: bs) p := by
  obtain ⟨hsize, hsize', hwidth, hwidth'⟩ := c.widths p hp
  have hlast := hold p.histLength (c.lengths p hp)
  rw [Table.update, tableOf, tableOf, Table.mk.injEq]
  refine ⟨update_foldOf hsize hsize' rfl hfront hlast,
    update_foldOf (Nat.lt_of_succ_lt hwidth) hwidth' rfl hfront hlast,
    update_foldOf (Nat.sub_pos_of_lt hwidth) ?_ rfl hfront hlast⟩
  exact Nat.lt_of_le_of_lt (Nat.sub_le _ _) hwidth'

theorem update_tablesOf {h : Nat → Bool} (hfront : h 0 = b.taken)
    (hold : ∀ i ≤ c.maxHist, h i = bitAt (b :: bs) i) :
    (tablesOf c bs).map (Table.update h) = tablesOf c (b :: bs) := by
  rw [tablesOf, tablesOf, map_map]
  exact map_congr_left fun p hp => update_tableOf hp hfront hold

/-- What was kept, taken up again. -/
theorem restore_tablesOf (bs bs' : List Branch) :
    zipWith Table.restore (tablesOf c bs) ((tablesOf c bs').map Table.save) =
      tablesOf c bs' := by
  rw [tablesOf, tablesOf, map_map, zipWith_map, zipWith_self]
  rfl

/-! ## The slots -/

theorem rollOver_eq (c : Config) (tab : Nat → Bool) (j : Nat) : ThreadHistory.rollOver c tab j =
      if ring c ≤ j ∧ j < ring c + c.maxHist then tab (j - ring c) else tab j := by
  have hroom := c.room
  have hloop : ∀ n ≤ c.maxHist, ∀ j, (List.range n).foldl
      (fun tab i => Function.update tab (c.histBufferSize - c.maxHist + i) (tab i)) tab j =
        if ring c ≤ j ∧ j < ring c + n then tab (j - ring c) else tab j := by
    intro n
    induction n with
    | zero =>
      intro _ j
      rw [if_neg (by omega)]
      rfl
    | succ n ih =>
      intro hn j
      rw [range_succ, foldl_append, foldl_cons, foldl_nil,
        ih (by omega) n, if_neg (by unfold ring; omega)]
      by_cases hj : j = c.histBufferSize - c.maxHist + n
      · rw [hj, update_self, if_pos (by unfold ring; omega),
          show c.histBufferSize - c.maxHist + n - ring c = n by unfold ring; omega]
      · rw [update_of_ne hj, ih (by omega) j]
        have hiff : (ring c ≤ j ∧ j < ring c + (n + 1)) ↔ (ring c ≤ j ∧ j < ring c + n) := by
          unfold ring at *
          omega
        rw [if_congr hiff rfl rfl]
  exact hloop c.maxHist (Nat.le_refl _) j

/-- The slot before one, around the ring. -/
def slotBefore (c : Config) (p : Nat) : Nat := if p = 0 then ring c - 1 else p - 1

theorem ring_pos (c : Config) : c.maxHist < ring c := by
  have hroom := c.room
  unfold ring
  omega

theorem slotBefore_lt {p : Nat} (hp : p < ring c) : slotBefore c p < ring c := by
  unfold slotBefore
  split <;> omega

theorem slotBefore_succ {p : Nat} (hp : p < ring c) : (slotBefore c p + 1) % ring c = p := by
  unfold slotBefore
  split
  · rename_i hzero
    rw [Nat.sub_add_cancel (by omega), Nat.mod_self, hzero]
  · rw [Nat.sub_add_cancel (by omega), Nat.mod_eq_of_lt hp]

/-- A slot, and one of the outcomes that are read from a slot further on. -/
theorem slot_ne {p d i : Nat} (hp : p < ring c) (hpos : 0 < d) (hd : d + c.maxHist < ring c)
    (hi : i ≤ c.maxHist) : (p + d) % ring c + i ≠ p := by
  by_cases hwrap : p + d < ring c
  · rw [Nat.mod_eq_of_lt hwrap]
    omega
  · have hmod : (p + d) % ring c = p + d - ring c := by
      rw [Nat.mod_eq_sub_mod (by omega), Nat.mod_eq_of_lt (by omega)]
    omega

/-- What `updateGHist` writes. -/
theorem updateGHist_spec (hg : t.gHist = t.ptGhist) (hslot : t.ptGhist < ring c) (dir : Bool) :
    (t.updateGHist c dir).ptGhist = slotBefore c t.ptGhist ∧
      (t.updateGHist c dir).gHist = slotBefore c t.ptGhist ∧
      (t.updateGHist c dir).globalHistory (slotBefore c t.ptGhist) = dir ∧
      (∀ i < c.maxHist, (t.updateGHist c dir).globalHistory (slotBefore c t.ptGhist + (i + 1)) =
        t.globalHistory (t.ptGhist + i)) ∧
      ∀ j, j ≠ slotBefore c t.ptGhist → (t.ptGhist = 0 → j < ring c) →
        (t.updateGHist c dir).globalHistory j = t.globalHistory j := by
  unfold ThreadHistory.updateGHist slotBefore
  by_cases hzero : t.ptGhist = 0
  · simp only [if_pos hzero]
    refine ⟨rfl, rfl, update_self .., fun i hi => ?_, fun j hj hlt => ?_⟩
    · have hne : ring c - 1 + (i + 1) ≠ ring c - 1 := by omega
      show Function.update (ThreadHistory.rollOver c t.globalHistory) (ring c - 1) dir
        (ring c - 1 + (i + 1)) = _
      rw [update_of_ne hne, rollOver_eq, if_pos (by omega), hzero]
      congr 1
      omega
    · show Function.update (ThreadHistory.rollOver c t.globalHistory) (ring c - 1) dir j = _
      rw [update_of_ne hj, rollOver_eq, if_neg (by have := hlt hzero; omega)]
  · simp only [if_neg hzero, hg]
    refine ⟨trivial, trivial, update_self .., fun i hi => ?_, fun j hj _ => ?_⟩
    · rw [update_of_ne (by omega)]
      congr 1
      omega
    · exact update_of_ne hj ..

/-! ## One step of the histories -/

theorem follows_init (c : Config) : Follows c (ThreadHistory.init c) [] where
  gHist := rfl
  slot := Nat.lt_of_le_of_lt (Nat.zero_le _) (ring_pos c)
  bits := fun _ _ => rfl
  path := rfl
  tables := by
    have hzero : ∀ len n, folded n (bitAt []) len = 0 := by
      intro len n
      induction len with
      | zero => rfl
      | succ len ih =>
        rw [Folding.folded, ih]
        simp [bitAt]
    show c.tables.map Table.init = c.tables.map (tableOf [])
    refine map_congr_left fun p _ => ?_
    simp [tableOf, foldOf, hzero, Table.init, FoldedHistory.init]

/-- What a branch keeps of the histories before it, and of itself. -/
structure Keeps (c : Config) (bi : BranchInfo) (b : Branch) (older : List Branch) (slot : Nat) :
    Prop where
  ptGhist : bi.ptGhist = slot
  path : bi.pathHist = pathOf c (b :: older)
  saved : bi.saved = (tablesOf c older).map Table.save

/-- A branch is one more. -/
theorem Follows.updateHistories (h : Follows c t bs) (hspec : c.speculativeHistUpdate = true)
    (pc : Addr) (taken : Bool) (bi : BranchInfo) : ∃ bi' t',
      t.updateHistories c pc taken bi true = some (bi', t') ∧ Follows c t' (⟨pc, taken⟩ :: bs) ∧
      Keeps c bi' ⟨pc, taken⟩ bs (slotBefore c t.ptGhist) ∧
      t'.ptGhist = slotBefore c t.ptGhist ∧
      ∀ j, j ≠ slotBefore c t.ptGhist → (t.ptGhist = 0 → j < ring c) →
        t'.globalHistory j = t.globalHistory j := by
  obtain ⟨hpt, hg, hnew, hmove, hframe⟩ := updateGHist_spec h.gHist h.slot taken
  have hbits : ∀ i ≤ c.maxHist, (t.updateGHist c taken).globalHistory
      (slotBefore c t.ptGhist + i) = bitAt (⟨pc, taken⟩ :: bs) i := by
    intro i hi
    cases i with
    | zero => exact hnew
    | succ i =>
      rw [hmove i hi, bitAt_succ]
      exact h.bits i (Nat.le_of_succ_le hi)
  have hpath : (t.updateGHist c taken).pathHist = t.pathHist ∧
      (t.updateGHist c taken).tables = t.tables := by
    unfold ThreadHistory.updateGHist
    split <;> exact ⟨rfl, rfl⟩
  have htables : t.tables.map (Table.update fun i =>
      (t.updateGHist c taken).globalHistory ((t.updateGHist c taken).gHist + i)) =
      tablesOf c (⟨pc, taken⟩ :: bs) := by
    rw [h.tables, hg]
    exact update_tablesOf (hbits 0 (Nat.zero_le _)) hbits
  refine ⟨{ pathHist := ThreadHistory.nextPath c t.pathHist pc,
            ptGhist := slotBefore c t.ptGhist, saved := t.tables.map Table.save },
    { t.updateGHist c taken with
      pathHist := ThreadHistory.nextPath c t.pathHist pc
      tables := tablesOf c (⟨pc, taken⟩ :: bs) },
    ?_, ⟨hg.trans hpt.symm, ?_, ?_, ?_, rfl⟩, ⟨rfl, ?_, ?_⟩, hpt, hframe⟩
  · unfold ThreadHistory.updateHistories
    rw [if_neg (by rw [hspec]; exact not_ne_iff.mpr rfl)]
    simp only [if_true, hpath.1, hpath.2, hpt]
    rw [if_pos hg, ← htables]
    rfl
  · show (t.updateGHist c taken).ptGhist < ring c
    rw [hpt]
    exact slotBefore_lt h.slot
  · intro i hi
    show (t.updateGHist c taken).globalHistory ((t.updateGHist c taken).ptGhist + i) = _
    rw [hpt]
    exact hbits i hi
  · show ThreadHistory.nextPath c t.pathHist pc = _
    rw [h.path]
    rfl
  · show ThreadHistory.nextPath c t.pathHist pc = _
    rw [h.path]
    rfl
  · show t.tables.map Table.save = _
    rw [h.tables]

/-! ## The branches in flight -/

/-- The entries stand in consecutive slots from `slot` on, each with what it keeps and with the
    outcomes up to its own behind it; `cs` have committed. -/
def Linked (c : Config) (cs : List Branch) (tab : Nat → Bool) : List PredictorHistory → Nat → Prop
  | [], _ => True
  | h :: hs, slot =>
    Keeps c h.bpHistory h.branch (hs.map PredictorHistory.branch ++ cs) slot ∧
      (∀ i ≤ c.maxHist, tab (slot + i) =
        bitAt (h.branch :: (hs.map PredictorHistory.branch ++ cs)) i) ∧
      Linked c cs tab hs ((slot + 1) % ring c)

variable {cs : List Branch} {tab tab' : Nat → Bool} {h : PredictorHistory}
  {hs : List PredictorHistory} {slot : Nat}

/-- Only the outcomes that can be read matter. -/
theorem Linked.frame : ∀ {hs : List PredictorHistory} {slot : Nat}, Linked c cs tab hs slot →
    slot < ring c → (∀ k < hs.length, ∀ i ≤ c.maxHist,
      tab' ((slot + k) % ring c + i) = tab ((slot + k) % ring c + i)) →
    Linked c cs tab' hs slot := by
  intro hs
  induction hs with
  | nil => exact fun _ _ _ => trivial
  | cons h hs ih =>
    intro slot hl hslot hsame
    obtain ⟨hkeeps, hbits, hl⟩ := hl
    refine ⟨hkeeps, fun i hi => ?_, ih hl (Nat.mod_lt _ (Nat.zero_lt_of_lt hslot)) ?_⟩
    · have hfirst := hsame 0 (Nat.succ_pos _) i hi
      rw [Nat.add_zero, Nat.mod_eq_of_lt hslot] at hfirst
      exact hfirst.trans (hbits i hi)
    · intro k hk i hi
      have hnext := hsame (k + 1) (Nat.succ_lt_succ hk) i hi
      rwa [Nat.mod_add_mod, Nat.add_assoc, Nat.add_comm 1 k]

/-- The older entries. -/
theorem Linked.drop : ∀ {pre : List PredictorHistory} {slot : Nat}, slot < ring c →
    Linked c cs tab (pre ++ hs) slot → ∃ slot' < ring c, Linked c cs tab hs slot' := by
  intro pre
  induction pre with
  | nil => exact fun hslot hl => ⟨_, hslot, hl⟩
  | cons h pre ih => exact fun hslot hl => ih (Nat.mod_lt _ (Nat.zero_lt_of_lt hslot)) hl.2.2

/-- The oldest entries commit. -/
theorem Linked.commit {old : List PredictorHistory} : ∀ {hs : List PredictorHistory}
    {slot : Nat}, Linked c cs tab (hs ++ old) slot →
      Linked c (old.map PredictorHistory.branch ++ cs) tab hs slot := by
  intro hs
  induction hs with
  | nil => exact fun _ => trivial
  | cons h hs ih =>
    intro slot hl
    have hmap : (hs ++ old).map PredictorHistory.branch ++ cs =
        hs.map PredictorHistory.branch ++ (old.map PredictorHistory.branch ++ cs) := by
      rw [map_append, append_assoc]
    exact ⟨hmap ▸ hl.1, hmap ▸ hl.2.1, ih hl.2.2⟩

/-- A correction: the histories of the older branches, and the corrected one. -/
theorem Linked.squash (hl : Linked c cs t.globalHistory (h :: hs) slot)
    (ht : t.tables = tablesOf c bs) (hspec : c.speculativeHistUpdate = true)
    (hslot : slot < ring c) (hfew : hs.length + c.maxHist < ring c) (taken : Bool) :
    Follows c (t.squash c taken h.bpHistory)
        (⟨h.pc, taken⟩ :: (hs.map PredictorHistory.branch ++ cs)) ∧
      Linked c cs (t.squash c taken h.bpHistory).globalHistory
        ({ h with predTaken := taken } :: hs) slot ∧
      (t.squash c taken h.bpHistory).ptGhist = slot := by
  obtain ⟨hkeeps, hbits, hold⟩ := hl
  have hsquash : t.squash c taken h.bpHistory = { t with
      pathHist := h.bpHistory.pathHist
      ptGhist := slot
      gHist := slot
      globalHistory := Function.update t.globalHistory slot taken
      tables := (tablesOf c (hs.map PredictorHistory.branch ++ cs)).map
        (Table.update fun i => Function.update t.globalHistory slot taken (slot + i)) } := by
    unfold ThreadHistory.squash
    rw [if_pos hspec, hkeeps.ptGhist, ThreadHistory.refold, ht, hkeeps.saved, restore_tablesOf]
    rfl
  have hwindow : ∀ i ≤ c.maxHist, Function.update t.globalHistory slot taken (slot + i) =
      bitAt (⟨h.pc, taken⟩ :: (hs.map PredictorHistory.branch ++ cs)) i := by
    intro i hi
    cases i with
    | zero => exact update_self ..
    | succ i =>
      rw [update_of_ne (by omega), bitAt_succ]
      exact hbits (i + 1) hi
  rw [hsquash]
  refine ⟨⟨rfl, hslot, hwindow, hkeeps.path, ?_⟩, ⟨⟨hkeeps.ptGhist, hkeeps.path, hkeeps.saved⟩,
    hwindow, hold.frame (Nat.mod_lt _ (Nat.zero_lt_of_lt hslot)) ?_⟩, rfl⟩
  · exact update_tablesOf (hwindow 0 (Nat.zero_le _)) hwindow
  · intro k hk i hi
    rw [Nat.mod_add_mod, Nat.add_assoc, Nat.add_comm 1 k]
    exact update_of_ne (slot_ne hslot (Nat.succ_pos k) (by omega) hi) ..

/-- A BTB miss corrects the branch that is youngest. -/
theorem btbUpdate_eq {bi : BranchInfo} {older : List Branch} (hf : Follows c t (b :: older))
    (hkeeps : Keeps c bi b older t.ptGhist) (hspec : c.speculativeHistUpdate = true) :
    t.btbUpdate c bi = some (t.squash c false bi) := by
  unfold ThreadHistory.btbUpdate ThreadHistory.squash
  rw [if_pos hspec, if_pos hf.gHist, if_pos hspec, hkeeps.ptGhist, hkeeps.path, ← hf.path, hf.gHist]

/-! ## The invariant -/

structure Inv (c : Config) (r : Run) : Prop where
  follows : Follows c r.tHist r.survivors
  linked : Linked c r.committed r.tHist.globalHistory r.predHist r.tHist.ptGhist
  few : r.predHist.length + c.maxHist < ring c

variable {r r' : Run}

theorem inv_init (c : Config) : Inv c (Run.init c) :=
  ⟨follows_init c, trivial, (Nat.zero_add _).symm ▸ ring_pos c⟩

theorem Inv.predict (h : Inv c r) (hspec : c.speculativeHistUpdate = true)
    (hfew : r.predHist.length + 1 < c.histBufferSize - 2 * c.maxHist) {seqNum : Nat} {pc : Addr}
    {taken btbMiss : Bool} (hstep : r.predict c seqNum pc taken btbMiss = some r') : Inv c r' := by
  have hroom : r.predHist.length + 1 + c.maxHist < ring c := by
    unfold ring
    omega
  have hslot := h.follows.slot
  obtain ⟨bi, t, hupdate, hfollows, hkeeps, hpt, hframe⟩ :=
    h.follows.updateHistories hspec pc taken {}
  -- the new slot is none that can be read from an older one
  have hold : Linked c r.committed t.globalHistory r.predHist
      ((slotBefore c r.tHist.ptGhist + 1) % ring c) := by
    rw [slotBefore_succ hslot]
    refine h.linked.frame hslot fun k hk i hi => hframe _ ?_ ?_
    · have hne := slot_ne (c := c) (p := slotBefore c r.tHist.ptGhist) (d := k + 1) (i := i)
        (slotBefore_lt hslot) (Nat.succ_pos k) (by omega) hi
      rwa [Nat.add_comm k 1, ← Nat.add_assoc, ← Nat.mod_add_mod, slotBefore_succ hslot] at hne
    · intro hzero
      rw [hzero, Nat.zero_add, Nat.mod_eq_of_lt (by omega)]
      omega
  have hlinked : Linked c r.committed t.globalHistory
      ({ seqNum := seqNum, pc := pc, predTaken := taken, bpHistory := bi } :: r.predHist)
      (slotBefore c r.tHist.ptGhist) :=
    ⟨hkeeps, fun i hi => hpt ▸ hfollows.bits i hi, hold⟩
  unfold Run.predict at hstep
  rw [hupdate, Option.bind_some] at hstep
  cases btbMiss with
  | false =>
    cases hstep
    rw [Bool.not_false, Bool.and_true]
    exact ⟨hfollows, by rw [← hpt] at hlinked; exact hlinked, hroom⟩
  | true =>
    rw [if_pos rfl, btbUpdate_eq hfollows (hpt ▸ hkeeps) hspec] at hstep
    cases hstep
    rw [Bool.not_true, Bool.and_false]
    obtain ⟨hfollows', hlinked', hpt'⟩ :=
      hlinked.squash hfollows.tables hspec (slotBefore_lt hslot) (by omega) false
    exact ⟨hfollows', by rw [← hpt'] at hlinked'; exact hlinked', hroom⟩

theorem updateLoop_eq (hspec : c.speculativeHistUpdate = true) (done_sn : Nat)
    (t : ThreadHistory) : ∀ hs : List PredictorHistory,
    updateLoop c done_sn hs t = some (hs.dropWhile fun h => h.seqNum ≤ done_sn, t) := by
  intro hs
  induction hs with
  | nil => rfl
  | cons h hs ih =>
    unfold updateLoop
    by_cases hle : h.seqNum ≤ done_sn
    · have hsame : t.updateHistories c h.pc h.predTaken h.bpHistory false =
          some (h.bpHistory, t) := by
        unfold ThreadHistory.updateHistories
        rw [if_pos (by rw [hspec]; exact Bool.false_ne_true)]
      rw [if_pos hle, hsame, Option.bind_some, ih, dropWhile_cons_of_pos (by simpa using hle)]
    · rw [if_neg hle, dropWhile_cons_of_neg (by simpa using hle)]

theorem Inv.update (h : Inv c r) (hspec : c.speculativeHistUpdate = true) {done_sn : Nat}
    (hstep : r.step c (.update done_sn) = some r') : Inv c r' := by
  unfold Run.step at hstep
  dsimp only at hstep
  rw [updateLoop_eq hspec] at hstep
  cases hstep
  generalize hkept : (r.predHist.reverse.dropWhile fun h => h.seqNum ≤ done_sn).reverse = kept
  have hlen : (r.predHist.reverse.dropWhile fun h => h.seqNum ≤ done_sn).length =
      kept.length := by
    rw [← hkept, length_reverse]
  have hcut : r.predHist = kept ++
      (r.predHist.reverse.takeWhile fun h => h.seqNum ≤ done_sn).reverse := by
    rw [← hkept, ← reverse_append, takeWhile_append_dropWhile, reverse_reverse]
  generalize (r.predHist.reverse.takeWhile fun h => h.seqNum ≤ done_sn).reverse = old at hcut
  have hfollows := h.follows
  have hlinked := h.linked
  have hfew := h.few
  unfold Run.survivors at hfollows
  rw [hcut] at hlinked hfollows hfew
  dsimp only
  rw [hkept, hlen, hcut, drop_left]
  refine ⟨?_, hlinked.commit, ?_⟩
  · show Follows c r.tHist (kept.map PredictorHistory.branch ++
      (old.map PredictorHistory.branch ++ r.committed))
    rw [← append_assoc, ← map_append]
    exact hfollows
  · rw [length_append] at hfew
    show kept.length + c.maxHist < ring c
    omega

theorem Inv.squash (h : Inv c r) {squashed_sn : Nat}
    (hnone : r.NoneLost (.squash squashed_sn)) (hstep : r.step c (.squash squashed_sn) = some r') :
    Inv c r' := by
  cases hstep
  have hsame : r.older squashed_sn = r.predHist := (dropWhile_sublist _).eq_of_length hnone
  rw [hsame]
  exact h

theorem Inv.squashMispredict (h : Inv c r) (hspec : c.speculativeHistUpdate = true)
    {squashed_sn : Nat} {actually_taken : Bool}
    (hnone : r.NoneLost (.squashMispredict squashed_sn actually_taken))
    (hstep : r.step c (.squashMispredict squashed_sn actually_taken) = some r') : Inv c r' := by
  unfold Run.step at hstep
  dsimp only at hstep
  cases holder : r.older squashed_sn with
  | nil =>
    rw [holder] at hstep
    cases hstep
    have hempty : r.predHist = [] := length_eq_zero_iff.mp (hnone (by rw [holder]; rfl))
    rw [← hempty]
    exact h
  | cons x rest =>
    rw [holder] at hstep
    dsimp only at hstep
    split at hstep
    · cases hstep
      have hcut : r.predHist = (r.predHist.takeWhile fun h => h.seqNum > squashed_sn) ++
          (x :: rest) := by
        rw [← holder, Run.older, takeWhile_append_dropWhile]
      have hlinked := h.linked
      have hfew := h.few
      rw [hcut] at hlinked hfew
      rw [length_append, length_cons] at hfew
      obtain ⟨slot, hslot, hlinked⟩ := hlinked.drop h.follows.slot
      obtain ⟨hfollows', hlinked', hpt'⟩ :=
        hlinked.squash h.follows.tables hspec hslot (by omega) actually_taken
      refine ⟨hfollows', by rw [← hpt'] at hlinked'; exact hlinked', ?_⟩
      show rest.length + 1 + c.maxHist < ring c
      omega
    · cases hstep

theorem Inv.step (h : Inv c r) (hspec : c.speculativeHistUpdate = true) {e : Event}
    (hok : r.Few c e ∧ r.NoneLost e) (hstep : r.step c e = some r') : Inv c r' := by
  cases e with
  | lookup seqNum branch_pc retval btbMiss => exact h.predict hspec hok.1 hstep
  | uncondBranch seqNum br_pc btbMiss => exact h.predict hspec hok.1 hstep
  | update done_sn => exact h.update hspec hstep
  | squash squashed_sn => exact h.squash hok.2 hstep
  | squashMispredict squashed_sn actually_taken => exact h.squashMispredict hspec hok.2 hstep

/-! ## The surviving branches -/

theorem saw_follows (hspec : c.speculativeHistUpdate = true) : ∀ bs : List Branch,
    ∃ t, Run.saw c bs = some t ∧ Follows c t bs := by
  intro bs
  induction bs with
  | nil => exact ⟨_, rfl, follows_init c⟩
  | cons b bs ih =>
    obtain ⟨t, ht, hf⟩ := ih
    obtain ⟨bi, t', hupdate, hf', -⟩ := hf.updateHistories hspec b.pc b.taken {}
    refine ⟨t', ?_, hf'⟩
    rw [Run.saw, ht, Option.bind_some, hupdate]
    rfl

/-- Every folded history is the sum of the slices of the outcomes it covers. -/
theorem Follows.slices (h : Follows c t bs) {x : Table} (hx : x ∈ t.tables) {f : FoldedHistory}
    (hf : f ∈ x.folds) : f.comp = Folding.slices f.compLength (f.origLength / f.compLength + 1)
      (Folding.value t.bits f.origLength) := by
  rw [h.tables] at hx
  obtain ⟨p, hp, rfl⟩ := mem_map.mp hx
  obtain ⟨hsize, -, hwidth, -⟩ := c.widths p hp
  have hbits : ∀ k < p.histLength, bitAt bs k = t.bits k := by
    intro k hk
    rw [ThreadHistory.bits, h.gHist]
    exact (h.bits k (Nat.le_trans (Nat.le_of_lt hk) (c.lengths p hp))).symm
  have hfold : ∀ n, 0 < n → folded n (bitAt bs) p.histLength =
      Folding.slices n (p.histLength / n + 1) (Folding.value t.bits p.histLength) := by
    intro n hn
    rw [Folding.folded_congr hbits]
    refine Folding.folded_eq_slices hn _ _ _ (Nat.le_of_lt ?_)
    rw [Nat.mul_comm]
    exact Nat.lt_mul_div_succ _ hn
  simp only [Table.folds, mem_cons, not_mem_nil, or_false] at hf
  rcases hf with rfl | rfl | rfl
  · exact hfold _ hsize
  · exact hfold _ (Nat.lt_of_succ_lt hwidth)
  · exact hfold _ (Nat.sub_pos_of_lt hwidth)

namespace Run

/-- While few branches are in flight and none is squashed but above one that is corrected, the
    histories are those of a predictor that saw only the surviving branches. -/
theorem histories_of_survivors (c : Config) (hspec : c.speculativeHistUpdate = true)
    {es : List Event} {r : Run}
    (hok : Trace.Obeys (fun r e => r.Few c e ∧ r.NoneLost e) (step c) (init c) es)
    (hrun : Trace.runs (step c) (init c) es = some r) :
    (∃ t, r.reference c = some t ∧ (∀ i ≤ c.maxHist, r.tHist.bits i = t.bits i) ∧
      r.tHist.pathHist = t.pathHist ∧ r.tHist.tables = t.tables) ∧
    ∀ x ∈ r.tHist.tables, ∀ f ∈ x.folds,
      f.comp = Folding.slices f.compLength (f.origLength / f.compLength + 1)
        (Folding.value r.tHist.bits f.origLength) := by
  have hinv : Inv c r := hok.invariant (Inv c)
    (fun _ _ _ h hok hstep => h.step hspec hok hstep) (inv_init c) hrun
  obtain ⟨t, ht, hf⟩ := saw_follows hspec r.survivors
  refine ⟨⟨t, ht, fun i hi => ?_, ?_, ?_⟩, fun x hx f hf => hinv.follows.slices hx hf⟩
  · rw [ThreadHistory.bits, ThreadHistory.bits, hinv.follows.gHist, hf.gHist,
      hinv.follows.bits i hi, hf.bits i hi]
  · rw [hinv.follows.path, hf.path]
  · rw [hinv.follows.tables, hf.tables]

/-- Ten slots and one table: a ring of seven, with room for three branches in flight. -/
def small : Config where
  histBufferSize := 10
  maxHist := 3
  pathHistBits := 4
  instShiftAmt := 2
  speculativeHistUpdate := true
  tables := [⟨3, 2, 3⟩]
  room := by decide
  lengths := by decide
  widths := by decide

/-- A run that rolls over, with a BTB miss and two corrections. -/
theorem histories_of_survivors_small : ∃ r, Trace.runs (step small) (init small)
    [.lookup 1 0x10 true false, .uncondBranch 2 0x14 true, .squashMispredict 2 true, .update 2,
      .lookup 3 0x20 true false, .lookup 4 0x24 true false, .lookup 5 0x28 false false, .update 3,
      .squashMispredict 4 false, .update 4, .lookup 6 0x30 true true, .lookup 7 0x34 true false,
      .update 7, .lookup 8 0x10 true false] = some r ∧
    ∃ t, r.reference small = some t ∧ (∀ i ≤ small.maxHist, r.tHist.bits i = t.bits i) ∧
      r.tHist.pathHist = t.pathHist ∧ r.tHist.tables = t.tables := by
  refine (Option.isSome_iff_exists.mp ?_).imp fun r hr =>
    ⟨hr, (histories_of_survivors small rfl ?_ hr).1⟩
  · decide
  · decide

/-- A plain squash leaves the outcome of the branch it deletes. -/
theorem squashed_branch_stays : ∃ r t, Trace.Obeys (Few small) (step small) (init small)
      [.lookup 1 0x10 true false, .squash 0] ∧
    Trace.runs (step small) (init small) [.lookup 1 0x10 true false, .squash 0] = some r ∧
    r.reference small = some t ∧ r.tHist.bits 0 ≠ t.bits 0 ∧ r.tHist.tables ≠ t.tables :=
  ⟨_, _, by decide, rfl, rfl, by decide +kernel, by decide +kernel⟩

end Run

end Gem5Dvr.Tage
