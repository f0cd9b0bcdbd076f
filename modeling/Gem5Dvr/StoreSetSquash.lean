/-
  Squashing in the store-set predictor (`cpu/o3/store_set.cc` 119-356).

    1. `Run`: the calls on one predictor, with the numbers of the stores that were inserted.
    2. `Listed`: the slot of a listed store holds a number at least as high, so each turn of the
       loop of `squash` removes an element (`squashLoop_eq`).
    3. The crux (`Backed`): a valid slot names a listed store.  A store that issues leaves the list,
       and its slot only if its address still belongs to that set; a violation in between may
       have moved it to another one.  `Settled` leaves these issues out.
-/
import Gem5Dvr.StoreSet

namespace Gem5Dvr.MemDep.StoreSet

open List Function

/-! ## Runs -/

def insertLoad (clearPeriod : Nat) (s : StoreSet) : StoreSet := s.checkClear clearPeriod

inductive Call where
  | insertStore (store_PC store_seq_num : Nat)
  | insertLoad (load_PC load_seq_num : Nat)
  | violation (store_PC load_PC : Nat)
  | issued (issued_PC issued_seq_num : Nat) (is_store : Bool)
  | squash (squashed_num : Nat)
  deriving DecidableEq, Repr

/-- A predictor, and the stores that were inserted so far. -/
structure Run where
  pred : StoreSet := {}
  inserted : List Nat := []

namespace Run

variable (clearPeriod SSITSize LFSTSize : Nat) (r : Run)

def step : Call → Option Run
  | .insertStore pc n =>
    some ⟨r.pred.insertStore clearPeriod SSITSize pc n, n :: r.inserted⟩
  | .insertLoad _ _ => some { r with pred := r.pred.insertLoad clearPeriod }
  | .violation store load => some { r with pred := r.pred.violation SSITSize LFSTSize store load }
  | .issued pc n is_store => some { r with pred := r.pred.issued SSITSize pc n is_store }
  | .squash n => (r.pred.squash n).map fun s => { r with pred := s }

/-- The numbers of stores increase, also after a squash. -/
def Fresh : Call → Prop
  | .insertStore _ n => ∀ m ∈ r.inserted, m < n
  | _ => True

instance : ∀ c, Decidable (r.Fresh c)
  | .insertStore _ n => inferInstanceAs (Decidable (∀ m ∈ r.inserted, m < n))
  | .insertLoad .. => isTrue trivial
  | .violation .. => isTrue trivial
  | .issued .. => isTrue trivial
  | .squash _ => isTrue trivial

/-- A store that issues still belongs to the set that has it for the last fetched one. -/
def Settled : Call → Prop
  | .issued pc n is_store => is_store = true →
    ∀ idx, r.pred.LFST idx = some n → r.pred.SSIT (calcIndex SSITSize pc) = some idx
  | _ => True

/-- What a squash should leave. -/
structure Squashed (n : Nat) : Prop where
  listed : ∀ x ∈ r.pred.storeList, x.1 ≤ n
  checked : ∀ pc, r.pred.checkInst SSITSize pc = 0 ∨
    r.pred.checkInst SSITSize pc ∈ r.inserted ∧ r.pred.checkInst SSITSize pc ≤ n

end Run

/-! ## The loop of `squash` -/

variable {s : StoreSet} {num : Nat}

/-- The slots of some sets are not valid any more. -/
def dropSlots (l : List (Nat × Nat)) (LFST : Nat → Option Nat) : Nat → Option Nat :=
  fun idx => if ∃ x ∈ l, x.2 = idx then none else LFST idx

theorem dropSlots_nil (LFST : Nat → Option Nat) : dropSlots [] LFST = LFST := by
  funext idx
  exact if_neg fun ⟨_, hx, _⟩ => not_mem_nil hx

/-- The elements that are younger, and the others. -/
def younger (num : Nat) (l : List (Nat × Nat)) : List (Nat × Nat) := l.takeWhile fun x => x.1 > num

def notYounger (num : Nat) (l : List (Nat × Nat)) : List (Nat × Nat) :=
  l.dropWhile fun x => x.1 > num

/-- Where the slots are at least as high as the elements, the loop ends, and has taken the younger
    elements with their slots. -/
theorem squashLoop_eq : ∀ (l : List (Nat × Nat)) (s : StoreSet),
    (∀ x ∈ l, x.1 ≤ s.lastLFST x.2) → squashLoop num l s =
      some { s with LFST := dropSlots (younger num l) s.LFST, storeList := notYounger num l } := by
  intro l
  induction l with
  | nil =>
    intro s _
    show some { s with storeList := [] } =
      some { s with LFST := dropSlots [] s.LFST, storeList := [] }
    rw [dropSlots_nil]
  | cons x rest ih =>
    intro s hle
    obtain ⟨n, idx⟩ := x
    rw [squashLoop]
    by_cases hn : n ≤ num
    · have hnot : ¬ n > num := Nat.not_lt.mpr hn
      have hyoung : younger num ((n, idx) :: rest) = [] := by simp [younger, hnot]
      have hold : notYounger num ((n, idx) :: rest) = (n, idx) :: rest := by
        simp [notYounger, hnot]
      rw [if_pos hn, hyoung, hold, dropSlots_nil]
    · have hgt : n > num := Nat.lt_of_not_le hn
      have hslot : s.lastLFST idx > num := Nat.lt_of_lt_of_le hgt (hle (n, idx) mem_cons_self)
      rw [if_neg hn, if_pos hslot, ih { s with LFST := update s.LFST idx none }
        fun x hx => hle x (mem_cons_of_mem _ hx)]
      have hyoung : younger num ((n, idx) :: rest) = (n, idx) :: younger num rest := by
        simp [younger, hgt]
      have hold : notYounger num ((n, idx) :: rest) = notYounger num rest := by
        simp [notYounger, hgt]
      rw [hyoung, hold]
      congr 2
      funext i
      unfold dropSlots
      by_cases hi : idx = i
      · subst hi
        simp
      · have hne : ¬ i = idx := fun h => hi h.symm
        simp only [update_of_ne hne, mem_cons, exists_eq_or_imp, hi, false_or]

/-! ## What a run keeps -/

/-- The list is in falling order, its stores were inserted, and the slot of each holds a number at
    least as high; a valid slot names a store that was inserted. -/
structure Listed (r : Run) : Prop where
  sorted : r.pred.storeList.Pairwise fun x y => x.1 > y.1
  inserted : ∀ x ∈ r.pred.storeList, x.1 ∈ r.inserted
  bound : ∀ x ∈ r.pred.storeList, x.1 ≤ r.pred.lastLFST x.2
  slot : ∀ idx m, r.pred.LFST idx = some m → m ∈ r.inserted

/-- A valid slot names a listed store. -/
def Backed (s : StoreSet) : Prop := ∀ idx m, s.LFST idx = some m → (m, idx) ∈ s.storeList

variable {clearPeriod SSITSize LFSTSize : Nat} {r r' : Run}

/-- What a call other than an insertion leaves: a part of the list and of the valid slots. -/
structure Shrinks (s s' : StoreSet) : Prop where
  storeList : s'.storeList.Sublist s.storeList
  lastLFST : s'.lastLFST = s.lastLFST
  LFST : ∀ idx m, s'.LFST idx = some m → s.LFST idx = some m

theorem Listed.shrinks (h : Listed r) {s : StoreSet} (hs : Shrinks r.pred s) :
    Listed { r with pred := s } where
  sorted := h.sorted.sublist hs.storeList
  inserted x hx := h.inserted x (hs.storeList.subset hx)
  bound x hx := by
    show x.1 ≤ s.lastLFST x.2
    rw [hs.lastLFST]
    exact h.bound x (hs.storeList.subset hx)
  slot idx m hm := h.slot idx m (hs.LFST idx m hm)

theorem checkClear_shrinks (clearPeriod : Nat) (s : StoreSet) :
    Shrinks s (s.checkClear clearPeriod) := by
  unfold checkClear
  split
  · exact ⟨nil_sublist _, rfl, fun _ _ => (nomatch ·)⟩
  · exact ⟨Sublist.refl _, rfl, fun _ _ hm => hm⟩

theorem Backed.checkClear (h : Backed s) (clearPeriod : Nat) :
    Backed (s.checkClear clearPeriod) := by
  unfold StoreSet.checkClear
  split
  · exact fun _ _ => (nomatch ·)
  · exact h

variable {n pc : Nat} {l : List (Nat × Nat)}

/-- A number above all in the list goes to its front. -/
theorem insertList_front {ssid : Nat} : ∀ {l : List (Nat × Nat)}, (∀ x ∈ l, x.1 < n) →
    insertList n ssid l = (n, ssid) :: l
  | [], _ => rfl
  | (m, i) :: rest, h => by
    have hm : m < n := h (m, i) mem_cons_self
    rw [insertList, if_neg (by omega), if_neg (by omega)]

theorem Listed.insertStore (h : Listed r) (hfresh : ∀ m ∈ r.inserted, m < n) :
    Listed ⟨r.pred.insertStore clearPeriod SSITSize pc n, n :: r.inserted⟩ := by
  have hc := h.shrinks (checkClear_shrinks clearPeriod r.pred)
  unfold StoreSet.insertStore
  dsimp only
  generalize r.pred.checkClear clearPeriod = s at hc
  split
  · exact ⟨hc.sorted, fun x hx => mem_cons_of_mem _ (hc.inserted x hx), hc.bound,
      fun idx m hm => mem_cons_of_mem _ (hc.slot idx m hm)⟩
  · next ssid _ =>
    have hlt : ∀ x ∈ s.storeList, x.1 < n := fun x hx => hfresh _ (hc.inserted x hx)
    refine ⟨?_, ?_, ?_, ?_⟩
    · show (insertList n ssid s.storeList).Pairwise _
      rw [insertList_front hlt]
      exact pairwise_cons.mpr ⟨hlt, hc.sorted⟩
    · show ∀ x ∈ insertList n ssid s.storeList, _
      rw [insertList_front hlt]
      intro x hx
      rcases mem_cons.mp hx with rfl | hx
      · exact mem_cons_self
      · exact mem_cons_of_mem _ (hc.inserted x hx)
    · show ∀ x ∈ insertList n ssid s.storeList, x.1 ≤ update s.lastLFST ssid n x.2
      rw [insertList_front hlt]
      intro x hx
      rcases mem_cons.mp hx with rfl | hx
      · exact Nat.le_of_eq (update_self ssid n s.lastLFST).symm
      · by_cases hid : x.2 = ssid
        · rw [hid, update_self]
          exact Nat.le_of_lt (hlt x hx)
        · rw [update_of_ne hid]
          exact hc.bound x hx
    · show ∀ idx m, update s.LFST ssid (some n) idx = some m → _
      intro idx m hm
      by_cases hid : idx = ssid
      · rw [hid, update_self] at hm
        obtain rfl := Option.some.inj hm
        exact mem_cons_self
      · rw [update_of_ne hid] at hm
        exact mem_cons_of_mem _ (hc.slot idx m hm)

theorem Backed.insertStore (h : Listed r) (hb : Backed r.pred) (hfresh : ∀ m ∈ r.inserted, m < n) :
    Backed (r.pred.insertStore clearPeriod SSITSize pc n) := by
  have hc := h.shrinks (checkClear_shrinks clearPeriod r.pred)
  have hbc := hb.checkClear clearPeriod
  unfold StoreSet.insertStore
  dsimp only
  generalize r.pred.checkClear clearPeriod = s at hc hbc
  split
  · exact hbc
  · next ssid _ =>
    have hlt : ∀ x ∈ s.storeList, x.1 < n := fun x hx => hfresh _ (hc.inserted x hx)
    intro idx m hm
    show (m, idx) ∈ insertList n ssid s.storeList
    rw [insertList_front hlt]
    have hm : update s.LFST ssid (some n) idx = some m := hm
    by_cases hid : idx = ssid
    · rw [hid, update_self] at hm
      obtain rfl := Option.some.inj hm
      rw [hid]
      exact mem_cons_self
    · rw [update_of_ne hid] at hm
      exact mem_cons_of_mem _ (hbc idx m hm)

/-- What `issued` leaves of the list and the slots. -/
theorem issued_spec (SSITSize pc n : Nat) (s : StoreSet) :
    (s.issued SSITSize pc n true).storeList = s.storeList.filter (fun x => x.1 ≠ n) ∧
      (s.issued SSITSize pc n true).lastLFST = s.lastLFST ∧
      ∀ idx m, (s.issued SSITSize pc n true).LFST idx = some m → s.LFST idx = some m ∧
        (m = n → s.SSIT (calcIndex SSITSize pc) ≠ some idx) := by
  unfold issued
  rw [if_neg Bool.noConfusion]
  dsimp only
  cases hssit : s.SSIT (calcIndex SSITSize pc) with
  | none => exact ⟨rfl, rfl, fun idx m hm => ⟨hm, fun _ h => nomatch h⟩⟩
  | some ssid =>
    dsimp only
    split
    · next hslot =>
      refine ⟨rfl, rfl, fun idx m hm => ?_⟩
      have hm : update s.LFST ssid none idx = some m := hm
      by_cases hid : idx = ssid
      · rw [hid, update_self] at hm
        cases hm
      · rw [update_of_ne hid] at hm
        exact ⟨hm, fun _ h => hid (Option.some.inj h).symm⟩
    · next hslot =>
      refine ⟨rfl, rfl, fun idx m hm => ⟨hm, fun hmn h => ?_⟩⟩
      obtain rfl := Option.some.inj h
      exact hslot (hmn ▸ hm)

theorem issued_shrinks (SSITSize pc n : Nat) (is_store : Bool) (s : StoreSet) :
    Shrinks s (s.issued SSITSize pc n is_store) := by
  cases is_store with
  | false => exact ⟨Sublist.refl _, rfl, fun _ _ hm => hm⟩
  | true =>
    obtain ⟨hlist, hlast, hslots⟩ := issued_spec SSITSize pc n s
    refine ⟨?_, hlast, fun idx m hm => (hslots idx m hm).1⟩
    rw [hlist]
    exact filter_sublist

theorem Backed.issued {is_store : Bool} (hb : Backed s)
    (hset : is_store = true → ∀ idx, s.LFST idx = some n →
      s.SSIT (calcIndex SSITSize pc) = some idx) : Backed (s.issued SSITSize pc n is_store) := by
  cases is_store with
  | false => exact hb
  | true =>
    obtain ⟨hlist, -, hslots⟩ := issued_spec SSITSize pc n s
    intro idx m hm
    obtain ⟨hold, hother⟩ := hslots idx m hm
    rw [hlist, mem_filter]
    refine ⟨hb idx m hold, ?_⟩
    -- a slot that still names the store that issued would have been cleared
    have hne : m ≠ n := fun hmn => hother hmn (hset rfl idx (hmn ▸ hold))
    simpa using hne

theorem violation_storeList (SSITSize LFSTSize store load : Nat) (s : StoreSet) :
    (s.violation SSITSize LFSTSize store load).storeList = s.storeList ∧
      (s.violation SSITSize LFSTSize store load).lastLFST = s.lastLFST := by
  unfold violation
  dsimp only
  split
  · exact ⟨rfl, rfl⟩
  · exact ⟨rfl, rfl⟩
  · exact ⟨rfl, rfl⟩
  · split
    · exact ⟨rfl, rfl⟩
    · exact ⟨rfl, rfl⟩

theorem violation_shrinks (SSITSize LFSTSize store load : Nat) (s : StoreSet) :
    Shrinks s (s.violation SSITSize LFSTSize store load) := by
  obtain ⟨hlist, hlast⟩ := violation_storeList SSITSize LFSTSize store load s
  refine ⟨?_, hlast, fun idx m hm => ?_⟩
  · rw [hlist]
  · rw [violation_LFST] at hm
    exact hm

theorem Backed.violation {store load : Nat} (hb : Backed s) :
    Backed (s.violation SSITSize LFSTSize store load) := by
  unfold Backed
  rw [violation_LFST, (violation_storeList SSITSize LFSTSize store load s).1]
  exact hb

/-! ### A squash -/

theorem mem_notYounger (hs : l.Pairwise fun x y => x.1 > y.1)
    {x : Nat × Nat} : x ∈ notYounger num l ↔ x ∈ l ∧ x.1 ≤ num := by
  induction l with
  | nil => simp [notYounger]
  | cons y rest ih =>
    obtain ⟨hy, hrest⟩ := pairwise_cons.mp hs
    by_cases hgt : y.1 > num
    · have hcons : notYounger num (y :: rest) = notYounger num rest := by simp [notYounger, hgt]
      rw [hcons, ih hrest, mem_cons]
      constructor
      · rintro ⟨hx, hle⟩
        exact ⟨Or.inr hx, hle⟩
      · rintro ⟨rfl | hx, hle⟩
        · omega
        · exact ⟨hx, hle⟩
    · have hcons : notYounger num (y :: rest) = y :: rest := by simp [notYounger, hgt]
      rw [hcons]
      constructor
      · intro hx
        refine ⟨hx, ?_⟩
        rcases mem_cons.mp hx with rfl | hx
        · omega
        · have := hy x hx
          omega
      · exact fun h => h.1

theorem mem_younger {x : Nat × Nat} (hx : x ∈ l)
    (hs : l.Pairwise fun x y => x.1 > y.1) (hgt : x.1 > num) : x ∈ younger num l := by
  have hsplit : younger num l ++ notYounger num l = l := takeWhile_append_dropWhile
  rw [← hsplit] at hx
  rcases mem_append.mp hx with h | h
  · exact h
  · have hle := ((mem_notYounger hs).mp h).2
    omega

theorem squash_eq (h : Listed r) (num : Nat) : r.pred.squash num = some { r.pred with
    LFST := dropSlots (younger num r.pred.storeList) r.pred.LFST
    storeList := notYounger num r.pred.storeList } :=
  squashLoop_eq r.pred.storeList r.pred h.bound

theorem dropSlots_some {LFST : Nat → Option Nat} {idx m : Nat}
    (h : dropSlots l LFST idx = some m) : LFST idx = some m ∧ ∀ x ∈ l, x.2 ≠ idx := by
  unfold dropSlots at h
  split at h
  · cases h
  · next hno => exact ⟨h, fun x hx heq => hno ⟨x, hx, heq⟩⟩

theorem squash_shrinks (num : Nat) (s : StoreSet) : Shrinks s { s with
    LFST := dropSlots (younger num s.storeList) s.LFST
    storeList := notYounger num s.storeList } :=
  ⟨dropWhile_sublist _, rfl, fun _ _ hm => (dropSlots_some hm).1⟩

/-- A slot that stays valid names a store that is not younger. -/
theorem Backed.squash (h : Listed r) (hb : Backed r.pred) {num idx m : Nat}
    (hm : dropSlots (younger num r.pred.storeList) r.pred.LFST idx = some m) :
    (m, idx) ∈ notYounger num r.pred.storeList ∧ m ≤ num := by
  obtain ⟨hslot, hother⟩ := dropSlots_some hm
  have hmem := hb idx m hslot
  have hle : m ≤ num := by
    by_contra hgt
    exact hother (m, idx) (mem_younger hmem h.sorted (by omega)) rfl
  exact ⟨(mem_notYounger h.sorted).mpr ⟨hmem, hle⟩, hle⟩

/-! ## Every run -/

/-- A legal call has a result, and keeps the list; a settled one keeps the slots backed. -/
theorem step_keeps (clearPeriod SSITSize LFSTSize : Nat) (h : Listed r) {c : Call}
    (hfresh : r.Fresh c) :
    ∃ r', r.step clearPeriod SSITSize LFSTSize c = some r' ∧ Listed r' ∧
      (r.Settled SSITSize c → Backed r.pred → Backed r'.pred) := by
  cases c with
  | insertStore pc n =>
    exact ⟨_, rfl, h.insertStore hfresh, fun _ hb => Backed.insertStore h hb hfresh⟩
  | insertLoad pc n =>
    exact ⟨_, rfl, h.shrinks (checkClear_shrinks clearPeriod r.pred),
      fun _ hb => hb.checkClear clearPeriod⟩
  | violation store load =>
    exact ⟨_, rfl, h.shrinks (violation_shrinks SSITSize LFSTSize store load r.pred),
      fun _ hb => hb.violation⟩
  | issued pc n is_store =>
    exact ⟨_, rfl, h.shrinks (issued_shrinks SSITSize pc n is_store r.pred),
      fun hset hb => hb.issued hset⟩
  | squash num =>
    exact ⟨_, congrArg (Option.map _) (squash_eq h num), h.shrinks (squash_shrinks num r.pred),
      fun _ hb _ _ hm => (Backed.squash h hb hm).1⟩

theorem listed_init : Listed {} :=
  ⟨List.Pairwise.nil, fun _ => (nomatch ·), fun _ => (nomatch ·), fun _ _ => (nomatch ·)⟩

/-- A run with fresh numbers goes on for ever; one whose issues are settled keeps the slots
    backed. -/
theorem run_keeps {cs : List Call} (h : Listed r)
    (hfresh : Trace.Obeys Run.Fresh (Run.step clearPeriod SSITSize LFSTSize) r cs) :
    ∃ r', Trace.runs (Run.step clearPeriod SSITSize LFSTSize) r cs = some r' ∧ Listed r' ∧
      (Trace.Obeys (Run.Settled SSITSize) (Run.step clearPeriod SSITSize LFSTSize) r cs →
        Backed r.pred → Backed r'.pred) := by
  induction cs generalizing r with
  | nil => exact ⟨r, rfl, h, fun _ hb => hb⟩
  | cons c cs ih =>
    obtain ⟨t, ht, hlisted, hbacked⟩ := step_keeps clearPeriod SSITSize LFSTSize h hfresh.1
    obtain ⟨r', hrun, hlisted', hbacked'⟩ := ih hlisted (hfresh.2 t ht)
    refine ⟨r', ?_, hlisted', fun hset hb => hbacked' (hset.2 t ht) (hbacked hset.1 hb)⟩
    show (Run.step clearPeriod SSITSize LFSTSize r c).bind _ = _
    rw [ht]
    exact hrun

/-- After every run a squash ends and leaves no younger store in the list; where the issues of the
    run were settled it leaves none in the slots either. -/
theorem squash_leaves_none (clearPeriod SSITSize LFSTSize : Nat) (cs : List Call) (n : Nat)
    (hfresh : Trace.Obeys Run.Fresh (Run.step clearPeriod SSITSize LFSTSize) {} cs) :
    ∃ r r', Trace.runs (Run.step clearPeriod SSITSize LFSTSize) {} cs = some r ∧
      r.step clearPeriod SSITSize LFSTSize (.squash n) = some r' ∧
      (∀ x ∈ r'.pred.storeList, x.1 ≤ n) ∧
      (Trace.Obeys (Run.Settled SSITSize) (Run.step clearPeriod SSITSize LFSTSize) {} cs →
        r'.Squashed SSITSize n) := by
  obtain ⟨r, hrun, hlisted, hbacked⟩ := run_keeps listed_init hfresh
  have hstep : r.step clearPeriod SSITSize LFSTSize (.squash n) = _ :=
    congrArg (Option.map _) (squash_eq hlisted n)
  have hlist : ∀ x ∈ notYounger n r.pred.storeList, x.1 ≤ n :=
    fun x hx => ((mem_notYounger hlisted.sorted).mp hx).2
  refine ⟨r, _, hrun, hstep, hlist, fun hset => ⟨hlist, fun pc => ?_⟩⟩
  have hb := hbacked hset fun _ _ hm => nomatch hm
  unfold checkInst
  dsimp only
  cases r.pred.SSIT (calcIndex SSITSize pc) with
  | none => exact Or.inl rfl
  | some idx =>
    rw [Option.bind_some]
    cases hm : dropSlots (younger n r.pred.storeList) r.pred.LFST idx with
    | none => exact Or.inl rfl
    | some m =>
      exact Or.inr ⟨hlisted.slot idx m (dropSlots_some hm).1, (Backed.squash hlisted hb hm).2⟩

/-! ## A store that has left its set -/

/-- The store at 12 is put in the set of the load at 8, is fetched, is moved to the set of the load
    at 4, and issues. -/
def movedStore : List Call :=
  [.violation 12 8, .violation 16 4, .insertStore 12 1, .violation 12 4, .issued 12 1 true]

/-- The first set goes on naming it: after a squash of all stores the load at 8 still depends on
    number 1. -/
theorem squashed_store_left : Trace.Obeys Run.Fresh (Run.step 250000 1024 1024) {} movedStore ∧
      ((Trace.runs (Run.step 250000 1024 1024) {} movedStore).bind fun r =>
        (r.step 250000 1024 1024 (.squash 0)).map fun r' => r'.pred.checkInst 1024 8) = some 1 ∧
      ¬ ∀ r r', Trace.runs (Run.step 250000 1024 1024) {} movedStore = some r →
        r.step 250000 1024 1024 (.squash 0) = some r' → r'.Squashed 1024 0 := by
  have hleft : ((Trace.runs (Run.step 250000 1024 1024) {} movedStore).bind fun r =>
      (r.step 250000 1024 1024 (.squash 0)).map fun r' => r'.pred.checkInst 1024 8) = some 1 := by
    decide
  refine ⟨by decide, hleft, fun h => ?_⟩
  obtain ⟨r, hr, hleft⟩ := Option.bind_eq_some_iff.mp hleft
  obtain ⟨r', hr', hcheck⟩ := Option.map_eq_some_iff.mp hleft
  rcases (h r r' hr hr').checked 8 with h0 | ⟨-, hle⟩
  · rw [hcheck] at h0
    cases h0
  · rw [hcheck] at hle
    cases hle

/-- A store that issues from the set it was fetched in, and one that is squashed. -/
def settledStores : List Call :=
  [.violation 12 8, .insertStore 12 1, .issued 12 1 true, .insertStore 12 2, .insertLoad 8 3]

/-- The second store is squashed, and its slot is given up. -/
theorem squash_leaves_none_settled :
    ∃ r r', Trace.runs (Run.step 250000 1024 1024) {} settledStores = some r ∧
      r.step 250000 1024 1024 (.squash 1) = some r' ∧ r'.Squashed 1024 1 := by
  obtain ⟨r, r', hrun, hsquash, _, hsettled⟩ :=
    squash_leaves_none 250000 1024 1024 settledStores 1 (by decide)
  refine ⟨r, r', hrun, hsquash, hsettled ?_⟩
  refine ⟨trivial, fun s₁ h₁ => ⟨trivial, fun s₂ h₂ => ⟨fun _ idx hslot => ?_, fun s₃ h₃ =>
    ⟨trivial, fun s₄ h₄ => ⟨trivial, fun _ _ => trivial⟩⟩⟩⟩⟩
  cases h₁
  cases h₂
  -- the one valid slot is that of the set of both
  have hupdate : update (fun _ => none) 8 (some 1) idx = some 1 := hslot
  by_cases hidx : idx = 8
  · rw [hidx]
    decide
  · rw [update_of_ne hidx] at hupdate
    cases hupdate

end Gem5Dvr.MemDep.StoreSet
