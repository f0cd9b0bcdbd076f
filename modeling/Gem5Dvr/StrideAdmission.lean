/-
  Which strides the stride detector admits (`DVRStrideDetector`, `cpu/o3/pre.cc` 20-179).

  1. **Specification** — `Watched` keeps beside the detector what a reader of the calls knows: the
     addresses seen for each PC since it was installed, and the PCs in order of observation.  `pairs`
     counts the pairs of consecutive observations with a given difference.

  2. **Training (`Admission`)** — the confidence of an entry never exceeds the number of pairs that
     have its stride, so a confidence of two is evidence of two equal steps.  The entries keep
     different PCs, since only a PC that is in no valid entry is installed.

  3. **One notification (`notified_le`)** — the flag of a PC is set by an arming event only and cleared
     by the candidate it gives.

  4. **Replacement (`Aged`)** — the age of an entry is the number of the observation it was last seen
     at.  The counter has 64 bits: after `2^64` observations it starts again, and the oldest entry no
     longer has the least age (`age_wraps`).
-/
import Gem5Dvr.StrideDetector
import Gem5Dvr.Lib.Recency
import Gem5Dvr.Lib.Trace

namespace Gem5Dvr.StrideDetector

open Function

open Detector

/-! ## Specification -/

/-- A detector, with the addresses observed for each PC since it was installed and the PCs observed,
    the last ones first. -/
structure Watched (n : Nat) where
  detector : Detector (n + 1) := {}
  log : Addr → List Addr := fun _ => []
  uses : List Addr := []

variable {n : Nat}

/-- One call. -/
def watch (w : Watched n) (e : Event) : Watched n :=
  match e with
  | .observe pc address =>
      { detector := step 0 w.detector e
        log := update w.log pc
          (if (lookup w.detector.entries pc).isSome then address :: w.log pc else [address])
        uses := pc :: w.uses }
  | .reset => {}
  | _ => { w with detector := step 0 w.detector e }

/-- A fresh detector after a sequence of calls. -/
def watched (n : Nat) (es : List Event) : Watched n := es.foldl watch {}

/-- The candidate a call returns. -/
def candidate (d : Detector (n + 1)) : Event → Option Candidate
  | .observe pc address => (d.observe 0 pc address).2
  | .observeDispatch pc discovery_active trigger_pc sequence =>
      (d.observeDispatch pc discovery_active trigger_pc sequence).2
  | _ => none

/-- The pairs of consecutive observations whose addresses differ by `stride`. -/
def pairs (stride : BitVec 64) : List Addr → Nat
  | [] => 0
  | address :: rest =>
      (match rest with
        | [] => 0
        | lastAddress :: _ => if address - lastAddress = stride then 1 else 0) + pairs stride rest

/-- The confidence of a PC; an unknown one has none. -/
def confidence (d : Detector (n + 1)) (pc : Addr) : Nat :=
  match lookup d.entries pc with
  | none => 0
  | some i => (d.entries i).confidence

/-- The call arms the notification of the PC. -/
def Arms (pc : Addr) (d : Detector (n + 1)) (e : Event) : Prop :=
  e = .endDiscovery ∨ (∃ address, e = .observe pc address) ∧
    confidence d pc < CandidateConfidence ∧ confidence (step 0 d e) pc = CandidateConfidence

/-- No call arms the notification of the PC. -/
def Quiet (pc : Addr) (d : Detector (n + 1)) (es : List Event) : Prop :=
  Trace.Admits (fun d e => ¬ Arms pc d e) (step 0) d es

/-- A dispatch of the PC outside discovery. -/
def IsDispatch (pc : Addr) : Event → Bool
  | .observeDispatch pc' discovery_active _ _ => pc' == pc && !discovery_active
  | _ => false

/-- The candidates that such dispatches return. -/
def notified (pc : Addr) : Detector (n + 1) → List Event → Nat
  | _, [] => 0
  | d, e :: es =>
      (if IsDispatch pc e = true ∧ (candidate d e).isSome = true then 1 else 0)
        + notified pc (step 0 d e) es

/-- The entry that an unknown PC is installed in was free; or there is no free one and every other PC
    was observed after its own. -/
def ReplacesOldest (w : Watched n) (pc address : Addr) : Prop :=
  ∃ i, (∀ j, j ≠ i → (step 0 w.detector (.observe pc address)).entries j = w.detector.entries j) ∧
    ((step 0 w.detector (.observe pc address)).entries i).pc = pc ∧
    ((w.detector.entries i).valid = false ∨ (∀ j, (w.detector.entries j).valid = true) ∧
      ∀ j, j ≠ i → (w.detector.entries j).pc ∈ Recency.since (w.detector.entries i).pc w.uses)

/-! ## What each call does to the table -/

section calls

variable {d : Detector (n + 1)}

theorem lookup_some {entries : Fin n → Entry} {pc : Addr} {i : Fin n}
    (h : lookup entries pc = some i) : (entries i).valid = true ∧ (entries i).pc = pc := by
  have hfound := List.find?_some h
  simpa using hfound

theorem lookup_none {entries : Fin n → Entry} {pc : Addr} (h : lookup entries pc = none) (i : Fin n)
    (hv : (entries i).valid = true) : (entries i).pc ≠ pc := by
  have hall := List.find?_eq_none.mp h i (List.mem_finRange i)
  simpa [hv] using hall

/-- What a new PC is installed as. -/
def installed (pc address : Addr) (age : BitVec 64) : Entry :=
  { valid := true, pc := pc, lastAddress := address, age := age }

theorem observe_unknown {pc : Addr} (h : lookup d.entries pc = none) (address : Addr) :
    (d.observe 0 pc address).1.entries = update d.entries
        (victim d.entries (List.finRange (n + 1)) 0) (installed pc address (d.timestamp + 1)) ∧
      (d.observe 0 pc address).2 = none := by
  unfold Detector.observe
  rw [h]
  exact ⟨rfl, rfl⟩

theorem observe_known {pc : Addr} {i : Fin (n + 1)} (h : lookup d.entries pc = some i)
    (address : Addr) :
    (d.observe 0 pc address).1.entries
        = update d.entries i (train (d.entries i) address (d.timestamp + 1)) ∧
      (d.observe 0 pc address).2 =
        if (train (d.entries i) address (d.timestamp + 1)).stride ≠ 0 ∧
            (train (d.entries i) address (d.timestamp + 1)).candidatePending then
          some ⟨pc, address, (train (d.entries i) address (d.timestamp + 1)).stride, false⟩
        else none := by
  unfold Detector.observe
  rw [h]
  exact ⟨rfl, rfl⟩

/-- An entry whose candidate has been handed out. -/
def consumed (entry : Entry) : Entry := { entry with candidatePending := false }

/-- A dispatch either leaves the table alone or hands out the candidate of one entry. -/
theorem observeDispatchFrom_spec (pc : Addr) (discovery_active : Bool) (trigger_pc : Addr)
    (sequence : Nat) (l : List (Fin (n + 1))) (d : Detector (n + 1)) :
    let r := observeDispatchFrom pc discovery_active trigger_pc sequence l d
    (r.1.entries = d.entries ∧ (discovery_active = false → r.2 = none) ∧
      ∀ c, r.2 = some c → c.pc = pc ∧ ∃ i, admitted (d.entries i) pc = true ∧
        c.stride = (d.entries i).stride) ∨
    discovery_active = false ∧ ∃ i, admitted (d.entries i) pc = true ∧
      (d.entries i).candidatePending = true ∧
      r.1.entries = update d.entries i (consumed (d.entries i)) ∧
      ∃ c, r.2 = some c ∧ c.pc = pc ∧ c.stride = (d.entries i).stride := by
  induction l generalizing d with
  | nil => exact Or.inl ⟨rfl, fun _ => rfl, nofun⟩
  | cons index rest ih =>
    simp only [observeDispatchFrom]
    split_ifs with hadm hact hseen hpending
    · exact ih d
    · -- the bit of the entry is set, and the table stays
      exact ih { d with
        discoverySeenWrites := ⟨sequence, index⟩ :: d.discoverySeenWrites
        discoveryBits := setDiscoverySeen d.discoveryBits index true }
    · left
      refine ⟨rfl, fun hno => absurd hact (by simp [hno]), ?_⟩
      rintro c ⟨⟩
      exact ⟨rfl, index, by simpa using hadm, rfl⟩
    · right
      exact ⟨by simpa using hact, index, by simpa using hadm, hpending, rfl, _, rfl, rfl, rfl⟩
    · exact ih d

end calls

/-! ## Training one entry -/

section train

variable (entry : Entry) (address : Addr) (timestamp : BitVec 64)

theorem train_valid : (train entry address timestamp).valid = entry.valid := by
  unfold train
  simp only
  split_ifs <;> rfl

theorem train_pc : (train entry address timestamp).pc = entry.pc := by
  unfold train
  simp only
  split_ifs <;> rfl

theorem train_lastAddress : (train entry address timestamp).lastAddress = address := by
  unfold train
  simp only

theorem train_age : (train entry address timestamp).age = timestamp := by
  unfold train
  simp only

theorem train_stride : (train entry address timestamp).stride =
    if address - entry.lastAddress ≠ 0 ∧ address - entry.lastAddress = entry.stride then entry.stride
    else if entry.confidence - 1 = 0 then address - entry.lastAddress else entry.stride := by
  unfold train
  simp only
  split_ifs <;> rfl

theorem train_confidence : (train entry address timestamp).confidence =
    if address - entry.lastAddress ≠ 0 ∧ address - entry.lastAddress = entry.stride then
      if entry.confidence < MaxConfidence then entry.confidence + 1 else entry.confidence
    else entry.confidence - 1 := by
  unfold train
  simp only
  split_ifs <;> rfl

theorem train_pending : (train entry address timestamp).candidatePending =
    if (train entry address timestamp).confidence < CandidateConfidence then false
    else if entry.confidence < CandidateConfidence then true
    else entry.candidatePending := by
  unfold train
  simp only
  split_ifs <;> rfl

/-- The stride of an entry changes only when its confidence is spent. -/
theorem train_stride_change (h : (train entry address timestamp).stride ≠ entry.stride) :
    (train entry address timestamp).confidence = 0 := by
  rw [train_stride] at h
  rw [train_confidence]
  split_ifs at h ⊢ <;> first | rfl | omega | exact absurd rfl h

end train

/-! ## The evidence for a stride -/

@[simp] theorem pairs_cons_cons (stride : BitVec 64) (address lastAddress : Addr) (rest : List Addr) :
    pairs stride (address :: lastAddress :: rest)
      = (if address - lastAddress = stride then 1 else 0) + pairs stride (lastAddress :: rest) := rfl

/-- What is known of an entry, given the addresses seen for its PC. -/
structure EntryOk (log : Addr → List Addr) (entry : Entry) : Prop where
  confidence_le : entry.confidence ≤ MaxConfidence
  last : entry.valid = true → ∃ rest, log entry.pc = entry.lastAddress :: rest
  evidence : entry.valid = true → entry.confidence ≤ pairs entry.stride (log entry.pc)
  pending : entry.candidatePending = true → CandidateConfidence ≤ entry.confidence

section entryOk

variable {log : Addr → List Addr} {entry : Entry}

/-- Only the log of its own PC matters to an entry. -/
theorem EntryOk.of_log {log' : Addr → List Addr} (h : EntryOk log entry)
    (hlog : entry.valid = true → log' entry.pc = log entry.pc) : EntryOk log' entry := by
  refine ⟨h.confidence_le, ?_, ?_, h.pending⟩
  · intro hv
    rw [hlog hv]
    exact h.last hv
  · intro hv
    rw [hlog hv]
    exact h.evidence hv

theorem EntryOk.installed (pc address : Addr) (age : BitVec 64) (log : Addr → List Addr)
    (hlog : log pc = [address]) : EntryOk log (installed pc address age) := by
  refine ⟨Nat.zero_le _, ?_, ?_, nofun⟩
  · intro _
    exact ⟨[], hlog⟩
  · intro _
    exact Nat.zero_le _

/-- An observation adds one pair, and one to the confidence only if the pair has the stride. -/
theorem EntryOk.train (h : EntryOk log entry) (hv : entry.valid = true) (address : Addr)
    (timestamp : BitVec 64) :
    EntryOk (update log entry.pc (address :: log entry.pc)) (train entry address timestamp) := by
  obtain ⟨rest, hlast⟩ := h.last hv
  have hmax := h.confidence_le
  have hevidence := h.evidence hv
  rw [hlast] at hevidence
  refine ⟨?_, ?_, ?_, ?_⟩
  · rw [train_confidence]
    split_ifs <;> omega
  · intro _
    rw [train_pc, train_lastAddress, update_self]
    exact ⟨_, rfl⟩
  · intro _
    rw [train_pc, update_self, hlast, pairs_cons_cons, train_confidence, train_stride]
    by_cases hpair : address - entry.lastAddress ≠ 0 ∧ address - entry.lastAddress = entry.stride
    · rw [if_pos hpair, if_pos hpair, if_pos hpair.2]
      split_ifs <;> omega
    · rw [if_neg hpair, if_neg hpair]
      by_cases hspent : entry.confidence - 1 = 0
      · omega
      · rw [if_neg hspent]
        omega
  · intro hpending
    rw [train_pending] at hpending
    split_ifs at hpending <;> omega

theorem EntryOk.consumed (h : EntryOk log entry) : EntryOk log (consumed entry) :=
  ⟨h.confidence_le, h.last, h.evidence, nofun⟩

theorem EntryOk.rearm (h : EntryOk log entry) : EntryOk log (rearm entry) := by
  refine ⟨h.confidence_le, h.last, h.evidence, ?_⟩
  intro hpending
  simp only [Detector.rearm, Bool.and_eq_true, decide_eq_true_eq] at hpending
  exact hpending.2

end entryOk

/-! ## The table -/

/-- Valid entries keep different PCs. -/
def Distinct (d : Detector (n + 1)) : Prop :=
  ∀ i j, (d.entries i).valid = true → (d.entries j).valid = true →
    (d.entries i).pc = (d.entries j).pc → i = j

/-- The table is what the observations warrant. -/
structure Admission (w : Watched n) : Prop where
  distinct : Distinct w.detector
  entry : ∀ i, EntryOk w.log (w.detector.entries i)

theorem Distinct.of_same {d d' : Detector (n + 1)} (h : Distinct d)
    (hsame : ∀ i, (d'.entries i).valid = (d.entries i).valid ∧ (d'.entries i).pc = (d.entries i).pc) :
    Distinct d' := by
  intro i j hi hj hpc
  rw [(hsame i).1] at hi
  rw [(hsame j).1] at hj
  rw [(hsame i).2, (hsame j).2] at hpc
  exact h i j hi hj hpc

/-- A valid entry is the one the search finds. -/
theorem Distinct.lookup {d : Detector (n + 1)} (h : Distinct d) {i : Fin (n + 1)}
    (hv : (d.entries i).valid = true) : Detector.lookup d.entries (d.entries i).pc = some i := by
  cases hl : Detector.lookup d.entries (d.entries i).pc with
  | none => exact absurd rfl (lookup_none hl i hv)
  | some j =>
    obtain ⟨hj, hpc⟩ := lookup_some hl
    rw [h j i hj hv hpc]

section distinct

variable {d : Detector (n + 1)}

theorem Distinct.observe (h : Distinct d) (pc address : Addr) : Distinct (d.observe 0 pc address).1 := by
  cases hl : Detector.lookup d.entries pc with
  | none =>
    have hnew := (observe_unknown hl address).1
    intro i j hi hj hpc
    rw [hnew] at hi hj hpc
    by_cases hiv : i = victim d.entries (List.finRange (n + 1)) 0
    · by_cases hjv : j = victim d.entries (List.finRange (n + 1)) 0
      · rw [hiv, hjv]
      · rw [update_of_ne hjv] at hj hpc
        rw [hiv, update_self] at hpc
        exact absurd hpc.symm (lookup_none hl j hj)
    · rw [update_of_ne hiv] at hi hpc
      by_cases hjv : j = victim d.entries (List.finRange (n + 1)) 0
      · rw [hjv, update_self] at hpc
        exact absurd hpc (lookup_none hl i hi)
      · rw [update_of_ne hjv] at hj hpc
        exact h i j hi hj hpc
  | some k =>
    refine h.of_same fun i => ?_
    rw [(observe_known hl address).1]
    by_cases hik : i = k
    · subst hik
      rw [update_self, train_valid, train_pc]
      exact ⟨rfl, rfl⟩
    · rw [update_of_ne hik]
      exact ⟨rfl, rfl⟩

theorem Distinct.observeDispatch (h : Distinct d) (pc : Addr) (discovery_active : Bool)
    (trigger_pc : Addr) (sequence : Nat) :
    Distinct (d.observeDispatch pc discovery_active trigger_pc sequence).1 := by
  refine h.of_same fun i => ?_
  rcases observeDispatchFrom_spec pc discovery_active trigger_pc sequence
    (List.finRange (n + 1)) d with ⟨hsame, -⟩ | ⟨-, k, -, -, hnew, -⟩
  · unfold Detector.observeDispatch
    rw [hsame]
    exact ⟨rfl, rfl⟩
  · unfold Detector.observeDispatch
    rw [hnew]
    by_cases hik : i = k
    · subst hik
      rw [update_self]
      exact ⟨rfl, rfl⟩
    · rw [update_of_ne hik]
      exact ⟨rfl, rfl⟩

theorem Distinct.step (h : Distinct d) (e : Event) : Distinct (step 0 d e) := by
  cases e with
  | observe pc address => exact h.observe pc address
  | observeDispatch pc discovery_active trigger_pc sequence =>
    exact h.observeDispatch pc discovery_active trigger_pc sequence
  | beginDiscovery trigger_pc => exact h.of_same fun _ => ⟨rfl, rfl⟩
  | squashDiscovery squash_sequence => exact h.of_same fun _ => ⟨rfl, rfl⟩
  | endDiscovery => exact h.of_same fun _ => ⟨rfl, rfl⟩
  | reset => exact fun _ _ hi => nomatch hi

end distinct

section admission

variable {w : Watched n}

/-- The log of the other PCs is not touched. -/
theorem Admission.other (h : Admission w) {pc : Addr} (addresses : List Addr) {j : Fin (n + 1)}
    (hne : (w.detector.entries j).valid = true → (w.detector.entries j).pc ≠ pc) :
    EntryOk (update w.log pc addresses) (w.detector.entries j) :=
  (h.entry j).of_log fun hv => update_of_ne (hne hv) _ _

theorem Admission.observe (h : Admission w) (pc address : Addr) :
    Admission (watch w (.observe pc address)) := by
  refine ⟨h.distinct.observe pc address, ?_⟩
  intro j
  show EntryOk (update w.log pc _) ((w.detector.observe 0 pc address).1.entries j)
  cases hl : lookup w.detector.entries pc with
  | none =>
    rw [(observe_unknown hl address).1]
    by_cases hj : j = victim w.detector.entries (List.finRange (n + 1)) 0
    · rw [hj, update_self]
      exact EntryOk.installed pc address _ _ (update_self pc _ _)
    · rw [update_of_ne hj]
      exact h.other _ (lookup_none hl j)
  | some i =>
    obtain ⟨hv, rfl⟩ := lookup_some hl
    rw [(observe_known hl address).1]
    by_cases hj : j = i
    · rw [hj, update_self]
      exact (h.entry i).train hv address _
    · rw [update_of_ne hj]
      exact h.other _ fun hvj hpc => hj (h.distinct j i hvj hv hpc)

theorem Admission.step (h : Admission w) (e : Event) : Admission (watch w e) := by
  cases e with
  | observe pc address => exact h.observe pc address
  | observeDispatch pc discovery_active trigger_pc sequence =>
    refine ⟨h.distinct.observeDispatch pc discovery_active trigger_pc sequence, ?_⟩
    intro j
    show EntryOk w.log ((w.detector.observeDispatch pc discovery_active trigger_pc sequence).1.entries j)
    unfold Detector.observeDispatch
    rcases observeDispatchFrom_spec pc discovery_active trigger_pc sequence
      (List.finRange (n + 1)) w.detector with ⟨hsame, -⟩ | ⟨-, k, -, -, hnew, -⟩
    · rw [hsame]
      exact h.entry j
    · rw [hnew]
      by_cases hj : j = k
      · rw [hj, update_self]
        exact (h.entry k).consumed
      · rw [update_of_ne hj]
        exact h.entry j
  | beginDiscovery trigger_pc => exact ⟨h.distinct.step (.beginDiscovery trigger_pc), h.entry⟩
  | squashDiscovery squash_sequence =>
    exact ⟨h.distinct.step (.squashDiscovery squash_sequence), h.entry⟩
  | endDiscovery => exact ⟨h.distinct.step .endDiscovery, fun j => (h.entry j).rearm⟩
  | reset =>
    exact ⟨h.distinct.step .reset, fun j => ⟨Nat.zero_le _, nofun, nofun, nofun⟩⟩

/-- A candidate has a stride, and two pairs of observations that have it. -/
theorem Admission.candidate (h : Admission w) {e : Event} {c : Candidate}
    (hc : candidate w.detector e = some c) :
    c.stride ≠ 0 ∧ 2 ≤ pairs c.stride ((watch w e).log c.pc) := by
  cases e with
  | observe pc address =>
    have hnext := h.observe pc address
    simp only [StrideDetector.candidate] at hc
    cases hl : lookup w.detector.entries pc with
    | none =>
      rw [(observe_unknown hl address).2] at hc
      cases hc
    | some i =>
      obtain ⟨hv, hpc⟩ := lookup_some hl
      rw [(observe_known hl address).2] at hc
      split_ifs at hc with hnotify
      cases hc
      have hentry := hnext.entry i
      have htrained : (watch w (.observe pc address)).detector.entries i
          = train (w.detector.entries i) address (w.detector.timestamp + 1) := by
        show (w.detector.observe 0 pc address).1.entries i = _
        rw [(observe_known hl address).1, update_self]
      rw [htrained] at hentry
      have hevidence := hentry.evidence (by rw [train_valid, hv])
      have htwo := hentry.pending hnotify.2
      rw [train_pc, hpc] at hevidence
      exact ⟨hnotify.1, Nat.le_trans htwo hevidence⟩
  | observeDispatch pc discovery_active trigger_pc sequence =>
    have hadmitted : c.pc = pc ∧ ∃ i, admitted (w.detector.entries i) pc = true ∧
        c.stride = (w.detector.entries i).stride := by
      rcases observeDispatchFrom_spec pc discovery_active trigger_pc sequence
        (List.finRange (n + 1)) w.detector with ⟨-, -, hsome⟩ | ⟨-, i, hadm, -, -, c', hc', hpc, hst⟩
      · exact hsome c hc
      · have heq : some c = some c' := hc.symm.trans hc'
        cases heq
        exact ⟨hpc, i, hadm, hst⟩
    obtain ⟨rfl, i, hadm, hstride⟩ := hadmitted
    simp only [admitted, Bool.and_eq_true, beq_iff_eq, bne_iff_ne, decide_eq_true_eq] at hadm
    obtain ⟨⟨⟨hv, hpc⟩, hne⟩, htwo⟩ := hadm
    have hevidence := (h.entry i).evidence hv
    rw [hpc] at hevidence
    rw [hstride]
    exact ⟨hne, Nat.le_trans htwo hevidence⟩
  | _ => cases hc

/-- A stride changes only in an entry whose confidence is zero. -/
theorem stride_change {d : Detector (n + 1)} {e : Event} {i : Fin (n + 1)}
    (hne : ((step 0 d e).entries i).stride ≠ (d.entries i).stride) :
    ((step 0 d e).entries i).confidence = 0 := by
  cases e with
  | observe pc address =>
    simp only [StrideDetector.step] at hne ⊢
    cases hl : lookup d.entries pc with
    | none =>
      rw [(observe_unknown hl address).1] at hne ⊢
      by_cases hi : i = victim d.entries (List.finRange (n + 1)) 0
      · rw [hi, update_self]
        rfl
      · rw [update_of_ne hi] at hne
        exact absurd rfl hne
    | some k =>
      rw [(observe_known hl address).1] at hne ⊢
      by_cases hi : i = k
      · rw [hi, update_self] at hne ⊢
        exact train_stride_change _ _ _ hne
      · rw [update_of_ne hi] at hne
        exact absurd rfl hne
  | observeDispatch pc discovery_active trigger_pc sequence =>
    exfalso
    apply hne
    show ((d.observeDispatch pc discovery_active trigger_pc sequence).1.entries i).stride = _
    unfold Detector.observeDispatch
    rcases observeDispatchFrom_spec pc discovery_active trigger_pc sequence
      (List.finRange (n + 1)) d with ⟨hsame, -⟩ | ⟨-, k, -, -, hnew, -⟩
    · rw [hsame]
    · rw [hnew]
      by_cases hi : i = k
      · rw [hi, update_self]
        rfl
      · rw [update_of_ne hi]
  | beginDiscovery trigger_pc => exact absurd rfl hne
  | squashDiscovery squash_sequence => exact absurd rfl hne
  | endDiscovery => exact absurd rfl hne
  | reset => rfl

end admission

theorem admission_watched (n : Nat) (es : List Event) : Admission (watched n es) := by
  have h0 : Admission ({} : Watched n) :=
    ⟨fun _ _ => nofun, fun _ => ⟨Nat.zero_le _, nofun, nofun, nofun⟩⟩
  exact List.foldlRecOn (motive := Admission) es _ h0 fun _ h e _ => h.step e

/-! ## One notification -/

/-- The notification of the PC is pending. -/
def Pending (d : Detector (n + 1)) (pc : Addr) : Prop :=
  ∃ i, (d.entries i).valid = true ∧ (d.entries i).pc = pc ∧ (d.entries i).candidatePending = true

section notify

variable {d : Detector (n + 1)} {pc : Addr}

/-- Only an arming call sets the flag. -/
theorem Pending.of_step (h : Distinct d) {e : Event} (hquiet : ¬ Arms pc d e)
    (hpending : Pending (step 0 d e) pc) : Pending d pc := by
  obtain ⟨i, hv, hpc, hp⟩ := hpending
  cases e with
  | observe pc' address =>
    simp only [StrideDetector.step] at hv hpc hp
    cases hl : lookup d.entries pc' with
    | none =>
      rw [(observe_unknown hl address).1] at hv hpc hp
      by_cases hi : i = victim d.entries (List.finRange (n + 1)) 0
      · rw [hi, update_self] at hp
        cases hp
      · rw [update_of_ne hi] at hv hpc hp
        exact ⟨i, hv, hpc, hp⟩
    | some k =>
      obtain ⟨hvk, hpck⟩ := lookup_some hl
      rw [(observe_known hl address).1] at hv hpc hp
      by_cases hi : i = k
      · -- the entry of the PC itself: its flag was set, or this call arms it
        subst hi
        rw [update_self, train_pc] at hpc
        rw [update_self] at hp
        refine ⟨i, hvk, hpc, ?_⟩
        have hold : confidence d pc = (d.entries i).confidence := by
          unfold confidence
          rw [← hpc, h.lookup hvk]
        have hnew : confidence (StrideDetector.step 0 d (.observe pc' address)) pc
            = (train (d.entries i) address (d.timestamp + 1)).confidence := by
          have hd := h.step (.observe pc' address)
          have hentry : (StrideDetector.step 0 d (.observe pc' address)).entries i
              = train (d.entries i) address (d.timestamp + 1) := by
            show (d.observe 0 pc' address).1.entries i = _
            rw [(observe_known hl address).1, update_self]
          have hfound := hd.lookup (i := i) (by rw [hentry, train_valid, hvk])
          rw [hentry, train_pc, hpc] at hfound
          unfold confidence
          rw [hfound]
          simp only
          rw [hentry]
        have hno : ¬ (confidence d pc < CandidateConfidence ∧
            confidence (StrideDetector.step 0 d (.observe pc' address)) pc = CandidateConfidence) :=
          fun harm => hquiet (Or.inr ⟨⟨address, by rw [← hpck, hpc]⟩, harm⟩)
        rw [hold, hnew] at hno
        rw [train_pending] at hp
        split_ifs at hp with hlow hcross
        · exfalso
          apply hno
          refine ⟨hcross, ?_⟩
          have hconf := train_confidence (d.entries i) address (d.timestamp + 1)
          split_ifs at hconf <;> omega
        · exact hp
      · rw [update_of_ne hi] at hv hpc hp
        exact ⟨i, hv, hpc, hp⟩
  | observeDispatch pc' discovery_active trigger_pc sequence =>
    simp only [StrideDetector.step, Detector.observeDispatch] at hv hpc hp
    rcases observeDispatchFrom_spec pc' discovery_active trigger_pc sequence
      (List.finRange (n + 1)) d with ⟨hsame, -⟩ | ⟨-, k, -, -, hnew, -⟩
    · rw [hsame] at hv hpc hp
      exact ⟨i, hv, hpc, hp⟩
    · rw [hnew] at hv hpc hp
      by_cases hi : i = k
      · rw [hi, update_self] at hp
        cases hp
      · rw [update_of_ne hi] at hv hpc hp
        exact ⟨i, hv, hpc, hp⟩
  | beginDiscovery trigger_pc => exact ⟨i, hv, hpc, hp⟩
  | squashDiscovery squash_sequence => exact ⟨i, hv, hpc, hp⟩
  | endDiscovery => exact absurd (Or.inl rfl) hquiet
  | reset => cases hp

/-- A candidate outside discovery takes the flag of its PC with it. -/
theorem Pending.taken (h : Distinct d) {e : Event} (he : IsDispatch pc e = true)
    (hc : (candidate d e).isSome = true) : Pending d pc ∧ ¬ Pending (step 0 d e) pc := by
  cases e with
  | observeDispatch pc' discovery_active trigger_pc sequence =>
    simp only [IsDispatch, Bool.and_eq_true, beq_iff_eq, Bool.not_eq_true'] at he
    obtain ⟨rfl, rfl⟩ := he
    simp only [candidate, Detector.observeDispatch] at hc
    rcases observeDispatchFrom_spec pc' false trigger_pc sequence
      (List.finRange (n + 1)) d with ⟨-, hnone, -⟩ | ⟨-, k, hadm, hp, hnew, -⟩
    · rw [hnone rfl] at hc
      cases hc
    · simp only [admitted, Bool.and_eq_true, beq_iff_eq] at hadm
      obtain ⟨⟨⟨hv, hpc⟩, -⟩, -⟩ := hadm
      refine ⟨⟨k, hv, hpc, hp⟩, ?_⟩
      rintro ⟨i, hvi, hpci, hpi⟩
      simp only [StrideDetector.step, Detector.observeDispatch] at hvi hpci hpi
      rw [hnew] at hvi hpci hpi
      by_cases hi : i = k
      · rw [hi, update_self] at hpi
        cases hpi
      · rw [update_of_ne hi] at hvi hpci hpi
        exact hi (h i k hvi hv (hpci.trans hpc.symm))
  | _ => cases he

/-- Without an arming call there is at most one notification, and none if the flag is not set. -/
theorem notified_le (h : Distinct d) {es : List Event} (hquiet : Quiet pc d es) :
    notified pc d es ≤ 1 ∧ (¬ Pending d pc → notified pc d es = 0) := by
  induction es generalizing d with
  | nil => exact ⟨Nat.zero_le 1, fun _ => rfl⟩
  | cons e es ih =>
    obtain ⟨hle, hzero⟩ := ih (h.step e) hquiet.2
    unfold notified
    by_cases htake : IsDispatch pc e = true ∧ (candidate d e).isSome = true
    · obtain ⟨hbefore, hafter⟩ := Pending.taken h htake.1 htake.2
      rw [if_pos htake, hzero hafter]
      exact ⟨Nat.le_refl 1, fun hno => absurd hbefore hno⟩
    · rw [if_neg htake, Nat.zero_add]
      exact ⟨hle, fun hno => hzero fun hp => hno (hp.of_step h hquiet.1)⟩

end notify

/-! ## Replacement -/

/-- The search for a victim ends with a free entry, or with the least age of them all. -/
theorem victim_spec (entries : Fin n → Entry) (l : List (Fin n)) (entry : Fin n) :
    (entries (victim entries l entry)).valid = false ∨ (∀ i ∈ l, (entries i).valid = true ∧
        (entries (victim entries l entry)).age.toNat ≤ (entries i).age.toNat) ∧
      (entries (victim entries l entry)).age.toNat ≤ (entries entry).age.toNat := by
  induction l generalizing entry with
  | nil => exact Or.inr ⟨nofun, Nat.le_refl _⟩
  | cons i rest ih =>
    rw [victim]
    cases hv : (entries i).valid with
    | false => exact Or.inl hv
    | true =>
      simp only [Bool.not_true, Bool.false_eq_true, if_false]
      rcases ih (if (entries i).age < (entries entry).age then i else entry) with hfree | ⟨hall, hle⟩
      · exact Or.inl hfree
      · right
        have hboth : (entries (if (entries i).age < (entries entry).age then i else entry)).age.toNat
              ≤ (entries i).age.toNat ∧
            (entries (if (entries i).age < (entries entry).age then i else entry)).age.toNat
              ≤ (entries entry).age.toNat := by
          split_ifs with hlt
          · rw [BitVec.lt_def] at hlt
            omega
          · rw [BitVec.lt_def] at hlt
            omega
        refine ⟨?_, by omega⟩
        intro j hj
        rcases List.mem_cons.mp hj with rfl | hin
        · exact ⟨hv, by omega⟩
        · exact hall j hin

/-- While the counter has not come round, the age of an entry is the number of the observation that
    saw its PC last. -/
def Aged (w : Watched n) : Prop :=
  w.uses.length < 2 ^ 64 → w.detector.timestamp.toNat = w.uses.length ∧
    ∀ i, (w.detector.entries i).valid = true → (w.detector.entries i).pc ∈ w.uses ∧
      (w.detector.entries i).age.toNat + (Recency.since (w.detector.entries i).pc w.uses).length
        = w.uses.length

section aged

variable {w : Watched n}

/-- The PC just observed is the last one, and for every other one there is a further use since. -/
theorem Aged.observe (h : Aged w) (hd : Distinct w.detector) (pc address : Addr) :
    Aged (watch w (.observe pc address)) := by
  intro hlen
  have hlen' : w.uses.length + 1 < 2 ^ 64 := hlen
  obtain ⟨htime, hages⟩ := h (by omega)
  have hnext : (w.detector.timestamp + 1).toNat = w.uses.length + 1 := by
    rw [BitVec.toNat_add, htime]
    exact Nat.mod_eq_of_lt hlen'
  have hother : ∀ j, (w.detector.entries j).valid = true → (w.detector.entries j).pc ≠ pc →
      (w.detector.entries j).pc ∈ pc :: w.uses ∧ (w.detector.entries j).age.toNat
        + (Recency.since (w.detector.entries j).pc (pc :: w.uses)).length = w.uses.length + 1 := by
    intro j hv hne
    obtain ⟨hin, hage⟩ := hages j hv
    refine ⟨List.mem_cons_of_mem pc hin, ?_⟩
    rw [Recency.since_cons_ne (fun heq => hne heq.symm), List.length_cons]
    omega
  have hself : pc ∈ pc :: w.uses ∧ (w.detector.timestamp + 1).toNat
      + (Recency.since pc (pc :: w.uses)).length = w.uses.length + 1 := by
    rw [Recency.since_cons_self, hnext]
    exact ⟨List.mem_cons_self, rfl⟩
  show (w.detector.observe 0 pc address).1.timestamp.toNat = w.uses.length + 1 ∧
    ∀ j, ((w.detector.observe 0 pc address).1.entries j).valid = true →
      ((w.detector.observe 0 pc address).1.entries j).pc ∈ pc :: w.uses ∧
      ((w.detector.observe 0 pc address).1.entries j).age.toNat + (Recency.since
        ((w.detector.observe 0 pc address).1.entries j).pc (pc :: w.uses)).length = w.uses.length + 1
  have hstamp : (w.detector.observe 0 pc address).1.timestamp = w.detector.timestamp + 1 := by
    unfold Detector.observe
    cases lookup w.detector.entries pc <;> rfl
  rw [hstamp]
  refine ⟨hnext, ?_⟩
  intro j hv
  cases hl : lookup w.detector.entries pc with
  | none =>
    rw [(observe_unknown hl address).1] at hv ⊢
    by_cases hj : j = victim w.detector.entries (List.finRange (n + 1)) 0
    · rw [hj, update_self]
      exact hself
    · rw [update_of_ne hj] at hv ⊢
      exact hother j hv (lookup_none hl j hv)
  | some i =>
    obtain ⟨hvi, hpc⟩ := lookup_some hl
    rw [(observe_known hl address).1] at hv ⊢
    by_cases hj : j = i
    · rw [hj, update_self, train_pc, train_age, hpc]
      exact hself
    · rw [update_of_ne hj] at hv ⊢
      exact hother j hv fun heq => hj (hd j i hv hvi (heq.trans hpc.symm))

/-- A call that leaves the counter, the PCs and the ages alone. -/
theorem Aged.of_same (h : Aged w) {d : Detector (n + 1)} (htime : d.timestamp = w.detector.timestamp)
    (hsame : ∀ i, (d.entries i).valid = (w.detector.entries i).valid ∧
      (d.entries i).pc = (w.detector.entries i).pc ∧ (d.entries i).age = (w.detector.entries i).age) :
    Aged { w with detector := d } := by
  intro hlen
  obtain ⟨hstamp, hages⟩ := h hlen
  refine ⟨by rw [← hstamp, ← htime], ?_⟩
  intro i hv
  obtain ⟨hvalid, hpc, hage⟩ := hsame i
  rw [hvalid] at hv
  rw [hpc, hage]
  exact hages i hv

theorem observeDispatchFrom_timestamp (pc : Addr) (discovery_active : Bool) (trigger_pc : Addr)
    (sequence : Nat) (l : List (Fin (n + 1))) (d : Detector (n + 1)) :
    (observeDispatchFrom pc discovery_active trigger_pc sequence l d).1.timestamp = d.timestamp := by
  induction l generalizing d with
  | nil => rfl
  | cons index rest ih =>
    simp only [observeDispatchFrom]
    split_ifs
    · exact ih d
    · exact ih { d with
        discoverySeenWrites := ⟨sequence, index⟩ :: d.discoverySeenWrites
        discoveryBits := setDiscoverySeen d.discoveryBits index true }
    · rfl
    · rfl
    · exact ih d

theorem Aged.step (h : Aged w) (hd : Distinct w.detector) (e : Event) : Aged (watch w e) := by
  cases e with
  | observe pc address => exact h.observe hd pc address
  | observeDispatch pc discovery_active trigger_pc sequence =>
    refine h.of_same (observeDispatchFrom_timestamp _ _ _ _ _ _) fun i => ?_
    simp only [StrideDetector.step, Detector.observeDispatch]
    rcases observeDispatchFrom_spec pc discovery_active trigger_pc sequence
      (List.finRange (n + 1)) w.detector with ⟨hsame, -⟩ | ⟨-, k, -, -, hnew, -⟩
    · rw [hsame]
      exact ⟨rfl, rfl, rfl⟩
    · rw [hnew]
      by_cases hi : i = k
      · rw [hi, update_self]
        exact ⟨rfl, rfl, rfl⟩
      · rw [update_of_ne hi]
        exact ⟨rfl, rfl, rfl⟩
  | beginDiscovery trigger_pc => exact h.of_same rfl fun _ => ⟨rfl, rfl, rfl⟩
  | squashDiscovery squash_sequence => exact h.of_same rfl fun _ => ⟨rfl, rfl, rfl⟩
  | endDiscovery => exact h.of_same rfl fun _ => ⟨rfl, rfl, rfl⟩
  | reset =>
    intro _
    exact ⟨rfl, fun _ hv => absurd hv Bool.false_ne_true⟩

/-- The entry replaced is free, or the one observed longest ago. -/
theorem Aged.replacesOldest (h : Aged w) (hd : Distinct w.detector) (hlen : w.uses.length < 2 ^ 64)
    {pc : Addr} (hunknown : lookup w.detector.entries pc = none) (address : Addr) :
    ReplacesOldest w pc address := by
  obtain ⟨-, hages⟩ := h hlen
  have hnew : (StrideDetector.step 0 w.detector (.observe pc address)).entries = update w.detector.entries
      (victim w.detector.entries (List.finRange (n + 1)) 0)
      (installed pc address (w.detector.timestamp + 1)) := (observe_unknown hunknown address).1
  refine ⟨victim w.detector.entries (List.finRange (n + 1)) 0, ?_, ?_, ?_⟩
  · intro j hj
    rw [hnew, update_of_ne hj]
  · rw [hnew, update_self]
    rfl
  · rcases victim_spec w.detector.entries (List.finRange (n + 1)) 0 with hfree | ⟨hall, -⟩
    · exact Or.inl hfree
    · right
      have hvalid : ∀ j, (w.detector.entries j).valid = true := fun j =>
        (hall j (List.mem_finRange j)).1
      refine ⟨hvalid, ?_⟩
      intro j hj
      obtain ⟨hin, hage⟩ := hages j (hvalid j)
      obtain ⟨hinv, hagev⟩ := hages _ (hvalid (victim w.detector.entries (List.finRange (n + 1)) 0))
      have hle := (hall j (List.mem_finRange j)).2
      rw [Recency.mem_since_iff hin]
      -- at equal distance it would be the same PC
      have hne : (Recency.since (w.detector.entries j).pc w.uses).length
          ≠ (Recency.since (w.detector.entries
            (victim w.detector.entries (List.finRange (n + 1)) 0)).pc w.uses).length := by
        intro heq
        have hj' := Recency.getElem?_since hin
        rw [heq, Recency.getElem?_since hinv] at hj'
        exact hj (hd _ _ (hvalid j) (hvalid _) (Option.some.inj hj').symm)
      omega

end aged

theorem aged_watched (n : Nat) (es : List Event) : Aged (watched n es) := by
  have hfresh : Aged ({} : Watched n) := by
    intro _
    exact ⟨rfl, fun _ hv => absurd hv Bool.false_ne_true⟩
  have h0 : Admission ({} : Watched n) ∧ Aged ({} : Watched n) := ⟨admission_watched n [], hfresh⟩
  exact (List.foldlRecOn (motive := fun w : Watched n => Admission w ∧ Aged w) es _ h0
    fun _ h e _ => ⟨h.1.step e, h.2.step h.1.distinct e⟩).2

/-- The observations of a sequence of calls. -/
def observations (es : List Event) : Nat :=
  (es.filter fun e => match e with | .observe _ _ => true | _ => false).length

theorem uses_le (n : Nat) (es : List Event) : (watched n es).uses.length ≤ observations es := by
  induction es using List.reverseRecOn with
  | nil => exact Nat.le_refl 0
  | append_singleton es e ih =>
    have hrun : watched n (es ++ [e]) = watch (watched n es) e := by
      rw [watched, List.foldl_append]
      rfl
    rw [hrun, observations, List.filter_append, List.length_append]
    cases e with
    | observe pc address => exact Nat.succ_le_succ ih
    | reset => exact Nat.zero_le _
    | _ => exact ih

/-- The admission of strides, in every sequence of calls; the oldest entry is the one replaced as long
    as there were fewer than `2^64` observations. -/
theorem stride_admission (n : Nat) (es : List Event) :
    let w := watched n es
    let d := w.detector
    (∀ i j, (d.entries i).valid = true → (d.entries j).valid = true →
      (d.entries i).pc = (d.entries j).pc → i = j) ∧
    (∀ i, (d.entries i).confidence ≤ MaxConfidence) ∧
    (∀ e i, ((step 0 d e).entries i).stride ≠ (d.entries i).stride →
      ((step 0 d e).entries i).confidence = 0) ∧
    (∀ e c, candidate d e = some c → c.stride ≠ 0 ∧ 2 ≤ pairs c.stride ((watch w e).log c.pc)) ∧
    (∀ pc fs, Quiet pc d fs → notified pc d fs ≤ 1) ∧
    (observations es < 2 ^ 64 → ∀ pc address, lookup d.entries pc = none →
      ReplacesOldest w pc address) := by
  intro w d
  have h := admission_watched n es
  refine ⟨h.distinct, fun i => (h.entry i).confidence_le, fun e i => stride_change,
    fun e c => h.candidate, fun pc fs hquiet => (notified_le h.distinct hquiet).1, ?_⟩
  intro hlen pc address hunknown
  exact (aged_watched n es).replacesOldest h.distinct (Nat.lt_of_le_of_lt (uses_le n es) hlen)
    hunknown address

/-- One observation of the PC 16, and three of the PC 8 with the stride 8. -/
def threeSteps : List Event := [.observe 16 0, .observe 8 100, .observe 8 108, .observe 8 116]

/-- The next observation of the PC 8 gives a candidate, and a third PC takes the entry of 16. -/
theorem stride_admission_trained :
    let w := watched 1 threeSteps
    candidate w.detector (.observe 8 124) = some ⟨8, 124, 8, false⟩ ∧
      2 ≤ pairs 8 ((watch w (.observe 8 124)).log 8) ∧
      ((step 0 w.detector (.observe 24 0)).entries 0).pc = 24 ∧
      ((step 0 w.detector (.observe 24 0)).entries 1).pc = 8 ∧ ReplacesOldest w 24 0 := by
  intro w
  obtain ⟨_, _, _, hcandidate, _, hreplaces⟩ := stride_admission 1 threeSteps
  have hstride : candidate w.detector (.observe 8 124) = some ⟨8, 124, 8, false⟩ := by decide
  exact ⟨hstride, (hcandidate _ _ hstride).2, by decide, by decide,
    hreplaces (by decide) 24 0 (by decide)⟩

/-! ## After `2^64` observations -/

/-- One PC, and then another one over and over. -/
def lopsided (k : Nat) : List Event := .observe 8 0 :: List.replicate (k + 1) (.observe 16 0)

theorem train_installed (pc address : Addr) (age timestamp : BitVec 64) :
    train (installed pc address age) address timestamp = installed pc address timestamp := by
  simp [train, installed, CandidateConfidence]

/-- The table of the first PC is not touched by the others; the second one is seen each time. -/
theorem watched_lopsided (k : Nat) :
    let w := watched 1 (lopsided k)
    w.detector.entries = update (fun _ => installed 8 0 1) 1
        (installed 16 0 (BitVec.ofNat 64 (k + 2))) ∧
      w.detector.timestamp = BitVec.ofNat 64 (k + 2) ∧ w.uses = List.replicate (k + 1) 16 ++ [8] := by
  induction k with
  | zero =>
    refine ⟨?_, rfl, rfl⟩
    funext i
    match i with
    | 0 => rfl
    | 1 => rfl
  | succ k ih =>
    obtain ⟨hentries, htime, huses⟩ := ih
    have hrun : watched 1 (lopsided (k + 1)) = watch (watched 1 (lopsided k)) (.observe 16 0) := by
      have hsplit : lopsided (k + 1) = lopsided k ++ [.observe 16 0] := by
        rw [lopsided, lopsided, List.replicate_succ', List.cons_append]
      rw [hsplit, watched, List.foldl_append]
      rfl
    have hl : lookup (watched 1 (lopsided k)).detector.entries 16 = some 1 := by
      rw [hentries]
      rfl
    have hstamp : (watched 1 (lopsided k)).detector.timestamp + 1 = BitVec.ofNat 64 (k + 1 + 2) := by
      rw [htime]
      exact (BitVec.ofNat_add (k + 2) 1).symm
    rw [hrun]
    refine ⟨?_, ?_, ?_⟩
    · show ((watched 1 (lopsided k)).detector.observe 0 16 0).1.entries = _
      rw [(observe_known hl 0).1, hstamp, hentries, update_idem, update_self, train_installed]
    · show ((watched 1 (lopsided k)).detector.observe 0 16 0).1.timestamp = _
      unfold Detector.observe
      rw [hl]
      exact hstamp
    · show 16 :: (watched 1 (lopsided k)).uses = _
      rw [huses, List.replicate_succ (n := k + 1), List.cons_append]

/-- When the counter has come round, the entry seen last has age zero, and a new PC replaces it. -/
theorem lopsided_replaces {k : Nat} (hround : BitVec.ofNat 64 (k + 2) = 0#64) :
    lookup (watched 1 (lopsided k)).detector.entries 24 = none ∧
      ¬ ReplacesOldest (watched 1 (lopsided k)) 24 0 := by
  obtain ⟨hentries, -, huses⟩ := watched_lopsided k
  rw [hround] at hentries
  have hunknown : lookup (watched 1 (lopsided k)).detector.entries 24 = none := by
    rw [hentries]
    rfl
  have hvictim : victim (watched 1 (lopsided k)).detector.entries (List.finRange 2) 0 = 1 := by
    rw [hentries]
    rfl
  have hnew := (observe_unknown hunknown 0).1
  rw [hvictim] at hnew
  refine ⟨hunknown, ?_⟩
  rintro ⟨i, -, hpc, hreplaced⟩
  have hi : i = 1 := by
    by_contra hne
    change (((watched 1 (lopsided k)).detector.observe 0 24 0).1.entries i).pc = 24 at hpc
    rw [hnew, update_of_ne hne, hentries, update_of_ne hne] at hpc
    exact absurd hpc (by decide)
  subst hi
  rcases hreplaced with hfree | ⟨-, hrecent⟩
  · rw [hentries] at hfree
    cases hfree
  · have hfirst := hrecent 0 (by decide)
    rw [hentries, huses] at hfirst
    simp only [update_self] at hfirst
    rw [List.replicate_succ, List.cons_append] at hfirst
    have hnone : Recency.since (installed 16 0 0#64).pc (16 :: (List.replicate k 16 ++ [8])) = [] :=
      Recency.since_cons_self 16 _
    cases hfirst

/-- After `2^64` observations a PC that is seen all the time is replaced, and one that was seen once,
    long ago, is kept. -/
theorem age_wraps : observations (lopsided (2 ^ 64 - 2)) = 2 ^ 64 ∧
    lookup (watched 1 (lopsided (2 ^ 64 - 2))).detector.entries 24 = none ∧
    ¬ ReplacesOldest (watched 1 (lopsided (2 ^ 64 - 2))) 24 0 := by
  have hcount : ∀ k, observations (lopsided k) = k + 2 := by
    intro k
    rw [lopsided, observations, List.filter_cons_of_pos rfl, List.length_cons]
    rw [List.filter_eq_self.mpr, List.length_replicate]
    intro e he
    rw [List.eq_of_mem_replicate he]
  exact ⟨hcount _, lopsided_replaces rfl⟩

end Gem5Dvr.StrideDetector
