/-
  The lanes of the helper stay on their chains.

  A call of `issueDVRReplayLanes` is followed phase by phase: the deque of lanes, the reconvergence
  stacks, the registers and the log satisfy `Stage` before and after each of them.  What a phase does
  to one lane is one lemma about `LaneOk`; `Stage.of_forall₂` lifts it to the deque.
-/
import Gem5Dvr.ReplayChain
import Gem5Dvr.Lib.Pointwise

namespace Gem5Dvr.ReplayLanes

variable {c : Config} {value : RegVal} {row : Fin 32 → RegVal} {log : List Fate} {l : Lane}

/-- An active lane is on its chain.  A live frame that names the lane keeps it blocked, and its PC is
    on the chain too; an index past the template belongs to a PC outside of it. -/
structure LaneOk (c : Config) (stack : List Frame) (row : Fin 32 → RegVal) (value : RegVal)
    (l : Lane) : Prop where
  path : Reaches (c.template l.gen) value (.run l.lanePC row)
  index : l.uopIndex < (c.template l.gen).count ∨
    ((c.template l.gen).findPC l.lanePC = none ∧ ∀ f ∈ stack, f.mask l.lane = false)
  frames : ∀ f ∈ stack, f.mask l.lane = true →
    l.reconvergenceBlocked = true ∧ Reaches (c.template l.gen) value (.run f.pc row)
  once : stack.Pairwise fun f f' => ¬ (f.mask l.lane = true ∧ f'.mask l.lane = true)

/-- A lane is on its chain while it is active, and its chain is over when it is not. -/
def Fine (c : Config) (stack : List Frame) (row : Fin 32 → RegVal) (log : List Fate)
    (value : RegVal) (l : Lane) : Prop :=
  (l.active = true → LaneOk c stack row value l) ∧
    (l.active = false → Over c log l.gen l.lane value)

def Lane.key (l : Lane) : Nat × Fin 128 := (l.gen, l.lane)

def Arrival.key (a : Arrival) : Nat × Fin 128 := (a.gen, a.lane)

/-- The invariant, for any point of a call. -/
structure Stage (c : Config) (arrived : List Arrival) (lanes : List Lane)
    (stack : Nat → List Frame) (regs : Rows RegVal) (log : List Fate) : Prop where
  keys : (lanes.map Lane.key).Nodup
  fine : ∀ l ∈ lanes, ∃ value, ⟨l.gen, l.lane, value⟩ ∈ arrived ∧
    Fine c (stack l.gen) (regs l.gen l.lane) log value l
  gone : ∀ a ∈ arrived, (∀ l ∈ lanes, l.key ≠ a.key) → Over c log a.gen a.lane a.value
  masks : ∀ g, ∀ f ∈ stack g, ∀ k, f.mask k = true → ∃ value, ⟨g, k, value⟩ ∈ arrived
  rows : ∀ g k, (∀ value, ⟨g, k, value⟩ ∉ arrived) → regs g k = (c.template g).initialRegs
  requested : ∀ g k pc address, .requested g k pc address ∈ log →
    ∃ value, ⟨g, k, value⟩ ∈ arrived ∧ Reaches (c.template g) value (.load pc address)

theorem Over.mono {log' : List Fate} {g : Nat} {k : Fin 128} (h : Over c log g k value)
    (hsub : ∀ f ∈ log, f ∈ log') : Over c log' g k value := by
  rcases h with (hend | ⟨pc, address, hload, hreq | hrej⟩) | ⟨hstride, hrow⟩
  · exact .inl (.inl hend)
  · exact .inl (.inr ⟨pc, address, hload, .inl (hsub _ hreq)⟩)
  · exact .inl (.inr ⟨pc, address, hload, .inr (hsub _ hrej)⟩)
  · exact .inr ⟨hsub _ hstride, hrow⟩

theorem Over.of_ended {g : Nat} {k : Fin 128} (h : Reaches (c.template g) value .ended) :
    Over c log g k value := .inl (.inl h)

/-- A lane that may issue is in no live frame. -/
theorem LaneOk.mask_false {stack : List Frame} (h : LaneOk c stack row value l)
    (hb : l.reconvergenceBlocked = false) {f : Frame} (hf : f ∈ stack) : f.mask l.lane = false := by
  by_contra hmask
  rw [Bool.not_eq_false] at hmask
  rw [(h.frames f hf hmask).1] at hb
  cases hb

/-- An unblocked lane may be put anywhere on its chain. -/
theorem LaneOk.move {stack : List Frame} {row' : Fin 32 → RegVal} {l' : Lane}
    (h : LaneOk c stack row value l) (hb : l.reconvergenceBlocked = false)
    (hgen : l'.gen = l.gen) (hlane : l'.lane = l.lane)
    (hpath : Reaches (c.template l.gen) value (.run l'.lanePC row'))
    (hindex : l'.uopIndex < (c.template l.gen).count ∨
      (c.template l.gen).findPC l'.lanePC = none) : LaneOk c stack row' value l' where
  path := by rwa [hgen]
  index := by
    rw [hgen, hlane]
    exact hindex.imp_right fun hnone => ⟨hnone, fun f hf => h.mask_false hb hf⟩
  frames f hf hmask := by
    rw [hlane, h.mask_false hb hf] at hmask
    cases hmask
  once := by
    rw [hlane]
    exact h.once

section Stage

variable {arrived : List Arrival} {lanes lanes' : List Lane} {stack stack' : Nat → List Frame}
  {regs regs' : Rows RegVal} {log' : List Fate}

/-- The rule for a phase: what it does to one lane keeps the lane fine. -/
theorem Stage.of_forall₂ (h : Stage c arrived lanes stack regs log)
    (hlanes : List.Forall₂ (fun l l' => l'.key = l.key ∧ ∀ value, ⟨l.gen, l.lane, value⟩ ∈ arrived →
      Fine c (stack l.gen) (regs l.gen l.lane) log value l →
      Fine c (stack' l.gen) (regs' l.gen l.lane) log' value l') lanes lanes')
    (hlog : ∀ f ∈ log, f ∈ log')
    (hmasks : ∀ g, ∀ f ∈ stack' g, ∀ k, f.mask k = true → ∃ value, ⟨g, k, value⟩ ∈ arrived)
    (hrows : ∀ g k, (∀ value, ⟨g, k, value⟩ ∉ arrived) → regs' g k = regs g k)
    (hreq : ∀ g k pc address, .requested g k pc address ∈ log' →
      ∃ value, ⟨g, k, value⟩ ∈ arrived ∧ Reaches (c.template g) value (.load pc address)) :
    Stage c arrived lanes' stack' regs' log' where
  keys := by
    rw [Pointwise.map_eq hlanes fun l l' hl => hl.1]
    exact h.keys
  fine l' hl' := by
    obtain ⟨l, hl, hkey, hfine⟩ := Pointwise.exists_left hlanes hl'
    obtain ⟨value, harr, hok⟩ := h.fine l hl
    obtain ⟨hgen, hlane⟩ := Prod.mk.inj hkey
    refine ⟨value, ?_, ?_⟩
    · rwa [hgen, hlane]
    · rw [hgen, hlane]
      exact hfine value harr hok
  gone a ha hno := by
    refine (h.gone a ha fun l hl => ?_).mono hlog
    obtain ⟨l', hl', hkey, -⟩ := Pointwise.exists_right hlanes hl
    rw [← hkey]
    exact hno l' hl'
  masks := hmasks
  rows g k hno := (hrows g k hno).trans (h.rows g k hno)
  requested := hreq

/-- The rule for a phase that only changes lanes. -/
theorem Stage.map_lanes (h : Stage c arrived lanes stack regs log) {f : Lane → Lane}
    (hf : ∀ l ∈ lanes, (f l).key = l.key ∧ ∀ value,
      Fine c (stack l.gen) (regs l.gen l.lane) log value l →
      Fine c (stack l.gen) (regs l.gen l.lane) log value (f l)) :
    Stage c arrived (lanes.map f) stack regs log :=
  h.of_forall₂ (Pointwise.forall₂_map fun l hl => ⟨(hf l hl).1, fun value _ => (hf l hl).2 value⟩)
    (fun _ hf => hf) h.masks (fun _ _ _ => rfl) h.requested

/-- The rule for erasing lanes. -/
theorem Stage.filter (h : Stage c arrived lanes stack regs log) {q : Lane → Bool}
    (hq : ∀ l ∈ lanes, q l = false → ∀ value,
      Fine c (stack l.gen) (regs l.gen l.lane) log value l → Over c log l.gen l.lane value)
    (harr : (arrived.map Arrival.key).Nodup) :
    Stage c arrived (lanes.filter q) stack regs log where
  keys := h.keys.sublist (List.filter_sublist.map Lane.key)
  fine l hl := h.fine l (List.mem_filter.mp hl).1
  gone a ha hno := by
    by_cases hex : ∃ l ∈ lanes, l.key = a.key
    · obtain ⟨l, hl, hkey⟩ := hex
      have hql : q l = false := by
        by_contra hql
        exact hno l (List.mem_filter.mpr ⟨hl, by simpa using hql⟩) hkey
      obtain ⟨value, hmem, hfine⟩ := h.fine l hl
      have hover := hq l hl hql value hfine
      have hsame : (⟨l.gen, l.lane, value⟩ : Arrival) = a :=
        List.inj_on_of_nodup_map harr hmem ha (by rw [← hkey]; rfl)
      rw [← hsame]
      exact hover
    · exact h.gone a ha fun l hl hkey => hex ⟨l, hl, hkey⟩
  masks := h.masks
  rows := h.rows
  requested := h.requested

/-- Ended lanes may be erased. -/
theorem Stage.retire (h : Stage c arrived lanes stack regs log)
    (harr : (arrived.map Arrival.key).Nodup) :
    Stage c arrived (retireTerminatedLanes lanes) stack regs log :=
  h.filter (fun _ _ hactive _ hfine => hfine.2 hactive) harr

/-- So may lanes whose index is past the template. -/
theorem Stage.filter_alive (h : Stage c arrived lanes stack regs log)
    (harr : (arrived.map Arrival.key).Nodup) :
    Stage c arrived (lanes.filter (alive c)) stack regs log := by
  refine h.filter (fun l _ hdead value hfine => ?_) harr
  cases hactive : l.active with
  | false => exact hfine.2 hactive
  | true =>
    have hok := hfine.1 hactive
    have hpast : ¬ l.uopIndex < (c.template l.gen).count := by simpa [alive, hactive] using hdead
    exact .of_ended (hok.path.ended (hok.index.resolve_left hpast).1)

end Stage

end Gem5Dvr.ReplayLanes
