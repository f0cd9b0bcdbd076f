/-
  The snoops of the crossbar, and what they leave of a line.

  1. **Specification (`Coherent`)** — a writable copy is the only one; at most one copy is dirty;
     every copy has the bytes of the line, and so has the memory when no copy is dirty.

  2. **One visit (`Asked.visit`)** — a snooper without the line does nothing, one with a clean copy
     gives up its right to write or the copy, and the one with the dirty copy responds too.

  3. **Results** — what a miss gets (`recvAtomicBackdoor_miss`) and what a writeback leaves
     (`Coherent.writeback`).

  The crux: `cacheResponding` stays set through the remaining visits, and a second dirty copy would
  fail its assertion; so the loop is right only as long as the dirty copy is the only one.
-/
import Gem5Dvr.Coherence

namespace Gem5Dvr.Coherence

open List Function

variable {n b : Nat}

/-! ## Specification -/

/-- The caches and the memory agree on a line whose bytes are `g`. -/
structure Coherent (g : LineData b) (st : LineState n b) : Prop where
  writable : ∀ i blk, st.blocks i = some blk → blk.writable = true → ∀ j, j ≠ i → st.blocks j = none
  dirty : ∀ i j blk blk', st.blocks i = some blk → st.blocks j = some blk' → blk.dirty = true →
    blk'.dirty = true → i = j
  data : ∀ i blk, st.blocks i = some blk → blk.data = g
  readable : ∀ i blk, st.blocks i = some blk → blk.readable = true
  mem : (∀ i blk, st.blocks i = some blk → blk.dirty = false) → st.mem = g

/-! ## Visits -/

/-- The requests that ask for a line or for the right to write it. -/
def MemCmd.isMiss : MemCmd → Bool
  | .ReadSharedReq | .ReadCleanReq | .ReadExReq | .UpgradeReq | .InvalidateReq => true
  | _ => false

/-- What a snooper keeps of its copy. -/
def keeps (cmd : MemCmd) (blk : Block b) : Option (Block b) :=
  if cmd.isInvalidate then none else some { blk with writable := false }

/-- The packet past a snooper with a clean copy. -/
def Packet.shared (pkt : Packet b) : Packet b :=
  if pkt.cmd.isInvalidate then pkt else { pkt with hasSharers := true }

/-- The packet past the snooper with the dirty copy, its command restored. -/
def Packet.answeredBy (pkt : Packet b) (blk : Block b) : Packet b :=
  { pkt.shared with
    cacheResponding := true
    responderHadWritable := pkt.cmd.isInvalidate && blk.writable
    data := if pkt.cmd.responseCommand.hasData then blk.data else pkt.data }

section visit

variable {s : Snooping n b} {k : Fin n}

theorem visit_none (hcmd : s.pkt.cmd.isResponse = false) (hk : s.blocks k = none) :
    s.visit k = some s := by
  unfold Snooping.visit handleSnoop
  rw [hcmd, hk, if_neg Bool.false_ne_true]
  show (if !s.pkt.cmd.isResponse then _ else _) = _
  rw [hcmd]
  show some { s with blocks := update s.blocks k none } = _
  rw [← hk, update_eq_self]

theorem isResponse_of_isMiss {cmd : MemCmd} (h : cmd.isMiss = true) : cmd.isResponse = false := by
  cases cmd <;> first | rfl | cases h

theorem visit_clean (hcmd : s.pkt.cmd.isMiss = true) {blk : Block b} (hk : s.blocks k = some blk)
    (hclean : blk.dirty = false) : s.visit k = some
      { s with
        blocks := update s.blocks k (keeps s.pkt.cmd blk)
        pkt := s.pkt.shared } := by
  unfold Snooping.visit handleSnoop keeps Packet.shared
  rw [hk]
  generalize hc : s.pkt.cmd = cmd at hcmd
  cases cmd <;> cases hcmd <;>
    simp [hclean, hc, MemCmd.isResponse, MemCmd.isEviction, MemCmd.isRead, MemCmd.isInvalidate,
      MemCmd.needsWritable]

theorem visit_dirty (hcmd : s.pkt.cmd.isMiss = true) {blk : Block b} (hk : s.blocks k = some blk)
    (hdirty : blk.dirty = true) (hfirst : s.pkt.cacheResponding = false)
    (hhad : s.pkt.responderHadWritable = false) (hnone : s.snoop_response_cmd = none) :
    s.visit k = some
      { blocks := update s.blocks k (keeps s.pkt.cmd blk)
        pkt := s.pkt.answeredBy blk
        snoop_response_cmd := some s.pkt.cmd.responseCommand } := by
  unfold Snooping.visit handleSnoop keeps Packet.answeredBy Packet.shared
  rw [hk]
  generalize hc : s.pkt.cmd = cmd at hcmd
  cases hw : blk.writable <;> cases cmd <;> cases hcmd <;>
    simp [hdirty, hc, hw, hfirst, hhad, hnone, MemCmd.isResponse, MemCmd.isEviction, MemCmd.isRead,
      MemCmd.isInvalidate, MemCmd.needsWritable, MemCmd.needsResponse, MemCmd.hasData,
      MemCmd.responseCommand, MemCmd.isRequest, Packet.setCacheResponding, Packet.makeResponse,
      Packet.setResponderHadWritable]

end visit

/-- The loop of a miss, with the snoopers `ks` still to come. -/
structure Asked (g : LineData b) (ks : List (Fin n)) (s : Snooping n b) : Prop where
  miss : s.pkt.cmd.isMiss = true
  one : ∀ i ∈ ks, ∀ j ∈ ks, ∀ blk blk', s.blocks i = some blk → s.blocks j = some blk' →
    blk.dirty = true → blk'.dirty = true → i = j
  data : ∀ k ∈ ks, ∀ blk, s.blocks k = some blk → blk.data = g
  answered : s.pkt.cacheResponding = true →
    ∀ k ∈ ks, ∀ blk, s.blocks k = some blk → blk.dirty = false
  had : s.pkt.cacheResponding = false → s.pkt.responderHadWritable = false
  response : s.snoop_response_cmd =
    if s.pkt.cacheResponding then some s.pkt.cmd.responseCommand else none
  supplied : s.pkt.cacheResponding = true → s.pkt.cmd.responseCommand.hasData = true →
    s.pkt.data = g

/-- The snoopers that hold the line. -/
def holds (blocks : Fin n → Option (Block b)) (k : Fin n) : Bool := (blocks k).isSome

/-- The snoopers that hold it dirty. -/
def holdsDirty (blocks : Fin n → Option (Block b)) (k : Fin n) : Bool :=
  (blocks k).any fun blk => blk.dirty

/-- What the loop leaves: the snoopers of `ks` have given up, and the flags say what they held. -/
structure Answer (ks : List (Fin n)) (s s' : Snooping n b) : Prop where
  cmd : s'.pkt.cmd = s.pkt.cmd
  gone : ∀ k ∈ ks, s'.blocks k = (s.blocks k).bind (keeps s.pkt.cmd)
  kept : ∀ k, k ∉ ks → s'.blocks k = s.blocks k
  hasSharers : s'.pkt.hasSharers =
    (s.pkt.hasSharers || (!s.pkt.cmd.isInvalidate && ks.any (holds s.blocks)))
  cacheResponding : s'.pkt.cacheResponding = (s.pkt.cacheResponding || ks.any (holdsDirty s.blocks))

theorem shared_cmd (pkt : Packet b) : pkt.shared.cmd = pkt.cmd := by
  unfold Packet.shared
  split_ifs <;> rfl

theorem shared_hasSharers (pkt : Packet b) :
    pkt.shared.hasSharers = (pkt.hasSharers || !pkt.cmd.isInvalidate) := by
  unfold Packet.shared
  cases h : pkt.cmd.isInvalidate <;> simp

theorem shared_cacheResponding (pkt : Packet b) :
    pkt.shared.cacheResponding = pkt.cacheResponding := by
  unfold Packet.shared
  split_ifs <;> rfl

theorem shared_responderHadWritable (pkt : Packet b) :
    pkt.shared.responderHadWritable = pkt.responderHadWritable := by
  unfold Packet.shared
  split_ifs <;> rfl

theorem shared_data (pkt : Packet b) : pkt.shared.data = pkt.data := by
  unfold Packet.shared
  split_ifs <;> rfl

theorem any_agree {α : Type} {f f' : α → Bool} {l : List α} (h : ∀ a ∈ l, f a = f' a) :
    l.any f = l.any f' := by
  induction l with
  | nil => rfl
  | cons a l ih =>
    rw [any_cons, any_cons, h a mem_cons_self, ih fun a' ha' => h a' (mem_cons_of_mem a ha')]

/-- What is known of the snoopers still to come. -/
theorem Asked.rest {g : LineData b} {k : Fin n} {ks : List (Fin n)} {s s' : Snooping n b}
    (h : Asked g (k :: ks) s) (hsame : ∀ j ∈ ks, s'.blocks j = s.blocks j)
    (hcmd : s'.pkt.cmd = s.pkt.cmd)
    (hanswered : s'.pkt.cacheResponding = true →
      ∀ j ∈ ks, ∀ blk, s'.blocks j = some blk → blk.dirty = false)
    (hhad : s'.pkt.cacheResponding = false → s'.pkt.responderHadWritable = false)
    (hresponse : s'.snoop_response_cmd =
      if s'.pkt.cacheResponding then some s'.pkt.cmd.responseCommand else none)
    (hsupplied : s'.pkt.cacheResponding = true → s'.pkt.cmd.responseCommand.hasData = true →
      s'.pkt.data = g) : Asked g ks s' where
  miss := by
    rw [hcmd]
    exact h.miss
  one i hi j hj := by
    rw [hsame i hi, hsame j hj]
    exact h.one i (mem_cons_of_mem k hi) j (mem_cons_of_mem k hj)
  data j hj := by
    rw [hsame j hj]
    exact h.data j (mem_cons_of_mem k hj)
  answered := hanswered
  had := hhad
  response := hresponse
  supplied := hsupplied

/-- One visit: the loop goes on, and what is left so far. -/
theorem Asked.visit {g : LineData b} {k : Fin n} {ks : List (Fin n)} {s : Snooping n b}
    (h : Asked g (k :: ks) s) (hnodup : (k :: ks).Nodup) :
    ∃ s', s.visit k = some s' ∧ Asked g ks s' ∧ Answer [k] s s' := by
  obtain ⟨hk, -⟩ := nodup_cons.mp hnodup
  have hne : ∀ j ∈ ks, j ≠ k := fun j hj heq => hk (heq ▸ hj)
  cases hblk : s.blocks k with
  | none =>
    refine ⟨s, visit_none (isResponse_of_isMiss h.miss) hblk, ?_, ?_⟩
    · apply h.rest (fun _ _ => rfl) rfl _ h.had h.response h.supplied
      intro hresp j hj
      exact h.answered hresp j (mem_cons_of_mem k hj)
    · constructor
      · rfl
      · intro j hj
        rw [mem_singleton.mp hj, hblk]
        rfl
      · intro j _
        rfl
      · simp [holds, hblk]
      · simp [holdsDirty, hblk]
  | some blk =>
    have hother : ∀ j ∈ ks, update s.blocks k (keeps s.pkt.cmd blk) j = s.blocks j := by
      intro j hj
      rw [update_of_ne (hne j hj)]
    by_cases hdirty : blk.dirty = true
    · -- the one dirty copy
      have hfirst : s.pkt.cacheResponding = false := by
        by_contra hresp
        rw [Bool.not_eq_false] at hresp
        rw [h.answered hresp k mem_cons_self blk hblk] at hdirty
        cases hdirty
      have hnone : s.snoop_response_cmd = none := by
        rw [h.response, hfirst]
        rfl
      refine ⟨_, visit_dirty h.miss hblk hdirty hfirst (h.had hfirst) hnone, ?_, ?_⟩
      · apply h.rest hother (shared_cmd s.pkt)
        · intro _ j hj blk' hblk'
          have hblk'' := (hother j hj).symm.trans hblk'
          by_contra hdirty'
          rw [Bool.not_eq_false] at hdirty'
          exact hne j hj (h.one j (mem_cons_of_mem k hj) k mem_cons_self blk' blk hblk''
            hblk hdirty' hdirty)
        · intro hresp
          cases hresp
        · show some _ = if true = true then some s.pkt.shared.cmd.responseCommand else none
          rw [shared_cmd, if_pos rfl]
        · intro _ hdata
          show (if s.pkt.cmd.responseCommand.hasData then blk.data else _) = g
          have hsame : s.pkt.shared.cmd.responseCommand.hasData = true := hdata
          rw [shared_cmd] at hsame
          rw [if_pos hsame]
          exact h.data k mem_cons_self blk hblk
      · constructor
        · exact shared_cmd s.pkt
        · intro j hj
          rw [mem_singleton.mp hj, hblk]
          exact update_self k _ s.blocks
        · intro j hj
          exact update_of_ne (fun heq => hj (mem_singleton.mpr heq)) _ _
        · show s.pkt.shared.hasSharers = _
          rw [shared_hasSharers]
          simp [holds, hblk]
        · show true = _
          simp [holdsDirty, hblk, hdirty]
    · rw [Bool.not_eq_true] at hdirty
      have hresp := shared_cacheResponding s.pkt
      refine ⟨_, visit_clean h.miss hblk hdirty, ?_, ?_⟩
      · apply h.rest hother (shared_cmd s.pkt)
        · intro hresp' j hj blk' hblk'
          exact h.answered (hresp.symm.trans hresp') j (mem_cons_of_mem k hj) blk'
            ((hother j hj).symm.trans hblk')
        · intro hresp'
          show s.pkt.shared.responderHadWritable = false
          rw [shared_responderHadWritable]
          exact h.had (hresp.symm.trans hresp')
        · show s.snoop_response_cmd = if s.pkt.shared.cacheResponding then
            some s.pkt.shared.cmd.responseCommand else none
          rw [shared_cmd, hresp]
          exact h.response
        · intro hresp' hdata
          have hsame : s.pkt.shared.cmd.responseCommand.hasData = true := hdata
          rw [shared_cmd] at hsame
          show s.pkt.shared.data = g
          rw [shared_data]
          exact h.supplied (hresp.symm.trans hresp') hsame
      · constructor
        · exact shared_cmd s.pkt
        · intro j hj
          rw [mem_singleton.mp hj, hblk]
          exact update_self k _ s.blocks
        · intro j hj
          exact update_of_ne (fun heq => hj (mem_singleton.mpr heq)) _ _
        · show s.pkt.shared.hasSharers = _
          rw [shared_hasSharers]
          simp [holds, hblk]
        · show s.pkt.shared.cacheResponding = _
          rw [hresp]
          simp [holdsDirty, hblk, hdirty]

/-- The loop of a miss ends, with every assertion met. -/
theorem Asked.visitAll {g : LineData b} {ks : List (Fin n)} {s : Snooping n b} (h : Asked g ks s)
    (hnodup : ks.Nodup) :
    ∃ s', Snooping.visitAll ks s = some s' ∧ Asked g [] s' ∧ Answer ks s s' := by
  induction ks generalizing s with
  | nil =>
    refine ⟨s, rfl, h, ?_⟩
    constructor
    · rfl
    · intro k hk
      cases hk
    · intro k _
      rfl
    · simp
    · simp
  | cons k ks ih =>
    obtain ⟨s₁, hvisit, hasked, hone⟩ := h.visit hnodup
    obtain ⟨hk, hrest⟩ := nodup_cons.mp hnodup
    obtain ⟨s₂, hall, hend, hanswer⟩ := ih hasked hrest
    have hsame : ∀ j ∈ ks, s₁.blocks j = s.blocks j := by
      intro j hj
      apply hone.kept
      intro hin
      exact hk (mem_singleton.mp hin ▸ hj)
    refine ⟨s₂, ?_, hend, ?_⟩
    · rw [Snooping.visitAll, hvisit]
      exact hall
    · constructor
      · rw [hanswer.cmd, hone.cmd]
      · intro j hj
        rcases mem_cons.mp hj with rfl | hj
        · rw [hanswer.kept j hk, hone.gone j (mem_singleton.mpr rfl)]
        · rw [hanswer.gone j hj, hsame j hj, hone.cmd]
      · intro j hj
        rw [hanswer.kept j (fun hin => hj (mem_cons_of_mem k hin)),
          hone.kept j (fun hin => hj (mem_singleton.mp hin ▸ mem_cons_self))]
      · have hany : ks.any (holds s₁.blocks) = ks.any (holds s.blocks) := by
          apply any_agree
          intro j hj
          unfold holds
          rw [hsame j hj]
        rw [hanswer.hasSharers, hone.hasSharers, hone.cmd, hany, any_cons, any_cons, any_nil]
        cases s.pkt.hasSharers <;> cases s.pkt.cmd.isInvalidate <;> simp
      · have hany : ks.any (holdsDirty s₁.blocks) = ks.any (holdsDirty s.blocks) := by
          apply any_agree
          intro j hj
          unfold holdsDirty
          rw [hsame j hj]
        rw [hanswer.cacheResponding, hone.cacheResponding, hany, any_cons, any_cons,
          any_nil, Bool.or_false, Bool.or_assoc]

/-! ## Misses -/

theorem mem_snoopers {src k : Fin n} : k ∈ snoopers src ↔ k ≠ src := by
  unfold snoopers
  rw [mem_filter, decide_eq_true_iff]
  exact and_iff_right (mem_finRange k)

theorem nodup_snoopers (src : Fin n) : (snoopers src).Nodup := (nodup_finRange n).filter _

/-- The response to a miss. -/
structure Granted (g : LineData b) (st : LineState n b) (src : Fin n) (cmd : MemCmd)
    (st' : LineState n b) (pkt : Packet b) : Prop where
  own : st'.blocks src = st.blocks src
  others : ∀ k, k ≠ src → st'.blocks k = (st.blocks k).bind (keeps cmd)
  mem : st'.mem = st.mem
  cmd_eq : pkt.cmd = cmd.responseCommand
  hasSharers : pkt.hasSharers = (!cmd.isInvalidate && (snoopers src).any (holds st.blocks))
  cacheResponding : pkt.cacheResponding = (snoopers src).any (holdsDirty st.blocks)
  supplied : cmd.responseCommand.hasData = true → st.blocks src = none → pkt.data = g

/-- Where no snooper responds, the crossbar or the memory does. -/
theorem destination_of_miss (mem : LineData b) {pkt : Packet b} (hcmd : pkt.cmd.isMiss = true)
    (hnone : pkt.cacheResponding = false) :
    ∃ pkt', (if sinkPacket pkt then some (mem, pkt)
      else if forwardPacket pkt then memAccess mem pkt
      else pkt.makeResponse.map fun pkt => (mem, pkt)) = some (mem, pkt') ∧
        pkt'.cmd = pkt.cmd.responseCommand ∧ pkt'.hasSharers = pkt.hasSharers ∧
        pkt'.cacheResponding = false ∧
        (pkt.cmd.responseCommand.hasData = true → pkt'.data = mem) := by
  obtain ⟨cmd, hasSharers, cacheResponding, had, cached, data⟩ := pkt
  obtain rfl : cacheResponding = false := hnone
  cases cmd <;> cases hcmd
  all_goals
    refine ⟨_, rfl, rfl, rfl, rfl, ?_⟩
    intro hdata
    first | rfl | cases hdata

theorem Coherent.miss {g : LineData b} {st : LineState n b} (h : Coherent g st) (src : Fin n)
    {cmd : MemCmd} (hcmd : cmd.isMiss = true) (data : LineData b) :
    ∃ st' pkt, recvAtomicBackdoor st src { cmd := cmd, data := data } = some (st', pkt) ∧
      Granted g st src cmd st' pkt := by
  have hstart : Asked g (snoopers src)
      ({ blocks := st.blocks, pkt := { cmd := cmd, data := data } } : Snooping n b) := by
    constructor
    · exact hcmd
    · intro i _ j _ blk blk' hi hj
      exact h.dirty i j blk blk' hi hj
    · intro k _
      exact h.data k
    · intro hresp
      cases hresp
    · intro _
      rfl
    · rfl
    · intro hresp
      cases hresp
  obtain ⟨s, hall, hend, hanswer⟩ := hstart.visitAll (nodup_snoopers src)
  have hcmd' : s.pkt.cmd = cmd := hanswer.cmd
  have hshare : s.pkt.hasSharers = (!cmd.isInvalidate && (snoopers src).any (holds st.blocks)) :=
    hanswer.hasSharers.trans (Bool.false_or _)
  have hresp : s.pkt.cacheResponding = (snoopers src).any (holdsDirty st.blocks) :=
    hanswer.cacheResponding.trans (Bool.false_or _)
  have hown : s.blocks src = st.blocks src := hanswer.kept src fun hin => mem_snoopers.mp hin rfl
  have hothers : ∀ k, k ≠ src → s.blocks k = (st.blocks k).bind (keeps cmd) := fun k hk =>
    hanswer.gone k (mem_snoopers.mpr hk)
  unfold recvAtomicBackdoor
  rw [hall, Option.bind_some, hend.response]
  cases hc : s.pkt.cacheResponding with
  | true =>
    have hsink : sinkPacket s.pkt = true := by
      unfold sinkPacket
      rw [hc]
      rfl
    rw [if_pos hsink, Option.bind_some, if_pos rfl]
    refine ⟨⟨s.blocks, st.mem⟩, { s.pkt with cmd := s.pkt.cmd.responseCommand }, ?_, ?_⟩
    · show (if s.pkt.cmd.isResponse then none else some _) = _
      rw [hcmd', isResponse_of_isMiss hcmd, if_neg Bool.false_ne_true]
    · constructor
      · exact hown
      · exact hothers
      · rfl
      · show s.pkt.cmd.responseCommand = _
        rw [hcmd']
      · exact hshare
      · exact hresp
      · intro hdata _
        exact hend.supplied hc (by rw [hcmd']; exact hdata)
  | false =>
    obtain ⟨pkt', hdest, hresponse, hsharers, hquiet, hmem⟩ := destination_of_miss
      st.mem (by rw [hcmd']; exact hcmd) hc
    rw [hdest, Option.bind_some, if_neg Bool.false_ne_true]
    refine ⟨_, _, rfl, ?_⟩
    constructor
    · exact hown
    · exact hothers
    · rfl
    · rw [hresponse, hcmd']
    · rw [hsharers, hshare]
    · rw [hquiet, ← hresp, hc]
    · intro hdata hnone
      rw [hmem (by rw [hcmd']; exact hdata)]
      apply h.mem
      -- no snooper responded, and the source has no copy
      intro k blk hblk
      by_contra hdirty
      rw [Bool.not_eq_false] at hdirty
      have hk : k ≠ src := by
        rintro rfl
        rw [hnone] at hblk
        cases hblk
      rw [hc, eq_comm, any_eq_false] at hresp
      apply hresp k (mem_snoopers.mpr hk)
      unfold holdsDirty
      rw [hblk]
      exact hdirty

/-! ## Writebacks -/

/-- A writeback or a clean eviction changes no snooper. -/
theorem visitAll_evict (ks : List (Fin n)) (s : Snooping n b)
    (hevict : s.pkt.cmd.isEviction = true) :
    ∃ cached,
      Snooping.visitAll ks s = some { s with pkt := { s.pkt with blockCached := cached } } := by
  induction ks generalizing s with
  | nil => exact ⟨s.pkt.blockCached, rfl⟩
  | cons k ks ih =>
    have hrequest : s.pkt.cmd.isResponse = false := by
      generalize s.pkt.cmd = cmd at hevict
      cases cmd <;> first | rfl | cases hevict
    have hvisit : ∃ cached, s.visit k
        = some { s with pkt := { s.pkt with blockCached := cached } } := by
      cases hblk : s.blocks k with
      | none => exact ⟨s.pkt.blockCached, visit_none hrequest hblk⟩
      | some blk =>
        refine ⟨true, ?_⟩
        unfold Snooping.visit handleSnoop
        rw [hrequest, hblk, if_neg Bool.false_ne_true]
        dsimp only
        rw [hevict, if_pos rfl, Option.bind_some]
        show (if !s.pkt.cmd.isResponse then _ else _) = _
        rw [hrequest, ← hblk, update_eq_self]
        rfl
    obtain ⟨cached, hone⟩ := hvisit
    obtain ⟨cached', hall⟩ := ih { s with pkt := { s.pkt with blockCached := cached } } hevict
    refine ⟨cached', ?_⟩
    rw [Snooping.visitAll, hone, Option.bind_some, hall]

/-- A block that leaves its cache, with its packet sent, leaves the line coherent. -/
theorem Coherent.evict {g : LineData b} {st : LineState n b} (h : Coherent g st) {i : Fin n}
    {blk : Block b} (hblk : st.blocks i = some blk) (writebackClean : Bool) :
    ∃ st' pkt, recvAtomicBackdoor (st.setBlock i none) i (evictBlock writebackClean blk)
      = some (st', pkt) ∧ Coherent g st' := by
  have hrest : ∀ k blk', (st.setBlock i none).blocks k = some blk' →
      k ≠ i ∧ st.blocks k = some blk' := by
    intro k blk' hk
    by_cases hki : k = i
    · subst hki
      rw [setBlock_self] at hk
      cases hk
    · rw [setBlock_ne st none hki] at hk
      exact ⟨hki, hk⟩
  -- the other copies are as they were; what is left is the memory
  have hcoherent : ∀ mem, ((∀ k blk', (st.setBlock i none).blocks k = some blk' →
      blk'.dirty = false) → mem = g) →
      Coherent g (⟨(st.setBlock i none).blocks, mem⟩ : LineState n b) := by
    intro mem hmem
    constructor
    · intro j blk' hj hw k hk
      obtain ⟨hji, hj'⟩ := hrest j blk' hj
      have hnone := h.writable j blk' hj' hw i (Ne.symm hji)
      rw [hblk] at hnone
      cases hnone
    · intro j k blk' blk'' hj hk
      exact h.dirty j k blk' blk'' (hrest j blk' hj).2 (hrest k blk'' hk).2
    · intro j blk' hj
      exact h.data j blk' (hrest j blk' hj).2
    · intro j blk' hj
      exact h.readable j blk' (hrest j blk' hj).2
    · exact hmem
  obtain ⟨cached, hall⟩ := visitAll_evict (snoopers i)
    { blocks := (st.setBlock i none).blocks, pkt := evictBlock writebackClean blk } (by
      show (evictBlock writebackClean blk).cmd.isEviction = true
      unfold evictBlock writebackBlk cleanEvictBlk
      cases blk.dirty <;> cases writebackClean <;> rfl)
  unfold recvAtomicBackdoor
  rw [hall, Option.bind_some]
  by_cases hdirty : blk.dirty = true
  · have hpkt : evictBlock writebackClean blk
        = { cmd := .WritebackDirty, hasSharers := !blk.writable, data := blk.data } := by
      unfold evictBlock writebackBlk
      rw [hdirty]
      rfl
    rw [hpkt]
    refine ⟨_, _, rfl, hcoherent blk.data ?_⟩
    intro _
    exact h.data i blk hblk
  · rw [Bool.not_eq_true] at hdirty
    have hmem := hcoherent st.mem (by
      intro hclean
      apply h.mem
      intro k blk' hk
      by_cases hki : k = i
      · subst hki
        rw [hblk] at hk
        obtain rfl := Option.some.inj hk
        exact hdirty
      · apply hclean k blk'
        rw [setBlock_ne st none hki]
        exact hk)
    cases writebackClean with
    | true =>
      have hpkt : evictBlock true blk
          = { cmd := .WritebackClean, hasSharers := !blk.writable, data := blk.data } := by
        unfold evictBlock writebackBlk
        rw [hdirty]
        rfl
      rw [hpkt]
      cases cached with
      | true => exact ⟨_, _, rfl, hmem⟩
      | false => exact ⟨_, _, rfl, hmem⟩
    | false =>
      have hpkt : evictBlock false blk = cleanEvictBlk := by
        unfold evictBlock
        rw [hdirty]
        rfl
      rw [hpkt]
      exact ⟨_, _, rfl, hmem⟩

end Gem5Dvr.Coherence
