/-
  Every run of atomic requests through sibling caches (`Cache::recvAtomic`, `mem/cache/cache.cc`).

  1. **Specification (`Audit`)** — beside the caches and the memory: the bytes written last, whether
     every assertion was met, and whether every read returned those bytes.

  2. **One request (`recvAtomic_spec`)** — a hit, a miss that reads and a miss that writes leave the
     line coherent; the victims leave coherently, after the response.

  3. **The runs (`siblings_coherent_iff`)** — a run stays coherent just when no write of the size
     of the line, with a byte that is not enabled, misses and finds other bytes in its frame.

  The crux: `isWholeLineWrite` does not ask for the byte enables, as `promoteWholeLineWrites` does:
  such a write only invalidates the other copies and never fetches the bytes it does not write.
-/
import Gem5Dvr.CoherenceSnoop
import Gem5Dvr.Lib.Trace

namespace Gem5Dvr.Coherence

open List Function

variable {n b : Nat}

/-! ## Specification -/

namespace Request

variable (r : Request n b)

/-- The byte is written. -/
def writes (p : Fin b) : Bool := r.write && r.packet.covers p && r.byteEnable p

/-- The bytes of the line past the request. -/
def wrote (d : LineData b) : LineData b := fun p => if r.writes p then r.data p else d p

/-- A write of the size of the line. -/
def wholeLine : Bool := r.write && r.offset == 0 && r.size == b

end Request

/-- The system, the bytes written last, and whether all went well. -/
structure Audit (n b : Nat) where
  system : System n b
  golden : Line → LineData b
  /-- Every assertion was met. -/
  asserted : Bool := true
  /-- Every read returned the bytes written last. -/
  current : Bool := true

/-- The caches are empty. -/
def Audit.start (mem : Line → LineData b) : Audit n b where
  system line := ⟨fun _ => none, mem line⟩
  golden := mem

/-- One request; past an assertion that fails nothing more is known. -/
def Audit.next (cfg : Config n) (a : Audit n b) (r : Request n b) : Audit n b :=
  match recvAtomic cfg a.system r with
  | none => { a with asserted := false }
  | some (system, response) =>
    { a with
      system := system
      golden := update a.golden r.line (r.wrote (a.golden r.line))
      current := a.current && (r.write || (finRange b).all fun p =>
        !r.packet.covers p || response.any fun d => d p == a.golden r.line p) }

/-- Every line is coherent, every assertion was met, and every read was right. -/
structure Audit.Sound (a : Audit n b) : Prop where
  asserted : a.asserted = true
  current : a.current = true
  coherent : ∀ line, Coherent (a.golden line) (a.system line)

/-- A write of the size of the line that misses finds, at the bytes it does not write, what the line
    holds there. -/
def Audit.Keeps (a : Audit n b) (r : Request n b) : Prop :=
  r.wholeLine = true → (a.system r.line).blocks r.cache = none →
    ∀ p, r.byteEnable p = false → r.frame p = a.golden r.line p

/-! ## The packet of a CPU -/

section packet

variable (r : Request n b)

/-- The packet that the cache works with. -/
def Request.promoted : CpuPacket b := r.packet.promoteWholeLineWrites

theorem promoted_read (h : r.write = false) : r.promoted = r.packet ∧ r.packet.cmd = .ReadReq := by
  have hcmd : r.packet.cmd = .ReadReq := by
    unfold Request.packet
    rw [h]
    rfl
  refine ⟨?_, hcmd⟩
  unfold Request.promoted CpuPacket.promoteWholeLineWrites
  rw [hcmd]
  rfl

theorem packet_write (h : r.write = true) : r.packet.cmd = .WriteReq := by
  unfold Request.packet
  rw [h]
  rfl

/-- A write is promoted just when it is of the size of the line and has every byte enabled. -/
theorem promoted_write (h : r.write = true) : r.promoted = r.packet ∨
      (r.promoted = { r.packet with cmd := .WriteLineReq } ∧ r.packet.isMaskedWrite = false ∧
        r.wholeLine = true) := by
  unfold Request.promoted CpuPacket.promoteWholeLineWrites Request.wholeLine
  rw [packet_write r h, h]
  by_cases hline : (MemCmd.WriteReq == .WriteReq && r.packet.size == b && r.packet.offset == 0 &&
      !r.packet.isMaskedWrite) = true
  · rw [if_pos hline]
    simp only [Bool.and_eq_true, Bool.not_eq_true'] at hline
    right
    refine ⟨rfl, hline.2, ?_⟩
    show (true && r.packet.offset == 0 && r.packet.size == b) = true
    rw [hline.1.2, hline.1.1.2]
    rfl
  · rw [if_neg hline]
    exact Or.inl rfl

theorem promoted_needsWritable : r.promoted.cmd.needsWritable = r.write := by
  cases h : r.write with
  | false => rw [(promoted_read r h).1, (promoted_read r h).2]; rfl
  | true =>
    rcases promoted_write r h with heq | ⟨heq, -, -⟩
    · rw [heq, packet_write r h]
      rfl
    · rw [heq]
      rfl

theorem promoted_isWholeLineWrite : r.promoted.isWholeLineWrite = r.wholeLine := by
  unfold CpuPacket.isWholeLineWrite
  cases h : r.write with
  | false =>
    rw [(promoted_read r h).1, (promoted_read r h).2]
    unfold Request.wholeLine
    rw [h]
    rfl
  | true =>
    have hsame : r.wholeLine = (r.packet.offset == 0 && r.packet.size == b) := by
      unfold Request.wholeLine
      rw [h, Bool.true_and]
      rfl
    rcases promoted_write r h with heq | ⟨heq, -, -⟩
    · rw [heq, packet_write r h, hsame]
      rfl
    · rw [heq, hsame]
      rfl

/-- Where no byte of the write is masked, every byte of the packet is enabled. -/
theorem enabled_of_not_masked (h : r.write = true) (hmask : r.packet.isMaskedWrite = false)
    {p : Fin b} (hp : r.packet.covers p = true) : r.byteEnable p = true := by
  unfold CpuPacket.isMaskedWrite at hmask
  rw [packet_write r h] at hmask
  by_contra hoff
  rw [Bool.not_eq_true] at hoff
  have hany : ((finRange b).any fun p =>
      r.packet.covers p && !r.packet.byteEnable p) = true := by
    rw [any_eq_true]
    refine ⟨p, mem_finRange p, ?_⟩
    show (r.packet.covers p && !r.byteEnable p) = true
    rw [hp, hoff]
    rfl
  rw [hany] at hmask
  cases hmask

/-- The bytes that the cache writes. -/
theorem writeData_promoted (h : r.write = true) (d : LineData b) :
    r.promoted.writeData d = r.wrote d := by
  funext p
  unfold CpuPacket.writeData Request.wrote Request.writes
  rw [h, Bool.true_and]
  rcases promoted_write r h with heq | ⟨heq, hmask, -⟩
  · rw [heq]
    cases hp : r.packet.covers p with
    | false => rfl
    | true =>
      cases hmask : r.packet.isMaskedWrite with
      | true => rfl
      | false =>
        rw [enabled_of_not_masked r h hmask hp]
        rfl
  · rw [heq]
    show (if r.packet.covers p && (!false || r.byteEnable p) then r.data p else d p) = _
    cases hp : r.packet.covers p with
    | false => rfl
    | true =>
      rw [enabled_of_not_masked r h hmask hp]
      rfl

theorem satisfyRequest_read (h : r.write = false) (blk : Block b) :
    satisfyRequest r.promoted blk = some (blk, some blk.data) := by
  have hfits : ¬ b < r.promoted.offset + r.promoted.size := by
    rw [(promoted_read r h).1]
    exact Nat.not_lt.mpr r.fits
  unfold satisfyRequest
  rw [if_neg hfits, (promoted_read r h).1, (promoted_read r h).2]
  rfl

theorem satisfyRequest_write (h : r.write = true) {blk : Block b} (hw : blk.writable = true) :
    satisfyRequest r.promoted blk =
      some ({ blk with data := r.wrote blk.data, dirty := true }, none) := by
  have hfits : ¬ b < r.promoted.offset + r.promoted.size := by
    rcases promoted_write r h with heq | ⟨heq, -, -⟩
    · rw [heq]
      exact Nat.not_lt.mpr r.fits
    · rw [heq]
      exact Nat.not_lt.mpr r.fits
  have hwrite : r.promoted.cmd.isWrite = true := by
    rcases promoted_write r h with heq | ⟨heq, -, -⟩
    · rw [heq, packet_write r h]
      rfl
    · rw [heq]
      rfl
  unfold satisfyRequest
  rw [if_neg hfits, if_pos hwrite, if_pos hw, writeData_promoted r h]

end packet

/-! ## One line -/

/-- The copy of cache `i` is dirty and the only one. -/
theorem coherent_only {st : LineState n b} {i : Fin n} (blk : Block b)
    (hi : st.blocks i = some blk) (hothers : ∀ k, k ≠ i → st.blocks k = none)
    (hreadable : blk.readable = true) (hdirty : blk.dirty = true) : Coherent blk.data st := by
  have honly : ∀ k blk', st.blocks k = some blk' → k = i ∧ blk' = blk := by
    intro k blk' hk
    by_cases hki : k = i
    · subst hki
      rw [hi] at hk
      exact ⟨rfl, (Option.some.inj hk).symm⟩
    · rw [hothers k hki] at hk
      cases hk
  constructor
  · intro j blk' hj _ k hk
    obtain ⟨rfl, -⟩ := honly j blk' hj
    exact hothers k hk
  · intro j k blk' blk'' hj hk _ _
    rw [(honly j blk' hj).1, (honly k blk'' hk).1]
  · intro j blk' hj
    rw [(honly j blk' hj).2]
  · intro j blk' hj
    rw [(honly j blk' hj).2]
    exact hreadable
  · intro hclean
    rw [hclean i blk hi] at hdirty
    cases hdirty

/-- The copy that a miss fetches to read. -/
def fetchedBlock (pkt : Packet b) (g : LineData b) : Block b where
  readable := true
  writable := !pkt.hasSharers
  data := g

/-- A copy fetched to read leaves the line coherent. -/
theorem Coherent.fetched {g : LineData b} {st st' : LineState n b} (h : Coherent g st) {i : Fin n}
    {cmd : MemCmd} {pkt : Packet b} (hgranted : Granted g st i cmd st' pkt)
    (hkeep : cmd.isInvalidate = false) (hnone : st.blocks i = none) :
    Coherent g (st'.setBlock i (some (fetchedBlock pkt g))) := by
  have hshare : pkt.hasSharers = (snoopers i).any (holds st.blocks) := by
    rw [hgranted.hasSharers, hkeep]
    rfl
  -- another copy is the one before, without the right to write
  have hother : ∀ k, k ≠ i → ∀ blk, st'.blocks k = some blk →
      ∃ old, st.blocks k = some old ∧ blk = { old with writable := false } := by
    intro k hk blk hblk
    rw [hgranted.others k hk, Option.bind_eq_some_iff] at hblk
    obtain ⟨old, hold, hkept⟩ := hblk
    unfold keeps at hkept
    rw [hkeep, if_neg Bool.false_ne_true] at hkept
    exact ⟨old, hold, (Option.some.inj hkept).symm⟩
  have hcases : ∀ k blk, (st'.setBlock i (some (fetchedBlock pkt g))).blocks k = some blk →
      (k = i ∧ blk = fetchedBlock pkt g) ∨
        (k ≠ i ∧ ∃ old, st.blocks k = some old ∧ blk = { old with writable := false }) := by
    intro k blk hk
    by_cases hki : k = i
    · subst hki
      rw [setBlock_self] at hk
      exact Or.inl ⟨rfl, (Option.some.inj hk).symm⟩
    · rw [setBlock_ne st' _ hki] at hk
      exact Or.inr ⟨hki, hother k hki blk hk⟩
  constructor
  · intro j blk hj hw k hk
    rcases hcases j blk hj with ⟨rfl, rfl⟩ | ⟨-, old, -, rfl⟩
    · -- no one else had the line
      have hnoone : pkt.hasSharers = false := (Bool.not_eq_true' _).mp hw
      rw [hshare, any_eq_false] at hnoone
      have hk' := hnoone k (mem_snoopers.mpr hk)
      unfold holds at hk'
      rw [Bool.not_eq_true, Option.isSome_eq_false_iff, Option.isNone_iff_eq_none] at hk'
      rw [setBlock_ne st' _ hk, hgranted.others k hk, hk']
      rfl
    · cases hw
  · intro j k blk blk' hj hk hdj hdk
    rcases hcases j blk hj with ⟨rfl, rfl⟩ | ⟨-, old, hold, rfl⟩
    · cases hdj
    · rcases hcases k blk' hk with ⟨rfl, rfl⟩ | ⟨-, old', hold', rfl⟩
      · cases hdk
      · exact h.dirty j k old old' hold hold' hdj hdk
  · intro j blk hj
    rcases hcases j blk hj with ⟨rfl, rfl⟩ | ⟨-, old, hold, rfl⟩
    · rfl
    · exact h.data j old hold
  · intro j blk hj
    rcases hcases j blk hj with ⟨rfl, rfl⟩ | ⟨-, old, hold, rfl⟩
    · rfl
    · exact h.readable j old hold
  · intro hclean
    show st'.mem = g
    rw [hgranted.mem]
    apply h.mem
    intro k old hk
    have hki : k ≠ i := by
      rintro rfl
      rw [hnone] at hk
      cases hk
    apply hclean k { old with writable := false }
    rw [setBlock_ne st' _ hki, hgranted.others k hki, hk]
    unfold keeps
    rw [hkeep]
    rfl

section miss

variable {g : LineData b} {st st' : LineState n b} {pkt : Packet b} (r : Request n b)

theorem createMissPacket_read (hr : r.write = false) (mostly_excl : Bool) :
    createMissPacket mostly_excl r.promoted none =
      some { cmd := if mostly_excl then .ReadCleanReq else .ReadSharedReq,
             data := fun _ => 0 } := by
  have hwhole : r.wholeLine = false := by
    unfold Request.wholeLine
    rw [hr]
    rfl
  unfold createMissPacket
  rw [promoted_needsWritable, promoted_isWholeLineWrite, hr, hwhole, (promoted_read r hr).1,
    (promoted_read r hr).2]
  cases mostly_excl <;> rfl

/-- The command of a write that misses. -/
def missCmd (own : Option (Block b)) : MemCmd :=
  if r.wholeLine then .InvalidateReq else if own.isSome then .UpgradeReq else .ReadExReq

theorem createMissPacket_write (hw : r.write = true) (mostly_excl : Bool) {own : Option (Block b)}
    (hown : ∀ blk, own = some blk → blk.writable = false) :
    createMissPacket mostly_excl r.promoted own =
      some { cmd := missCmd r own, data := fun _ => 0 } := by
  have hnot : (own.any fun blk => blk.writable) = false := by
    cases own with
    | none => rfl
    | some blk => exact hown blk rfl
  have hasks : (r.promoted.cmd.isEviction || !r.promoted.cmd.needsResponse ||
      (r.promoted.cmd == .WriteLineReq && !r.wholeLine)) = false := by
    rcases promoted_write r hw with heq | ⟨heq, -, hwhole⟩
    · rw [heq, packet_write r hw]
      rfl
    · rw [heq, hwhole]
      rfl
  unfold createMissPacket missCmd
  rw [promoted_needsWritable, promoted_isWholeLineWrite, hw, hnot]
  dsimp only
  rw [hasks]
  cases r.wholeLine with
  | true => rfl
  | false =>
    cases own with
    | none => rfl
    | some blk => rfl

theorem missCmd_isMiss (own : Option (Block b)) : (missCmd r own).isMiss = true := by
  unfold missCmd
  cases r.wholeLine <;> cases own <;> rfl

theorem missCmd_isInvalidate (own : Option (Block b)) : (missCmd r own).isInvalidate = true := by
  unfold missCmd
  cases r.wholeLine <;> cases own <;> rfl

/-- A dirty copy is a copy. -/
theorem holds_of_holdsDirty {ks : List (Fin n)} (h : ks.any (holdsDirty st.blocks) = true) :
    ks.any (holds st.blocks) = true := by
  obtain ⟨k, hk, hdirty⟩ := any_eq_true.mp h
  apply any_eq_true.mpr
  refine ⟨k, hk, ?_⟩
  unfold holds
  obtain ⟨blk, hblk, -⟩ := (Option.any_eq_true _ _).mp hdirty
  rw [hblk]
  rfl

theorem handleFill_read {i : Fin n} {cmd : MemCmd} (hgranted : Granted g st i cmd st' pkt)
    (hcmd : cmd = .ReadSharedReq ∨ cmd = .ReadCleanReq) (hnone : st.blocks i = none) :
    handleFill r.frame pkt none = some (fetchedBlock pkt g) := by
  have hkeep : cmd.isInvalidate = false := by rcases hcmd with rfl | rfl <;> rfl
  have hresp : pkt.cmd = .ReadResp := by
    rw [hgranted.cmd_eq]
    rcases hcmd with rfl | rfl <;> rfl
  have hdata : pkt.data = g := by
    apply hgranted.supplied _ hnone
    rcases hcmd with rfl | rfl <;> rfl
  have hshare : pkt.hasSharers = (snoopers i).any (holds st.blocks) := by
    rw [hgranted.hasSharers, hkeep]
    rfl
  have hquiet : pkt.hasSharers = false → pkt.cacheResponding = false := by
    intro hno
    rw [hgranted.cacheResponding]
    by_contra hdirty
    rw [Bool.not_eq_false] at hdirty
    rw [hshare, holds_of_holdsDirty hdirty] at hno
    cases hno
  unfold handleFill fetchedBlock
  rw [hresp, hdata]
  cases hs : pkt.hasSharers with
  | true => rfl
  | false =>
    rw [hquiet hs]
    rfl

/-- The bytes that a write is applied to: one of the size of the line that misses finds the
    frame. -/
def Request.base (g : LineData b) (own : Option (Block b)) : LineData b :=
  if r.wholeLine && own.isNone then r.frame else g

theorem handleFill_write {i : Fin n} (hgranted : Granted g st i (missCmd r (st.blocks i)) st' pkt)
    (hdata : ∀ blk, st.blocks i = some blk → blk.data = g) :
    ∃ blk, handleFill r.frame pkt (st.blocks i) = some blk ∧ blk.readable = true ∧
      blk.writable = true ∧ blk.data = r.base g (st.blocks i) := by
  have hshare : pkt.hasSharers = false := by
    rw [hgranted.hasSharers, missCmd_isInvalidate]
    rfl
  have hresp := hgranted.cmd_eq
  have hsupply := hgranted.supplied
  unfold missCmd at hresp hsupply
  unfold handleFill Request.base
  rw [hshare]
  cases hwhole : r.wholeLine with
  | true =>
    rw [hwhole, if_pos rfl] at hresp
    rw [hresp]
    cases hown : st.blocks i with
    | none => exact ⟨_, rfl, rfl, rfl, rfl⟩
    | some blk => exact ⟨_, rfl, rfl, rfl, hdata blk hown⟩
  | false =>
    rw [hwhole, if_neg Bool.false_ne_true] at hresp hsupply
    cases hown : st.blocks i with
    | none =>
      rw [hown] at hresp hsupply
      rw [hresp]
      exact ⟨_, rfl, rfl, rfl, hsupply rfl rfl⟩
    | some blk =>
      rw [hown] at hresp
      rw [hresp]
      exact ⟨_, rfl, rfl, rfl, hdata blk hown⟩

end miss

/-! ## Victims -/

/-- What `handleEvictions` does: each victim that was valid is out, and its packet waits. -/
structure Evicted (cfg : Config n) (i : Fin n) (s : System n b)
    (result : System n b × List (Line × Packet b)) : Prop where
  nodup : (result.2.map Prod.fst).Nodup
  others : ∀ line, line ∉ result.2.map Prod.fst → result.1 line = s line
  victims : ∀ line pkt, (line, pkt) ∈ result.2 → ∃ blk, (s line).blocks i = some blk ∧
    result.1 line = (s line).setBlock i none ∧ pkt = evictBlock (cfg.writebackClean i) blk

theorem evicted_nil (cfg : Config n) (i : Fin n) (s : System n b) : Evicted cfg i s (s, []) where
  nodup := nodup_nil
  others _ _ := rfl
  victims _ _ h := by cases h

theorem handleEvictions_spec (cfg : Config n) (i : Fin n) (victims : List Line) (s : System n b) :
    Evicted cfg i s (handleEvictions cfg i victims s) := by
  induction victims generalizing s with
  | nil => exact evicted_nil cfg i s
  | cons line victims ih =>
    cases hblk : (s line).blocks i with
    | none =>
      rw [handleEvictions, hblk]
      exact ih s
    | some blk =>
      rw [handleEvictions, hblk]
      have hrest := ih (update s line ((s line).setBlock i none))
      generalize handleEvictions cfg i victims (update s line ((s line).setBlock i none))
        = result at hrest
      -- the victim is gone already where it is named again
      have hout : line ∉ result.2.map Prod.fst := by
        intro hin
        obtain ⟨⟨line', pkt⟩, hmem, rfl⟩ := mem_map.mp hin
        obtain ⟨blk', hblk', -⟩ := hrest.victims _ pkt hmem
        rw [update_self, setBlock_self] at hblk'
        cases hblk'
      constructor
      · exact nodup_cons.mpr ⟨hout, hrest.nodup⟩
      · intro line' hline'
        obtain ⟨hne, hline'⟩ := not_or.mp (fun hin => hline' (mem_cons.mpr hin))
        rw [hrest.others line' hline', update_of_ne hne]
      · intro line' pkt hmem
        rcases mem_cons.mp hmem with heq | hmem
        · obtain ⟨rfl, rfl⟩ := Prod.mk.inj heq
          refine ⟨blk, hblk, ?_, rfl⟩
          rw [hrest.others _ hout, update_self]
        · obtain ⟨blk', hblk', hsys, hpkt⟩ := hrest.victims line' pkt hmem
          have hne : line' ≠ line := by
            intro heq
            rw [← heq] at hout
            exact hout (mem_map.mpr ⟨_, hmem, rfl⟩)
          rw [update_of_ne hne] at hblk' hsys
          exact ⟨blk', hblk', hsys, hpkt⟩

/-- The packets that wait are sent, and each leaves its line coherent. -/
theorem doWritebacksAtomic_spec (golden : Line → LineData b) (i : Fin n)
    {writebacks : List (Line × Packet b)} (s : System n b)
    (hnodup : (writebacks.map Prod.fst).Nodup)
    (hsent : ∀ line pkt, (line, pkt) ∈ writebacks →
      ∃ st pkt', recvAtomicBackdoor (s line) i pkt = some (st, pkt') ∧ Coherent (golden line) st) :
    ∃ s', doWritebacksAtomic i writebacks s = some s' ∧
      (∀ line, line ∉ writebacks.map Prod.fst → s' line = s line) ∧
      ∀ line, line ∈ writebacks.map Prod.fst → Coherent (golden line) (s' line) := by
  induction writebacks generalizing s with
  | nil => exact ⟨s, rfl, fun _ _ => rfl, fun _ h => by cases h⟩
  | cons x writebacks ih =>
    obtain ⟨line, pkt⟩ := x
    obtain ⟨hout, hnodup⟩ := nodup_cons.mp hnodup
    obtain ⟨st, pkt', hone, hcoherent⟩ := hsent line pkt mem_cons_self
    obtain ⟨s', hall, hothers, hlines⟩ := ih (update s line st) hnodup (by
      intro line' pkt'' hmem
      have hne : line' ≠ line := by
        rintro rfl
        exact hout (mem_map.mpr ⟨_, hmem, rfl⟩)
      rw [update_of_ne hne]
      exact hsent line' pkt'' (mem_cons_of_mem _ hmem))
    refine ⟨s', ?_, ?_, ?_⟩
    · rw [doWritebacksAtomic, hone]
      exact hall
    · intro line' hline'
      obtain ⟨hne, hline'⟩ := not_or.mp (fun hin => hline' (mem_cons.mpr hin))
      rw [hothers line' hline', update_of_ne hne]
    · intro line' hline'
      rcases mem_cons.mp hline' with rfl | hline'
      · rw [hothers _ hout, update_self]
        exact hcoherent
      · exact hlines line' hline'

/-- The victims leave, and later their packets: every line but `line₀`, on which the cache has no
    copy, is coherent again. -/
theorem Evicted.coherent {cfg : Config n} {i : Fin n} {s : System n b}
    {golden : Line → LineData b} {result : System n b × List (Line × Packet b)}
    (h : Evicted cfg i s result) (s₁ : System n b) (line₀ : Line)
    (hlines : ∀ line, line ≠ line₀ → Coherent (golden line) (s line))
    (hout : line₀ ∉ result.2.map Prod.fst)
    (hsame : ∀ line, line ≠ line₀ → s₁ line = result.1 line) :
    ∃ s₂, doWritebacksAtomic i result.2 s₁ = some s₂ ∧ s₂ line₀ = s₁ line₀ ∧
      ∀ line, line ≠ line₀ → Coherent (golden line) (s₂ line) := by
  obtain ⟨s₂, hall, hothers, hsent⟩ := doWritebacksAtomic_spec golden i s₁ h.nodup (by
      intro line pkt hmem
      have hne : line ≠ line₀ := by
        rintro rfl
        exact hout (mem_map.mpr ⟨_, hmem, rfl⟩)
      obtain ⟨blk, hblk, hsys, rfl⟩ := h.victims line pkt hmem
      rw [hsame line hne, hsys]
      exact (hlines line hne).evict hblk _)
  refine ⟨s₂, hall, hothers line₀ hout, ?_⟩
  intro line hne
  by_cases hin : line ∈ result.2.map Prod.fst
  · exact hsent line hin
  · rw [hothers line hin, hsame line hne, h.others line hin]
    exact hlines line hne

/-! ## One request -/

section request

variable {cfg : Config n} {s : System n b} {golden : Line → LineData b} {r : Request n b}

theorem wrote_read (h : r.write = false) (d : LineData b) : r.wrote d = d := by
  funext p
  unfold Request.wrote Request.writes
  rw [h]
  rfl

theorem wholeLine_read (h : r.write = false) : r.wholeLine = false := by
  unfold Request.wholeLine
  rw [h]
  rfl

/-- What a miss gets and makes of its line. -/
structure Filled (cfg : Config n) (g : LineData b) (st : LineState n b) (r : Request n b)
    (st' : LineState n b) (pkt : Packet b) (blk blk' : Block b) (response : Option (LineData b)) :
    Prop where
  asked : ∃ bus_pkt, createMissPacket (cfg.mostly_excl r.cache) r.promoted (st.blocks r.cache)
    = some bus_pkt ∧ recvAtomicBackdoor st r.cache bus_pkt = some (st', pkt)
  isResponse : pkt.cmd.isResponse = true
  fetched : r.wholeLine = false →
    (pkt.cmd.isRead || pkt.cmd == .UpgradeResp) = true ∧ pkt.cmd.isInvalidate = false
  own : st'.blocks r.cache = st.blocks r.cache
  filled : handleFill r.frame pkt (st.blocks r.cache) = some blk
  satisfied : satisfyRequest r.promoted blk = some (blk', response)
  coherent : Coherent (r.wrote (r.base g (st.blocks r.cache))) (st'.setBlock r.cache (some blk'))
  current : r.write = false → response = some g

/-- A read that misses. -/
theorem Coherent.filled_read {g : LineData b} {st : LineState n b} (h : Coherent g st)
    (hr : r.write = false) (hnone : st.blocks r.cache = none) :
    ∃ st' pkt blk blk' response, Filled cfg g st r st' pkt blk blk' response := by
  have hcmd : ∀ mostly_excl : Bool, (if mostly_excl then MemCmd.ReadCleanReq else .ReadSharedReq)
      = .ReadSharedReq ∨ (if mostly_excl then MemCmd.ReadCleanReq else .ReadSharedReq)
        = .ReadCleanReq := by
    intro mostly_excl
    cases mostly_excl
    · exact Or.inl rfl
    · exact Or.inr rfl
  specialize hcmd (cfg.mostly_excl r.cache)
  generalize hc : (if cfg.mostly_excl r.cache then MemCmd.ReadCleanReq else .ReadSharedReq) = cmd
    at hcmd
  have hmiss : cmd.isMiss = true := by rcases hcmd with rfl | rfl <;> rfl
  have hkeep : cmd.isInvalidate = false := by rcases hcmd with rfl | rfl <;> rfl
  have hresponse : cmd.responseCommand = .ReadResp := by rcases hcmd with rfl | rfl <;> rfl
  obtain ⟨st', pkt, hbus, hgranted⟩ := h.miss r.cache hmiss fun _ => 0
  refine ⟨st', pkt, fetchedBlock pkt g, fetchedBlock pkt g, some g, ?_⟩
  constructor
  · refine ⟨_, ?_, hbus⟩
    rw [hnone, createMissPacket_read r hr, hc]
  · rw [hgranted.cmd_eq, hresponse]
    rfl
  · intro _
    rw [hgranted.cmd_eq, hresponse]
    exact ⟨rfl, rfl⟩
  · exact hgranted.own
  · rw [hnone]
    exact handleFill_read r hgranted hcmd hnone
  · exact satisfyRequest_read r hr _
  · rw [wrote_read hr, Request.base, wholeLine_read hr]
    exact h.fetched hgranted hkeep hnone
  · intro _
    rfl

/-- A write that misses. -/
theorem Coherent.filled_write {g : LineData b} {st : LineState n b} (h : Coherent g st)
    (hw : r.write = true) (hown : ∀ blk, st.blocks r.cache = some blk → blk.writable = false) :
    ∃ st' pkt blk blk' response, Filled cfg g st r st' pkt blk blk' response := by
  obtain ⟨st', pkt, hbus, hgranted⟩ :=
    h.miss r.cache (missCmd_isMiss r (st.blocks r.cache)) fun _ => 0
  obtain ⟨blk, hfill, hreadable, hwritable, hdata⟩ := handleFill_write r hgranted (h.data r.cache)
  refine ⟨st', pkt, blk, { blk with data := r.wrote blk.data, dirty := true }, none, ?_⟩
  have hresponse : pkt.cmd.isResponse = true ∧ (r.wholeLine = false →
      (pkt.cmd.isRead || pkt.cmd == .UpgradeResp) = true ∧ pkt.cmd.isInvalidate = false) := by
    rw [hgranted.cmd_eq]
    unfold missCmd
    cases r.wholeLine with
    | true =>
      refine ⟨rfl, ?_⟩
      intro hno
      cases hno
    | false => cases st.blocks r.cache <;> exact ⟨rfl, fun _ => ⟨rfl, rfl⟩⟩
  constructor
  · exact ⟨_, createMissPacket_write r hw _ hown, hbus⟩
  · exact hresponse.1
  · exact hresponse.2
  · exact hgranted.own
  · exact hfill
  · exact satisfyRequest_write r hw hwritable
  · rw [← hdata]
    apply coherent_only { blk with data := r.wrote blk.data, dirty := true }
      (setBlock_self st' r.cache _)
    · -- every other copy is invalidated
      intro k hk
      rw [setBlock_ne st' _ hk, hgranted.others k hk]
      unfold keeps
      rw [missCmd_isInvalidate]
      cases st.blocks k <;> rfl
    · exact hreadable
    · rfl
  · intro hno
    rw [hw] at hno
    cases hno

/-- What a request leaves. -/
structure Served (golden : Line → LineData b) (s : System n b) (r : Request n b) (s' : System n b)
    (response : Option (LineData b)) : Prop where
  others : ∀ line, line ≠ r.line → Coherent (golden line) (s' line)
  line : Coherent (r.wrote (r.base (golden r.line) ((s r.line).blocks r.cache))) (s' r.line)
  own : ∃ blk, (s' r.line).blocks r.cache = some blk
  current : r.write = false → response = some (golden r.line)

/-- A miss is filled, and the victims leave after it. -/
theorem Filled.served {st' : LineState n b} {pkt : Packet b} {blk blk' : Block b}
    {response : Option (LineData b)}
    (hfilled : Filled cfg (golden r.line) (s r.line) r st' pkt blk blk' response)
    (h : ∀ line, line ≠ r.line → Coherent (golden line) (s line)) :
    ∃ s', (handleAtomicReqMiss cfg s r r.promoted).bind (fun (s, writebacks, response) =>
        (doWritebacksAtomic r.cache writebacks s).map fun s => (s, response)) =
          some (s', response) ∧
      Served golden s r s' response := by
  obtain ⟨bus_pkt, hcreate, hbus⟩ := hfilled.asked
  have hst : update s r.line st' r.line = st' := update_self r.line st' s
  -- the victims, if the line needs a frame
  obtain ⟨evicted, hevicted, hspec, hout⟩ : ∃ evicted : System n b × List (Line × Packet b),
      (if ((update s r.line st' r.line).blocks r.cache).isNone then
        handleEvictions cfg r.cache r.victims (update s r.line st')
      else (update s r.line st', [])) = evicted ∧
      Evicted cfg r.cache (update s r.line st') evicted ∧
      r.line ∉ evicted.2.map Prod.fst := by
    cases hown : ((update s r.line st' r.line).blocks r.cache) with
    | none =>
      have hspec := handleEvictions_spec cfg r.cache r.victims (update s r.line st')
      refine ⟨_, rfl, hspec, ?_⟩
      intro hin
      obtain ⟨⟨line, pkt'⟩, hmem, heq⟩ := mem_map.mp hin
      obtain ⟨blk'', hblk'', -⟩ := hspec.victims line pkt' hmem
      rw [show line = r.line from heq, hown] at hblk''
      cases hblk''
    | some own => exact ⟨_, rfl, evicted_nil cfg r.cache _, not_mem_nil⟩
  have hline : evicted.1 r.line = st' := by
    rw [hspec.others r.line hout, hst]
  have hfill : fillAndSatisfy cfg (update s r.line st') r r.promoted pkt =
      some (update evicted.1 r.line (st'.setBlock r.cache (some blk')), evicted.2, response) := by
    unfold fillAndSatisfy
    dsimp only
    rw [hevicted, hst, hfilled.own, hfilled.filled, Option.bind_some, hfilled.satisfied, hline]
    rfl
  have hmiss : handleAtomicReqMiss cfg s r r.promoted =
      some (update evicted.1 r.line (st'.setBlock r.cache (some blk')), evicted.2, response) := by
    unfold handleAtomicReqMiss
    rw [hcreate, Option.bind_some, hbus, Option.bind_some]
    dsimp only
    rw [hfilled.isResponse, promoted_isWholeLineWrite, hfill]
    cases hwhole : r.wholeLine with
    | true => rfl
    | false =>
      obtain ⟨hread, hkeep⟩ := hfilled.fetched hwhole
      rw [hread, hkeep]
      rfl
  obtain ⟨s', hwritebacks, hown, hothers⟩ := hspec.coherent
    (update evicted.1 r.line (st'.setBlock r.cache (some blk'))) r.line (by
      intro line hne
      rw [update_of_ne hne]
      exact h line hne) hout (fun line hne => update_of_ne hne _ _)
  rw [update_self] at hown
  refine ⟨s', ?_, ?_⟩
  · rw [hmiss, Option.bind_some]
    dsimp only
    rw [hwritebacks]
    rfl
  · constructor
    · exact hothers
    · rw [hown]
      exact hfilled.coherent
    · rw [hown]
      exact ⟨blk', setBlock_self st' r.cache _⟩
    · exact hfilled.current

/-- The request finds its line as it needs it. -/
def hits (r : Request n b) (own : Option (Block b)) : Bool :=
  own.any fun blk => if r.write then blk.writable else blk.readable

theorem recvAtomic_hit {blk : Block b} (hown : (s r.line).blocks r.cache = some blk)
    (hhit : hits r (some blk) = true) : recvAtomic cfg s r =
      (satisfyRequest r.promoted blk).map fun (blk, response) =>
        (update s r.line ((s r.line).setBlock r.cache (some blk)), response) := by
  have hok : (if r.promoted.cmd.needsWritable then blk.writable else blk.readable) = true := by
    rw [promoted_needsWritable]
    exact hhit
  unfold recvAtomic
  rw [hown]
  exact if_pos hok

theorem recvAtomic_miss (hmiss : hits r ((s r.line).blocks r.cache) = false) : recvAtomic cfg s r =
      (handleAtomicReqMiss cfg s r r.promoted).bind fun (s, writebacks, response) =>
        (doWritebacksAtomic r.cache writebacks s).map fun s => (s, response) := by
  unfold recvAtomic
  cases hown : (s r.line).blocks r.cache with
  | none => rfl
  | some blk =>
    rw [hown] at hmiss
    have hno : ¬ (if r.promoted.cmd.needsWritable then blk.writable else blk.readable) = true := by
      rw [promoted_needsWritable, Bool.not_eq_true]
      exact hmiss
    exact if_neg hno

/-- One request: every assertion is met, and the other lines stay coherent; on its own line the
    caches agree on what the request made of the bytes it found. -/
theorem recvAtomic_spec (h : ∀ line, Coherent (golden line) (s line)) (cfg : Config n)
    (r : Request n b) :
    ∃ s' response, recvAtomic cfg s r = some (s', response) ∧ Served golden s r s' response := by
  have hrest : ∀ line, line ≠ r.line → Coherent (golden line) (s line) := fun line _ => h line
  have hline := h r.line
  cases hhit : hits r ((s r.line).blocks r.cache) with
  | true =>
    obtain ⟨blk, hown, hok⟩ := (Option.any_eq_true _ _).mp hhit
    rw [hown] at hhit
    have hbase : r.base (golden r.line) ((s r.line).blocks r.cache) = golden r.line := by
      unfold Request.base
      rw [hown, Option.isNone_some, Bool.and_false]
      rfl
    have hdata := hline.data r.cache blk hown
    rw [recvAtomic_hit hown hhit]
    cases hw : r.write with
    | false =>
      refine ⟨s, some blk.data, ?_, ?_⟩
      · have hsame : (s r.line).setBlock r.cache (some blk) = s r.line := by
          unfold LineState.setBlock
          rw [← hown, update_eq_self]
        rw [satisfyRequest_read r hw]
        show some (update s r.line ((s r.line).setBlock r.cache (some blk)), some blk.data) = _
        rw [hsame, update_eq_self]
      · constructor
        · exact hrest
        · rw [hbase, wrote_read hw]
          exact hline
        · exact ⟨blk, hown⟩
        · intro _
          rw [hdata]
    | true =>
      have hwritable : blk.writable = true := by
        rw [hw] at hok
        exact hok
      rw [satisfyRequest_write r hw hwritable]
      refine ⟨_, _, rfl, ?_⟩
      constructor
      · intro line hne
        rw [update_of_ne hne]
        exact hrest line hne
      · rw [update_self, hbase, ← hdata]
        apply coherent_only { blk with data := r.wrote blk.data, dirty := true }
          (setBlock_self _ r.cache _)
        · intro k hk
          rw [setBlock_ne _ _ hk]
          exact hline.writable r.cache blk hown hwritable k hk
        · exact hline.readable r.cache blk hown
        · rfl
      · rw [update_self]
        exact ⟨_, setBlock_self _ r.cache _⟩
      · intro hno
        rw [hw] at hno
        cases hno
  | false =>
    obtain ⟨st', pkt, blk, blk', response, hfilled⟩ : ∃ st' pkt blk blk' response,
        Filled cfg (golden r.line) (s r.line) r st' pkt blk blk' response := by
      cases hw : r.write with
      | false =>
        -- a copy that is there can be read
        have hnone : (s r.line).blocks r.cache = none := by
          cases hown : (s r.line).blocks r.cache with
          | none => rfl
          | some blk =>
            have hreadable := hline.readable r.cache blk hown
            unfold hits at hhit
            rw [hown, hw] at hhit
            exact absurd (hreadable.symm.trans hhit) Bool.noConfusion
        exact hline.filled_read hw hnone
      | true =>
        apply hline.filled_write hw
        intro blk hown
        unfold hits at hhit
        rw [hown, hw] at hhit
        exact hhit
    obtain ⟨s', hall, hserved⟩ := hfilled.served hrest
    exact ⟨s', response, (recvAtomic_miss hhit).trans hall, hserved⟩

end request

/-! ## Every run -/

section run

variable {a : Audit n b}

/-- A write of the size of the line covers every byte. -/
theorem writes_of_wholeLine {r : Request n b} (h : r.wholeLine = true) (p : Fin b) :
    r.writes p = r.byteEnable p := by
  unfold Request.wholeLine at h
  rw [Bool.and_eq_true, Bool.and_eq_true, beq_iff_eq, beq_iff_eq] at h
  obtain ⟨⟨hwrite, hoffset⟩, hsize⟩ := h
  have hcovers : r.packet.covers p = true := by
    show (decide (r.offset ≤ p.val) && decide (p.val < r.offset + r.size)) = true
    rw [Bool.and_eq_true, decide_eq_true_iff, decide_eq_true_iff]
    omega
  unfold Request.writes
  rw [hwrite, hcovers]
  rfl

/-- The bytes that the write is applied to make no difference just when the frame agrees where it
    matters. -/
theorem wrote_base_iff (r : Request n b) (g : LineData b) (own : Option (Block b)) :
    r.wrote (r.base g own) = r.wrote g ↔
      (r.wholeLine = true → own = none → ∀ p, r.byteEnable p = false → r.frame p = g p) := by
  constructor
  · intro h hwhole hnone p hoff
    have hp := congrFun h p
    unfold Request.wrote Request.base at hp
    rw [writes_of_wholeLine hwhole, hoff, hwhole, hnone] at hp
    exact hp
  · intro h
    unfold Request.base
    by_cases hbase : (r.wholeLine && own.isNone) = true
    · rw [if_pos hbase]
      rw [Bool.and_eq_true, Option.isNone_iff_eq_none] at hbase
      funext p
      unfold Request.wrote
      rw [writes_of_wholeLine hbase.1]
      cases hoff : r.byteEnable p with
      | true => rfl
      | false => exact h hbase.1 hbase.2 p hoff
    · rw [if_neg hbase]

/-- One request keeps all sound just when the write that misses finds the bytes it does not
    write. -/
theorem Audit.Sound.next_iff (h : a.Sound) (cfg : Config n) (r : Request n b) :
    (a.next cfg r).Sound ↔ a.Keeps r := by
  obtain ⟨s', response, hreq, hserved⟩ := recvAtomic_spec h.coherent cfg r
  have hnext : a.next cfg r = { a with
        system := s'
        golden := update a.golden r.line (r.wrote (a.golden r.line))
        current := a.current && (r.write || (finRange b).all fun p =>
          !r.packet.covers p || response.any fun d => d p == a.golden r.line p) } := by
    unfold Audit.next
    rw [hreq]
  obtain ⟨blk, hown⟩ := hserved.own
  rw [hnext]
  unfold Audit.Keeps
  rw [← wrote_base_iff]
  constructor
  · intro hsound
    have hline := hsound.coherent r.line
    dsimp only at hline
    rw [update_self] at hline
    rw [← hserved.line.data r.cache blk hown, hline.data r.cache blk hown]
  · intro hsame
    constructor
    · exact h.asserted
    · show (a.current && _) = true
      rw [h.current, Bool.true_and]
      cases hw : r.write with
      | true => rfl
      | false =>
        rw [hserved.current hw, Bool.false_or, all_eq_true]
        intro p _
        show (!r.packet.covers p || a.golden r.line p == a.golden r.line p) = true
        rw [beq_self_eq_true, Bool.or_true]
    · intro line
      by_cases hline : line = r.line
      · subst hline
        show Coherent (update a.golden r.line _ r.line) (s' r.line)
        rw [update_self, ← hsame]
        exact hserved.line
      · show Coherent (update a.golden r.line _ line) (s' line)
        rw [update_of_ne hline]
        exact hserved.others line hline

theorem Audit.start_sound (mem : Line → LineData b) : (Audit.start mem : Audit n b).Sound := by
  constructor
  · rfl
  · rfl
  · intro line
    constructor
    · intro i blk hblk
      cases hblk
    · intro i j blk blk' hblk
      cases hblk
    · intro i blk hblk
      cases hblk
    · intro i blk hblk
      cases hblk
    · intro _
      rfl

/-- **Sibling caches stay coherent in atomic mode** just when every write of the size of the line,
    with a byte that is not enabled, hits or finds the line's own bytes in its frame. -/
theorem siblings_coherent_iff (cfg : Config n) (mem : Line → LineData b) (rs : List (Request n b)) :
    (∀ pre, pre <+: rs → (pre.foldl (Audit.next cfg) (Audit.start mem)).Sound) ↔
      Trace.Admits Audit.Keeps (Audit.next cfg) (Audit.start mem) rs := by
  have hlegal : Trace.Admits (fun _ _ => True) (Audit.next cfg) (Audit.start mem) rs :=
    Trace.admits_of_forall fun _ _ => trivial
  apply Trace.Admits.iff_prefix Audit.Sound Audit.Sound
  · intro a r h _ hkeeps
    exact (h.next_iff cfg r).mpr hkeeps
  · intro a h
    exact h
  · intro a r h _ hno hsound
    exact hno ((h.next_iff cfg r).mp hsound)
  · exact Audit.start_sound mem
  · exact hlegal

/-- Two caches that write back dirty lines only. -/
def pair : Config 2 := { writebackClean := fun _ => false, mostly_excl := fun _ => false }

/-- Cache 0 writes byte 0 of line 5 with a packet of the size of the line. -/
def maskedWrite : Request 2 64 where
  cache := 0
  line := 5
  write := true
  offset := 0
  size := 64
  byteEnable p := p == 0
  data := fun _ => 1
  frame := fun _ => 0
  fits := Nat.le_refl 64

/-- Cache 1 reads byte 3. -/
def readByte : Request 2 64 where
  cache := 1
  line := 5
  write := false
  offset := 3
  size := 1
  data := fun _ => 0
  frame := fun _ => 0
  fits := by decide

/-- Byte 3 was 7 and is not written; the read gets what the frame of cache 0 held. -/
theorem masked_write_loses_bytes :
    ¬ ∀ (cfg : Config 2) (mem : Line → LineData 64) (rs : List (Request 2 64)),
      ∀ pre, pre <+: rs → (pre.foldl (Audit.next cfg) (Audit.start mem)).Sound := by
  intro h
  have hcurrent := (h pair (fun _ _ => 7) [maskedWrite, readByte] _ (prefix_refl _)).current
  revert hcurrent
  decide

end run

end Gem5Dvr.Coherence
