/-
  The bursts of a request, and the write queue (`mem/mem_ctrl.cc` 186-373).

    1. `bursts`: where the request fits, no burst is empty, and each ends where the part of the
       request in that burst does (`Within`).  From here on no sum wraps.
    2. `WriteQueue`: the entries have burst addresses of their own, which `isInWriteQueue` holds,
       and each is the part of a write in its burst.  So `covers` asks what it means to
       (`covers_eq`), at most one entry covers a read burst, and the count of the nested loops is
       that of the covered bursts (`foundInWrQ_eq`).
    3. The loop of `addToWriteQueue` keeps this.
-/
import Gem5Dvr.Lib.Mirror
import Gem5Dvr.MemCtrl

namespace Gem5Dvr.Memory

open List

variable {c : Config}

/-! ## Bursts -/

theorem burst_size_pos (c : Config) : 0 < c.burst_size := Nat.two_pow_pos _

theorem offset_eq (c : Config) (addr : Nat) :
    addr &&& (c.burst_size - 1) = addr % c.burst_size := Nat.and_two_pow_sub_one_eq_mod addr _

theorem burstAlign_eq (c : Config) (addr : Nat) :
    c.burstAlign addr = addr / c.burst_size * c.burst_size := by
  have hdiv := Nat.div_add_mod addr c.burst_size
  rw [Config.burstAlign, offset_eq, Nat.mul_comm]
  omega

theorem nextBurst_eq (c : Config) {addr : Nat}
    (hbelow : (addr / c.burst_size + 1) * c.burst_size < 2 ^ 64) :
    c.nextBurst addr = (addr / c.burst_size + 1) * c.burst_size := by
  have hpos := burst_size_pos c
  have hlow : addr % c.burst_size ||| (c.burst_size - 1) = c.burst_size - 1 := by
    refine Nat.eq_of_testBit_eq fun i => ?_
    rw [Nat.testBit_or, Config.burst_size, Nat.testBit_mod_two_pow, Nat.testBit_two_pow_sub_one]
    by_cases hi : i < c.burstBits
    · simp [hi]
    · simp [hi]
  have hsplit : addr ||| (c.burst_size - 1) =
      c.burst_size * (addr / c.burst_size) + (c.burst_size - 1) := by
    have hword : addr = c.burst_size * (addr / c.burst_size) ||| addr % c.burst_size := by
      rw [Config.burst_size, ← Nat.two_pow_add_eq_or_of_lt (Nat.mod_lt _ (Nat.two_pow_pos _)),
        Nat.div_add_mod]
    have hfull : c.burst_size - 1 < 2 ^ c.burstBits := Nat.sub_lt hpos Nat.one_pos
    calc addr ||| (c.burst_size - 1)
        = c.burst_size * (addr / c.burst_size) ||| (addr % c.burst_size ||| (c.burst_size - 1)) := by
          rw [← Nat.or_assoc, ← hword]
      _ = c.burst_size * (addr / c.burst_size) + (c.burst_size - 1) := by
          rw [hlow]
          exact (Nat.two_pow_add_eq_or_of_lt hfull (addr / c.burst_size)).symm
  have hnext : addr ||| (c.burst_size - 1) = (addr / c.burst_size + 1) * c.burst_size - 1 := by
    rw [hsplit, Nat.add_mul, Nat.one_mul, Nat.mul_comm]
    omega
  rw [Config.nextBurst, hnext, Nat.sub_add_cancel (Nat.mul_pos (Nat.succ_pos _) hpos),
    Nat.mod_eq_of_lt hbelow]

theorem lt_next (c : Config) (addr : Nat) : addr < (addr / c.burst_size + 1) * c.burst_size := by
  rw [Nat.mul_comm]
  exact Nat.lt_mul_div_succ addr (burst_size_pos c)

/-- The end of a burst that begins before the last one is an address. -/
theorem next_below {addr limit : Nat} (hlt : addr < limit) (hend : limit + c.burst_size ≤ 2 ^ 64) :
    (addr / c.burst_size + 1) * c.burst_size < 2 ^ 64 := by
  have hle := Nat.div_mul_le_self addr c.burst_size
  rw [Nat.succ_mul]
  omega

/-- What is said of one burst of a request: it is not empty, it ends where the part of the request in
    that burst does, and that is an address. -/
structure Within (c : Config) (pkt : Packet) (b : Burst) : Prop where
  pos : 0 < b.size
  ends : b.addr + b.size = pkt.partEnd c b.addr
  below : b.addr + b.size < 2 ^ 64

variable {pkt : Packet}

theorem partEnd_le (c : Config) (pkt : Packet) (addr : Nat) :
    pkt.partEnd c addr ≤ (addr / c.burst_size + 1) * c.burst_size := Nat.min_le_left ..

/-- The first burst that the loop goes through. -/
theorem within_first {addr : Nat} (hend : pkt.addr + pkt.size + c.burst_size ≤ 2 ^ 64)
    (hsmall : c.burst_size < 2 ^ 32) (hlt : addr < pkt.addr + pkt.size) : Within c pkt
      ⟨addr, (min (c.nextBurst addr) (pkt.addr + pkt.size) + 2 ^ 64 - addr) % 2 ^ 32⟩ := by
  have hnext := lt_next c addr
  have hle := Nat.div_mul_le_self addr c.burst_size
  have hstep : (addr / c.burst_size + 1) * c.burst_size =
      addr / c.burst_size * c.burst_size + c.burst_size := Nat.succ_mul ..
  have hsize : (min (c.nextBurst addr) (pkt.addr + pkt.size) + 2 ^ 64 - addr) % 2 ^ 32 =
      pkt.partEnd c addr - addr := by
    rw [nextBurst_eq c (next_below hlt hend), Packet.partEnd]
    omega
  rw [hsize]
  have hbounds : addr < pkt.partEnd c addr ∧ pkt.partEnd c addr < 2 ^ 64 := by
    rw [Packet.partEnd]
    omega
  constructor
  · exact Nat.sub_pos_of_lt hbounds.1
  · exact Nat.add_sub_of_le (Nat.le_of_lt hbounds.1)
  · show addr + (pkt.partEnd c addr - addr) < 2 ^ 64
    omega

theorem burstsFrom_within (hend : pkt.addr + pkt.size + c.burst_size ≤ 2 ^ 64)
    (hsmall : c.burst_size < 2 ^ 32) : ∀ {cnt addr : Nat},
    (0 < cnt → addr < pkt.addr + pkt.size) →
    (∀ k < cnt, 0 < k → (addr / c.burst_size + k) * c.burst_size < pkt.addr + pkt.size) →
    ∀ b ∈ burstsFrom c (pkt.addr + pkt.size) cnt addr, Within c pkt b := by
  intro cnt
  induction cnt with
  | zero => exact fun _ _ b hb => absurd hb not_mem_nil
  | succ cnt ih =>
    intro addr hfirst hlater b hb
    have hlt := hfirst (Nat.succ_pos cnt)
    rcases mem_cons.mp hb with rfl | hrest
    · exact within_first hend hsmall hlt
    · have hnext := nextBurst_eq c (next_below hlt hend)
      have hdiv : c.nextBurst addr / c.burst_size = addr / c.burst_size + 1 := by
        rw [hnext, Nat.mul_div_cancel _ (burst_size_pos c)]
      refine ih (fun hpos => ?_) (fun k hk hpos => ?_) b hrest
      · rw [hnext]
        exact hlater 1 (Nat.succ_lt_succ hpos) Nat.one_pos
      · rw [hdiv, Nat.add_assoc, Nat.add_comm 1 k]
        exact hlater (k + 1) (Nat.succ_lt_succ hk) (Nat.succ_pos k)

theorem pkt_count_eq {addr size : Nat} (hfits : c.Fits addr size) : c.pkt_count addr size =
    (addr % c.burst_size + size + c.burst_size - 1) / c.burst_size := by
  have hpos := burst_size_pos c
  have hshort := hfits.2
  rw [Config.pkt_count, offset_eq, Nat.mod_eq_of_lt (by omega)]

/-- The bursts of a request that fits and is not empty. -/
theorem bursts_within (hfits : c.Fits pkt.addr pkt.size) (hsize : pkt.size ≠ 0) :
    ∀ b ∈ bursts c pkt, Within c pkt b := by
  have hpos := burst_size_pos c
  have hend := hfits.1
  have hshort := hfits.2
  rw [bursts, Nat.mod_eq_of_lt (by omega)]
  refine burstsFrom_within hend (by omega) (fun _ => by omega) fun k hk _ => ?_
  rw [pkt_count_eq hfits] at hk
  have hcover : k * c.burst_size < pkt.addr % c.burst_size + pkt.size := by
    have hle : (k + 1) * c.burst_size ≤ pkt.addr % c.burst_size + pkt.size + c.burst_size - 1 :=
      Nat.le_trans (Nat.mul_le_mul_right _ hk) (Nat.div_mul_le_self _ _)
    rw [Nat.succ_mul] at hle
    omega
  have hsplit := Nat.div_add_mod' pkt.addr c.burst_size
  rw [Nat.add_mul]
  omega

theorem length_burstsFrom (limit : Nat) : ∀ cnt addr : Nat,
    (burstsFrom c limit cnt addr).length = cnt := by
  intro cnt
  induction cnt with
  | zero => exact fun _ => rfl
  | succ cnt ih => exact fun addr => congrArg (· + 1) (ih _)

theorem length_bursts (pkt : Packet) : (bursts c pkt).length = c.pkt_count pkt.addr pkt.size :=
  length_burstsFrom ..

theorem pkt_count_pos {addr size : Nat} (hfits : c.Fits addr size) (hsize : size ≠ 0) :
    0 < c.pkt_count addr size := by
  have hpos := burst_size_pos c
  rw [pkt_count_eq hfits]
  exact Nat.div_pos (by omega) hpos

/-! ## The write queue -/

/-- A packet of the write queue is the part of its request in one burst. -/
structure Fitted (c : Config) (p : MemPacket) : Prop where
  ends : p.addr + p.size = p.pkt.partEnd c p.addr
  below : p.addr + p.size < 2 ^ 64

/-- What is said of the write queue, on the flat list of its entries. -/
structure WriteQueue (c : Config) (queue : List MemPacket) (addrs : Finset Nat) : Prop where
  distinct : (queue.map fun p => c.burstAlign p.addr).Nodup
  mirror : Mirror addrs (queue.map fun p => c.burstAlign p.addr)
  fits : ∀ p ∈ queue, Fitted c p

variable {b : Burst}

/-- Where no sum wraps, the test is the one that is meant. -/
theorem covers_eq {p : MemPacket} (hb : Within c pkt b) (hp : Fitted c p) :
    covers b p = subsumed c pkt b.addr p := by
  rw [covers, subsumed, Nat.mod_eq_of_lt hb.below, Nat.mod_eq_of_lt hp.below, hb.ends, hp.ends]

/-- What covers a burst is in the same one. -/
theorem burstAlign_of_covers {p : MemPacket} (hb : Within c pkt b) (hp : Fitted c p)
    (hcovers : covers b p = true) : c.burstAlign p.addr = c.burstAlign b.addr := by
  have hpos := burst_size_pos c
  have hbounds : p.addr ≤ b.addr ∧ b.addr + b.size ≤ p.addr + p.size := by
    rw [covers, Nat.mod_eq_of_lt hb.below, Nat.mod_eq_of_lt hp.below] at hcovers
    simpa using hcovers
  have hsize := hb.pos
  have hend := partEnd_le c p.pkt p.addr
  rw [← hp.ends] at hend
  have hle : p.addr / c.burst_size ≤ b.addr / c.burst_size := Nat.div_le_div_right hbounds.1
  have hlt : b.addr / c.burst_size < p.addr / c.burst_size + 1 :=
    (Nat.div_lt_iff_lt_mul hpos).mpr (by omega)
  rw [burstAlign_eq, burstAlign_eq, show p.addr / c.burst_size = b.addr / c.burst_size by omega]

namespace WriteQueue

variable {queue : List MemPacket} {addrs : Finset Nat}

theorem perm {queue' : List MemPacket} (h : WriteQueue c queue addrs)
    (hperm : queue.Perm queue') : WriteQueue c queue' addrs where
  distinct := (hperm.map _).nodup_iff.mp h.distinct
  mirror := h.mirror.perm (hperm.map _)
  fits := fun p hp => h.fits p (hperm.mem_iff.mpr hp)

/-- At most one entry covers a burst. -/
theorem countP_le (h : WriteQueue c queue addrs) (hb : Within c pkt b) :
    queue.countP (covers b) ≤ 1 := by
  have hcount : (queue.map fun p => c.burstAlign p.addr).count (c.burstAlign b.addr) ≤ 1 :=
    nodup_iff_count_le_one.mp h.distinct _
  refine Nat.le_trans ?_ hcount
  rw [List.count, countP_map]
  refine countP_mono_left fun p hp hcovers => ?_
  simp [burstAlign_of_covers hb (h.fits p hp) hcovers]

/-- An entry that covers a burst is known by its burst address. -/
theorem mem_of_any (h : WriteQueue c queue addrs) (hb : Within c pkt b)
    (hany : queue.any (covers b) = true) : c.burstAlign b.addr ∈ addrs := by
  obtain ⟨p, hp, hcovers⟩ := any_eq_true.mp hany
  rw [h.mirror, ← burstAlign_of_covers hb (h.fits p hp) hcovers]
  exact mem_map_of_mem hp

/-- A burst that is not in the queue is written. -/
theorem insert (h : WriteQueue c queue addrs) (hb : Within c pkt b)
    (hnew : c.burstAlign b.addr ∉ addrs) :
    WriteQueue c ({ pkt := pkt, addr := b.addr, size := b.size } :: queue)
      (Insert.insert (c.burstAlign b.addr) addrs) := by
  refine ⟨?_, ?_, ?_⟩
  · rw [map_cons, nodup_cons, ← h.mirror]
    exact ⟨hnew, h.distinct⟩
  · rw [map_cons]
    exact h.mirror.cons _
  · intro p' hp'
    rcases mem_cons.mp hp' with rfl | hold
    · exact ⟨hb.ends, hb.below⟩
    · exact h.fits p' hold

/-- An entry leaves. -/
theorem erase {p : MemPacket} (h : WriteQueue c (p :: queue) addrs) :
    WriteQueue c queue (addrs.erase (c.burstAlign p.addr)) := by
  have hdistinct := h.distinct
  rw [map_cons, nodup_cons] at hdistinct
  refine ⟨hdistinct.2, ?_, fun p' hp' => h.fits p' (mem_cons_of_mem p hp')⟩
  exact h.mirror.erase_cons_iff.mpr hdistinct.1

/-- A burst lies in what some entry writes. -/
theorem any_covers (h : WriteQueue c queue addrs) (hb : Within c pkt b) :
    queue.any (covers b) = queue.any (subsumed c pkt b.addr) := by
  rw [Bool.eq_iff_iff, any_eq_true, any_eq_true]
  constructor
  · rintro ⟨p, hp, hcovers⟩
    exact ⟨p, hp, covers_eq hb (h.fits p hp) ▸ hcovers⟩
  · rintro ⟨p, hp, hsubsumed⟩
    exact ⟨p, hp, (covers_eq hb (h.fits p hp)).trans hsubsumed⟩

theorem card (h : WriteQueue c queue addrs) : addrs.card = queue.length := by
  have heq : addrs = (queue.map fun p => c.burstAlign p.addr).toFinset := by
    ext a
    rw [h.mirror, mem_toFinset]
  rw [heq, toFinset_card_of_nodup h.distinct, length_map]

end WriteQueue

/-- The nested loops count a covered burst once. -/
theorem foundInWrQ_eq {s : MemCtrl} {b : Burst}
    (h : WriteQueue c s.writeQueue.flatten s.isInWriteQueue) (hb : Within c pkt b) :
    s.foundInWrQ c b = if s.writeQueue.flatten.any (covers b) = true then 1 else 0 := by
  have hle := h.countP_le hb
  rw [MemCtrl.foundInWrQ, Buckets.countP_any hle]
  by_cases hany : s.writeQueue.flatten.any (covers b) = true
  · rw [if_pos hany, if_pos (h.mem_of_any hb hany)]
    obtain ⟨p, hp, hcovers⟩ := any_eq_true.mp hany
    have hpos : 0 < s.writeQueue.flatten.countP (covers b) := countP_pos_iff.mpr ⟨p, hp, hcovers⟩
    omega
  · rw [if_neg hany]
    have hzero : s.writeQueue.flatten.countP (covers b) = 0 :=
      countP_eq_zero.mpr fun p hp hcovers => hany (any_eq_true.mpr ⟨p, hp, hcovers⟩)
    rw [hzero, ite_self]

end Gem5Dvr.Memory
