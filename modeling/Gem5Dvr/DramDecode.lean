/-
  The address decoder of the DRAM interface (`mem/dram_interface.cc` 663-781, 834-918,
  `mem/mem_interface.cc` 54-74).

    1. The constructors of `MemInterface` and `DRAMInterface`, `init` and `decodePacket`, with what
       makes each of them stop.
    2. The three mappings as one order of digits, with the column split in a low and a high part.
    3. `Built`: what an accepted configuration with power-of-two counts is, as numbers.
    4. The count, one digit at a time (`Lib/Digits`).

  The crux: the row is kept in 64 bits and checked before it is narrowed, while bank and rank are
  narrowed to a byte first and checked afterwards, when the check cannot fail.
-/
import Mathlib.Data.Set.Card
import Gem5Dvr.AddrRangeTiling
import Gem5Dvr.Lib.Digits

namespace Gem5Dvr.Dram

open AddrRange

/-! ## The functions of the source -/

/-- The address mappings. -/
inductive AddrMap where
  | RoRaBaChCo
  | RoRaBaCoCh
  | RoCoRaBaCh
  deriving DecidableEq

/-- What ends the program: `fatal`, `panic` with the range in its text, a failed assertion, or an
    operation the language leaves undefined. -/
inductive Stop where
  | fatal (text : String)
  | panic
  | assertion
  | undefined
  deriving DecidableEq

/-- The parameters that the decoder depends on. -/
structure DRAMInterfaceParams where
  name : String
  range : AddrRange
  addr_mapping : AddrMap
  devices_per_rank : Nat
  burst_length : Nat
  device_bus_width : Nat
  device_rowbuffer_size : Nat
  ranks_per_channel : Nat
  banks_per_rank : Nat
  bank_groups_per_rank : Nat
  tREFI : Nat
  tRP : Nat
  tRFC : Nat
  tBURST : Nat
  tCCD_L : Nat
  tCCD_L_WR : Nat
  tRRD : Nat
  tRRD_L : Nat

/-- What the constructor and `init` have computed. -/
structure DRAMInterface where
  name : String
  range : AddrRange
  addrMapping : AddrMap
  burstSize : Nat
  rowBufferSize : Nat
  burstsPerRowBuffer : Nat
  burstsPerStripe : Nat
  ranksPerChannel : Nat
  banksPerRank : Nat
  rowsPerBank : Nat

/-- `fatal_if`. -/
def fatal_if (c : Prop) [Decidable c] (text : String) : Except Stop Unit :=
  if c then .error (.fatal text) else .ok ()

/-- `assert`. -/
def assert (c : Prop) [Decidable c] : Except Stop Unit :=
  if c then .ok () else .error .assertion

/-- `a / b` on unsigned operands. -/
def quotient (a b : Nat) : Except Stop Nat := if b = 0 then .error .undefined else .ok (a / b)

/-- `a % b` on unsigned operands. -/
def remainder (a b : Nat) : Except Stop Nat := if b = 0 then .error .undefined else .ok (a % b)

/-- A value of 8 bits. -/
def uint8 (n : Nat) : Nat := n % 2 ^ 8

/-- A value of 16 bits. -/
def uint16 (n : Nat) : Nat := n % 2 ^ 16

/-- A value of 32 bits. -/
def uint32 (n : Nat) : Nat := n % 2 ^ 32

/-- `isPowerOf2`. -/
def isPowerOf2 (n : Nat) : Prop := n ≠ 0 ∧ n &&& (n - 1) = 0

instance (n : Nat) : Decidable (isPowerOf2 n) := inferInstanceAs (Decidable (_ ∧ _))

/-- `ceilLog2`. -/
def ceilLog2 (n : Nat) : Nat := if n = 1 then 0 else Nat.log2 (n - 1) + 1

/-- `range.interleaved() ? range.granularity() / burstSize : 1`. -/
def stripe (range : AddrRange) (burstSize : Nat) : Except Stop Nat :=
  if range.interleaved then
    match range.granularity with
    | some g => (quotient g.toNat burstSize).map uint32
    | none => .error .undefined
  else .ok 1

/-- The constructors of `AbstractMemory` and `MemInterface`. -/
def MemInterface (_p : DRAMInterfaceParams) : Except Stop DRAMInterface := do
  if _p.range.valid = false ∨ _p.range.size.toNat = 0 then throw .panic
  let burstSize := uint32 (_p.devices_per_rank * _p.burst_length * _p.device_bus_width) / 8
  let rowBufferSize := uint32 (_p.devices_per_rank * _p.device_rowbuffer_size)
  let burstsPerRowBuffer ← quotient rowBufferSize burstSize
  let burstsPerStripe ← stripe _p.range burstSize
  return {
    name := _p.name
    range := _p.range
    addrMapping := _p.addr_mapping
    burstSize
    rowBufferSize
    burstsPerRowBuffer
    burstsPerStripe
    ranksPerChannel := uint32 _p.ranks_per_channel
    banksPerRank := uint32 _p.banks_per_rank
    rowsPerBank := 0 }

/-- `1ULL << ceilLog2(AbstractMemory::size())`. -/
def capacity (range : AddrRange) : Except Stop Nat :=
  if ceilLog2 range.size.toNat < 64 then .ok (2 ^ ceilLog2 range.size.toNat) else .error .undefined

/-- The checks of the bank group architecture. -/
def bankGroupChecks (_p : DRAMInterfaceParams) (banksPerRank : Nat) : Except Stop Unit := do
  fatal_if (_p.bank_groups_per_rank > banksPerRank)
    (s!"banks per rank ({banksPerRank}) must be equal to or larger than banks groups per rank " ++
      s!"({_p.bank_groups_per_rank})\n")
  fatal_if (banksPerRank % _p.bank_groups_per_rank ≠ 0)
    (s!"Banks per rank ({banksPerRank}) must be evenly divisible by bank groups per rank " ++
      s!"({_p.bank_groups_per_rank}) for equal banks per bank group\n")
  fatal_if (_p.tCCD_L ≤ _p.tBURST)
    (s!"tCCD_L ({_p.tCCD_L}) should be larger than the minimum bus delay ({_p.tBURST}) when bank " ++
      s!"groups per rank ({_p.bank_groups_per_rank}) is greater than 1\n")
  fatal_if (_p.tCCD_L_WR ≤ _p.tBURST)
    (s!"tCCD_L_WR ({_p.tCCD_L_WR}) should be larger than the minimum bus delay  ({_p.tBURST}) " ++
      s!"when bank groups per rank ({_p.bank_groups_per_rank}) is greater than 1\n")
  fatal_if (_p.tRRD_L < _p.tRRD)
    (s!"tRRD_L ({_p.tRRD_L}) should be larger than tRRD ({_p.tRRD}) when bank groups per rank " ++
      s!"({_p.bank_groups_per_rank}) is greater than 1\n")

/-- The constructor of `DRAMInterface`. -/
def DRAMInterface.construct (_p : DRAMInterfaceParams) : Except Stop DRAMInterface := do
  let d ← MemInterface _p
  fatal_if (¬ isPowerOf2 d.burstSize)
    s!"DRAM burst size {d.burstSize} is not allowed, must be a power of two\n"
  fatal_if (¬ isPowerOf2 d.ranksPerChannel)
    s!"DRAM rank count of {d.ranksPerChannel} is not allowed, must be a power of two\n"
  let capacity ← capacity d.range
  let rowsPerBank ←
    quotient capacity (uint32 (d.rowBufferSize * d.banksPerRank * d.ranksPerChannel))
  fatal_if (_p.tREFI ≤ _p.tRP ∨ _p.tREFI ≤ _p.tRFC)
    s!"tREFI ({_p.tREFI}) must be larger than tRP ({_p.tRP}) and tRFC ({_p.tRFC})\n"
  if _p.bank_groups_per_rank > 0 then bankGroupChecks _p d.banksPerRank
  return { d with rowsPerBank := uint32 rowsPerBank }

namespace DRAMInterface

variable (d : DRAMInterface)

/-- The checks of `init` for the mappings with the channel bits in the bottom. -/
def stripeChecks (cacheLineSize granularity : Nat) : Except Stop Unit := do
  assert (d.burstsPerStripe ≥ 1)
  fatal_if (cacheLineSize > granularity)
    s!"Channel interleaving of {d.name} must be at least as large as the cache line size\n"
  fatal_if (d.rowBufferSize < granularity)
    s!"Channel interleaving of {d.name} must be at most as large as the row-buffer size\n"
  assert (d.burstsPerStripe ≤ d.burstsPerRowBuffer)

/-- `init`: the range against the capacity, and the strides. -/
def init (cacheLineSize : Nat) : Except Stop Unit :=
  if d.range.interleaved then
    match d.range.granularity with
    | none => .error .undefined
    | some g =>
      match d.addrMapping with
      | .RoRaBaChCo => fatal_if (d.rowBufferSize ≠ g.toNat)
          s!"Channel interleaving of {d.name} doesn't match RoRaBaChCo address map\n"
      | .RoRaBaCoCh => d.stripeChecks cacheLineSize g.toNat
      | .RoCoRaBaCh => d.stripeChecks cacheLineSize g.toNat
  else .ok ()

end DRAMInterface

/-- What `decodePacket` fills in; the packet itself is only carried along. -/
structure MemPacket where
  read : Bool
  dram : Bool
  pseudoChannel : Nat
  rank : Nat
  bank : Nat
  row : Nat
  bankId : Nat
  addr : Addr
  size : Nat
  deriving DecidableEq

/-- `Bank::NO_ROW`. -/
def NO_ROW : Nat := 2 ^ 32 - 1

namespace DRAMInterface

variable (d : DRAMInterface)

/-- The address among those of the controller. -/
def getCtrlAddr (addr : Addr) : Addr := d.range.getOffset addr

/-- Rank, bank and row of a burst under `RoRaBaChCo` and `RoRaBaCoCh`. -/
def decodeRoRaBa (addr : Nat) : Except Stop (Nat × Nat × Nat) := do
  let addr ← quotient addr d.burstsPerRowBuffer
  let bank ← remainder addr d.banksPerRank
  let addr ← quotient addr d.banksPerRank
  let rank ← remainder addr d.ranksPerChannel
  let addr ← quotient addr d.ranksPerChannel
  let row ← remainder addr d.rowsPerBank
  return (uint8 rank, uint8 bank, row)

/-- The column bits below the channel bits removed. -/
def dropLowColumns (addr : Nat) : Except Stop Nat :=
  if d.burstsPerStripe > d.burstsPerRowBuffer then quotient addr d.burstsPerRowBuffer
  else quotient addr d.burstsPerStripe

/-- The higher-order column bits removed. -/
def dropHighColumns (addr : Nat) : Except Stop Nat :=
  if d.burstsPerStripe < d.burstsPerRowBuffer then
    (quotient d.burstsPerRowBuffer d.burstsPerStripe).bind (quotient addr)
  else .ok addr

/-- Rank, bank and row of a burst under `RoCoRaBaCh`. -/
def decodeRoCoRaBa (addr : Nat) : Except Stop (Nat × Nat × Nat) := do
  let addr ← d.dropLowColumns addr
  let bank ← remainder addr d.banksPerRank
  let addr ← quotient addr d.banksPerRank
  let rank ← remainder addr d.ranksPerChannel
  let addr ← quotient addr d.ranksPerChannel
  let addr ← d.dropHighColumns addr
  let row ← remainder addr d.rowsPerBank
  return (uint8 rank, uint8 bank, row)

/-- The branch on `addrMapping`. -/
def decodeBurst (addr : Nat) : Except Stop (Nat × Nat × Nat) :=
  match d.addrMapping with
  | .RoRaBaChCo => d.decodeRoRaBa addr
  | .RoRaBaCoCh => d.decodeRoRaBa addr
  | .RoCoRaBaCh => d.decodeRoCoRaBa addr

/-- The assertions, and the packet made.  The row becomes 32 bits wide here, the bank id 16. -/
def makePacket (pkt_addr : Addr) (size : Nat) (is_read : Bool) (pseudo_channel : Nat)
    (rank bank row : Nat) : Except Stop MemPacket := do
  assert (rank < d.ranksPerChannel)
  assert (bank < d.banksPerRank)
  assert (row < d.rowsPerBank)
  assert (row < NO_ROW)
  let bank_id := uint16 (d.banksPerRank * rank + bank)
  return {
    read := is_read
    dram := true
    pseudoChannel := pseudo_channel
    rank, bank
    row := uint32 row
    bankId := bank_id
    addr := pkt_addr
    size }

/-- Column, bank, rank and row, peeled off one by one. -/
def decodePacket (pkt_addr : Addr) (size : Nat) (is_read : Bool) (pseudo_channel : Nat) :
    Except Stop MemPacket := do
  let addr := d.getCtrlAddr pkt_addr
  let addr ← quotient addr.toNat d.burstSize
  let (rank, bank, row) ← d.decodeBurst addr
  d.makePacket pkt_addr size is_read pseudo_channel rank bank row

end DRAMInterface

/-! ## The order of the digits -/

namespace DRAMInterface

variable (d : DRAMInterface)

/-- The bursts of a row that lie together below the bank. -/
def lowColumns : Nat :=
  match d.addrMapping with
  | .RoRaBaChCo => d.burstsPerRowBuffer
  | .RoRaBaCoCh => d.burstsPerRowBuffer
  | .RoCoRaBaCh => min d.burstsPerStripe d.burstsPerRowBuffer

/-- The column digit between the rank and the row. -/
def highColumns : Nat := d.burstsPerRowBuffer / d.lowColumns

/-- The bank. -/
def bankDigit (n : Nat) : Nat := n / d.lowColumns % d.banksPerRank

/-- The rank. -/
def rankDigit (n : Nat) : Nat := n / d.lowColumns / d.banksPerRank % d.ranksPerChannel

/-- The row. -/
def rowDigit (n : Nat) : Nat :=
  n / d.lowColumns / d.banksPerRank / d.ranksPerChannel / d.highColumns % d.rowsPerBank

end DRAMInterface

theorem quotient_eq {a b : Nat} (h : b ≠ 0) : quotient a b = .ok (a / b) := if_neg h

theorem remainder_eq {a b : Nat} (h : b ≠ 0) : remainder a b = .ok (a % b) := if_neg h

theorem assert_eq {c : Prop} [Decidable c] (h : c) : assert c = .ok () := if_pos h

theorem quotient_ok {a b q : Nat} (h : quotient a b = .ok q) : b ≠ 0 ∧ q = a / b := by
  unfold quotient at h
  by_cases hb : b = 0
  · rw [if_pos hb] at h
    cases h
  · rw [if_neg hb] at h
    cases h
    exact ⟨hb, rfl⟩

theorem assert_ok {c : Prop} [Decidable c] {u : Unit} (h : assert c = .ok u) : c := by
  unfold assert at h
  by_cases hc : c
  · exact hc
  · rw [if_neg hc] at h
    cases h

theorem fatal_if_ok {c : Prop} [Decidable c] {text : String} {u : Unit}
    (h : fatal_if c text = .ok u) : ¬ c := by
  unfold fatal_if at h
  by_cases hc : c
  · rw [if_pos hc] at h
    cases h
  · exact hc

theorem bind_ok {α β : Type} {x : Except Stop α} {f : α → Except Stop β} {b : β}
    (h : (x >>= f) = .ok b) : ∃ a, x = .ok a ∧ f a = .ok b := by
  cases x with
  | error e => cases h
  | ok a => exact ⟨a, rfl, h⟩

/-- The counts the decoder divides by are not zero. -/
structure Divisors (d : DRAMInterface) : Prop where
  burst : d.burstSize ≠ 0
  rowBuffer : d.burstsPerRowBuffer ≠ 0
  stripe : d.addrMapping = .RoCoRaBaCh → d.burstsPerStripe ≠ 0
  banks : d.banksPerRank ≠ 0
  ranks : d.ranksPerChannel ≠ 0

namespace Divisors

variable {d : DRAMInterface} (h : Divisors d)
include h

/-- Both branches on the stripe drop the low part of the column. -/
theorem dropLowColumns_eq (hmap : d.addrMapping = .RoCoRaBaCh) (n : Nat) :
    d.dropLowColumns n = .ok (n / d.lowColumns) := by
  have hlow : d.lowColumns = min d.burstsPerStripe d.burstsPerRowBuffer := by
    unfold DRAMInterface.lowColumns
    rw [hmap]
  unfold DRAMInterface.dropLowColumns
  by_cases hgt : d.burstsPerStripe > d.burstsPerRowBuffer
  · rw [if_pos hgt, quotient_eq h.rowBuffer, hlow, Nat.min_eq_right (Nat.le_of_lt hgt)]
  · rw [if_neg hgt, quotient_eq (h.stripe hmap), hlow, Nat.min_eq_left (Nat.le_of_not_lt hgt)]

/-- The high part of the column is one where nothing is dropped. -/
theorem dropHighColumns_eq (hmap : d.addrMapping = .RoCoRaBaCh) (n : Nat) :
    d.dropHighColumns n = .ok (n / d.highColumns) := by
  have hlow : d.lowColumns = min d.burstsPerStripe d.burstsPerRowBuffer := by
    unfold DRAMInterface.lowColumns
    rw [hmap]
  have hstripe := h.stripe hmap
  unfold DRAMInterface.dropHighColumns DRAMInterface.highColumns
  by_cases hlt : d.burstsPerStripe < d.burstsPerRowBuffer
  · have hhigh : d.burstsPerRowBuffer / d.burstsPerStripe ≠ 0 := by
      have := Nat.div_pos (Nat.le_of_lt hlt) (Nat.pos_of_ne_zero hstripe)
      omega
    rw [if_pos hlt, quotient_eq hstripe, hlow, Nat.min_eq_left (Nat.le_of_lt hlt)]
    exact quotient_eq hhigh
  · rw [if_neg hlt, hlow, Nat.min_eq_right (Nat.le_of_not_lt hlt),
      Nat.div_self (Nat.pos_of_ne_zero h.rowBuffer), Nat.div_one]

/-- With rows, the decoder takes the digits in the order of the mapping and narrows two of them. -/
theorem decodeBurst_eq (hrows : d.rowsPerBank ≠ 0) (n : Nat) : d.decodeBurst n =
    .ok (uint8 (d.rankDigit n), uint8 (d.bankDigit n), d.rowDigit n) := by
  have hbanks := h.banks
  have hranks := h.ranks
  have hRoRaBa (hlow : d.lowColumns = d.burstsPerRowBuffer) : d.decodeRoRaBa n =
      .ok (uint8 (d.rankDigit n), uint8 (d.bankDigit n), d.rowDigit n) := by
    have hone : d.burstsPerRowBuffer / d.burstsPerRowBuffer = 1 :=
      Nat.div_self (Nat.pos_of_ne_zero h.rowBuffer)
    simp only [DRAMInterface.decodeRoRaBa, quotient_eq h.rowBuffer, quotient_eq hbanks,
      quotient_eq hranks, remainder_eq hbanks, remainder_eq hranks, remainder_eq hrows, bind,
      Except.bind, pure, Except.pure, DRAMInterface.rankDigit, DRAMInterface.bankDigit,
      DRAMInterface.rowDigit, DRAMInterface.highColumns, hlow, hone, Nat.div_one]
  unfold DRAMInterface.decodeBurst
  cases hmap : d.addrMapping with
  | RoRaBaChCo =>
    show d.decodeRoRaBa n = _
    rw [hRoRaBa (by unfold DRAMInterface.lowColumns; rw [hmap])]
  | RoRaBaCoCh =>
    show d.decodeRoRaBa n = _
    rw [hRoRaBa (by unfold DRAMInterface.lowColumns; rw [hmap])]
  | RoCoRaBaCh =>
    show d.decodeRoCoRaBa n = _
    simp only [DRAMInterface.decodeRoCoRaBa, h.dropLowColumns_eq hmap, h.dropHighColumns_eq hmap,
      quotient_eq hbanks, quotient_eq hranks, remainder_eq hbanks, remainder_eq hranks,
      remainder_eq hrows, bind, Except.bind, pure, Except.pure, DRAMInterface.rankDigit,
      DRAMInterface.bankDigit, DRAMInterface.rowDigit]

end Divisors

/-- Without rows, the last digit is a division by zero. -/
theorem decodeBurst_stop {d : DRAMInterface} (hrows : d.rowsPerBank = 0) (n : Nat) :
    ∀ t, d.decodeBurst n ≠ .ok t := by
  have hrow : ∀ a, remainder a d.rowsPerBank = .error .undefined := fun a => if_pos hrows
  intro t ht
  unfold DRAMInterface.decodeBurst at ht
  have hRoRaBa : d.decodeRoRaBa n ≠ .ok t := by
    intro hok
    obtain ⟨_, -, hok⟩ := bind_ok hok
    obtain ⟨_, -, hok⟩ := bind_ok hok
    obtain ⟨_, -, hok⟩ := bind_ok hok
    obtain ⟨_, -, hok⟩ := bind_ok hok
    obtain ⟨_, -, hok⟩ := bind_ok hok
    obtain ⟨_, hok, -⟩ := bind_ok hok
    rw [hrow] at hok
    cases hok
  split at ht
  · exact hRoRaBa ht
  · exact hRoRaBa ht
  · unfold DRAMInterface.decodeRoCoRaBa at ht
    obtain ⟨_, -, hok⟩ := bind_ok ht
    obtain ⟨_, -, hok⟩ := bind_ok hok
    obtain ⟨_, -, hok⟩ := bind_ok hok
    obtain ⟨_, -, hok⟩ := bind_ok hok
    obtain ⟨_, -, hok⟩ := bind_ok hok
    obtain ⟨_, -, hok⟩ := bind_ok hok
    obtain ⟨_, hok, -⟩ := bind_ok hok
    rw [hrow] at hok
    cases hok

/-! ## What the constructors and `init` accept -/

/-- The interface the constructors build and `init` lets pass. -/
def Accepted (_p : DRAMInterfaceParams) (cacheLineSize : Nat) (d : DRAMInterface) : Prop :=
  DRAMInterface.construct _p = .ok d ∧ d.init cacheLineSize = .ok ()

/-- The counts that nothing checks to be powers of two. -/
structure PowersOfTwo (d : DRAMInterface) : Prop where
  rowBuffer : d.rowBufferSize.isPowerOfTwo
  bursts : d.burstsPerRowBuffer.isPowerOfTwo
  banks : d.banksPerRank.isPowerOfTwo

/-- The range is as large as the capacity, and its addresses are the bytes of it. -/
def FullCapacity (d : DRAMInterface) : Prop :=
  capacity d.range = .ok d.range.size.toNat ∧ OffsetsTile d.range

/-- The bytes of the rows that have one number, over all banks. -/
def DRAMInterface.bytesPerRow (d : DRAMInterface) : Nat :=
  d.rowBufferSize * d.banksPerRank * d.ranksPerChannel

theorem isPowerOf2_iff (n : Nat) : isPowerOf2 n ↔ n.isPowerOfTwo :=
  Nat.ne_zero_and_sub_one_eq_zero_iff_isPowerOfTwo

/-- A power of two that is not lost by the narrowing is kept by it. -/
theorem uint32_pow {n : Nat} (h : uint32 (2 ^ n) ≠ 0) : n < 32 ∧ uint32 (2 ^ n) = 2 ^ n := by
  by_cases hn : n < 32
  · exact ⟨hn, Nat.mod_eq_of_lt (Nat.pow_lt_pow_right (by decide) hn)⟩
  · exact absurd (Nat.mod_eq_zero_of_dvd (Nat.pow_dvd_pow 2 (by omega))) h

/-- What the constructors leave in the fields. -/
structure Built (d : DRAMInterface) : Prop where
  size_ne : d.range.size.toNat ≠ 0
  burst : d.burstSize.isPowerOfTwo
  bursts : d.burstsPerRowBuffer = d.rowBufferSize / d.burstSize
  stripe : stripe d.range d.burstSize = .ok d.burstsPerStripe
  ranks : d.ranksPerChannel.isPowerOfTwo
  bytes_ne : uint32 d.bytesPerRow ≠ 0
  rows : ∃ size, capacity d.range = .ok size ∧
    d.rowsPerBank = uint32 (size / uint32 d.bytesPerRow)

theorem Built.of_construct {_p : DRAMInterfaceParams} {d : DRAMInterface}
    (h : DRAMInterface.construct _p = .ok d) : Built d := by
  obtain ⟨m, hm, h⟩ := bind_ok h
  obtain ⟨_, hburst, h⟩ := bind_ok h
  obtain ⟨_, hranks, h⟩ := bind_ok h
  obtain ⟨size, hsize, h⟩ := bind_ok h
  obtain ⟨rows, hrows, h⟩ := bind_ok h
  obtain ⟨_, _, h⟩ := bind_ok h
  obtain ⟨hbytes, rfl⟩ := quotient_ok hrows
  have hd : d = { m with rowsPerBank := uint32 (size /
      uint32 (m.rowBufferSize * m.banksPerRank * m.ranksPerChannel)) } := by
    by_cases hgroups : _p.bank_groups_per_rank > 0
    · rw [if_pos hgroups] at h
      obtain ⟨_, _, h⟩ := bind_ok h
      cases h
      rfl
    · rw [if_neg hgroups] at h
      cases h
      rfl
  unfold MemInterface at hm
  have hrange : ¬ (_p.range.valid = false ∨ _p.range.size.toNat = 0) := by
    intro hbad
    rw [if_pos hbad] at hm
    cases hm
  rw [if_neg hrange] at hm
  obtain ⟨burstsPerRowBuffer, hbursts, hm⟩ := bind_ok hm
  obtain ⟨burstsPerStripe, hstripe, hm⟩ := bind_ok hm
  have hfields := (Except.ok.inj hm).symm
  have hburst := (isPowerOf2_iff _).mp (Decidable.not_not.mp (fatal_if_ok hburst))
  have hranks := (isPowerOf2_iff _).mp (Decidable.not_not.mp (fatal_if_ok hranks))
  subst hfields
  subst hd
  exact ⟨fun h0 => hrange (.inr h0), hburst, (quotient_ok hbursts).2, hstripe, hranks, hbytes,
    size, hsize, rfl⟩

/-- The granularity of an interleaved range is its lowest mask bit. -/
theorem granularity_pow {r : AddrRange} (hint : r.interleaved = true) {g : Addr}
    (hg : r.granularity = some g) : ∃ e, g.toNat = 2 ^ e := by
  unfold granularity at hg
  rw [if_pos hint] at hg
  dsimp only at hg
  generalize Bitfield.ctz64 _ = lowest_bit at hg
  by_cases hlt : lowest_bit < 64
  · rw [if_pos hlt] at hg
    cases hg
    refine ⟨lowest_bit, ?_⟩
    rw [BitVec.toNat_shiftLeft, Nat.shiftLeft_eq, show (1#64).toNat = 1 from rfl, Nat.one_mul]
    exact Nat.mod_eq_of_lt (Nat.pow_lt_pow_right (by decide) hlt)
  · rw [if_neg hlt] at hg
    cases hg

/-- `init` leaves only stripes within a row below the bank. -/
theorem stripe_of_init {d : DRAMInterface} {cacheLineSize : Nat} (hb : Built d)
    (hinit : d.init cacheLineSize = .ok ()) (hmap : d.addrMapping = .RoCoRaBaCh)
    (hrow : d.burstsPerRowBuffer.isPowerOfTwo) :
    d.burstsPerStripe ≠ 0 ∧ d.burstsPerStripe ∣ d.burstsPerRowBuffer := by
  have hstripe := hb.stripe
  unfold stripe at hstripe
  unfold DRAMInterface.init at hinit
  by_cases hint : d.range.interleaved = true
  · rw [if_pos hint] at hstripe hinit
    cases hg : d.range.granularity with
    | none =>
      rw [hg] at hinit
      cases hinit
    | some g =>
      rw [hg, hmap] at hinit
      rw [hg] at hstripe
      obtain ⟨_, hone, hinit⟩ := bind_ok (show d.stripeChecks cacheLineSize g.toNat = .ok () from
        hinit)
      obtain ⟨_, _, hinit⟩ := bind_ok hinit
      obtain ⟨_, _, hle⟩ := bind_ok hinit
      have hone := assert_ok hone
      have hle := assert_ok hle
      refine ⟨by omega, ?_⟩
      -- the granularity is one bit, and so is what is left above the burst
      obtain ⟨e, he⟩ := granularity_pow hint hg
      obtain ⟨b, hburst⟩ := hb.burst
      obtain ⟨c, hc⟩ := hrow
      have hval : d.burstsPerStripe = uint32 (2 ^ e / 2 ^ b) := by
        dsimp only at hstripe
        rw [he, hburst, quotient_eq (Nat.two_pow_pos b).ne'] at hstripe
        exact (Except.ok.inj hstripe).symm
      have hbe : b ≤ e := by
        by_contra hlt
        rw [Nat.div_eq_of_lt (Nat.pow_lt_pow_right (by decide) (by omega))] at hval
        have : uint32 0 = 0 := rfl
        omega
      rw [Nat.pow_div hbe (by decide)] at hval
      obtain ⟨_, hkeep⟩ := uint32_pow (n := e - b) (by omega)
      rw [hkeep] at hval
      rw [hval, hc] at hle ⊢
      exact Nat.pow_dvd_pow 2 ((Nat.pow_le_pow_iff_right (by decide)).mp hle)
  · rw [if_neg hint] at hstripe
    have hone := Except.ok.inj hstripe
    rw [← hone]
    exact ⟨by decide, Nat.one_dvd _⟩

/-- The numbers of an accepted configuration, as far as the count needs them. -/
structure Shape (d : DRAMInterface) : Prop extends Divisors d where
  size_ne : d.range.size.toNat ≠ 0
  columns : d.lowColumns * d.highColumns = d.burstsPerRowBuffer
  rows_lt : d.rowsPerBank < NO_ROW
  rows_iff : d.rowsPerBank ≠ 0 ↔ d.bytesPerRow ≤ d.range.size.toNat ∧
    d.range.size.toNat < 2 ^ 32 * d.bytesPerRow
  aligned : d.rowsPerBank ≠ 0 → d.burstSize ∣ d.range.size.toNat
  bursts : d.rowsPerBank ≠ 0 → d.range.size.toNat / d.burstSize =
    d.lowColumns * (d.banksPerRank * (d.ranksPerChannel * (d.highColumns * d.rowsPerBank)))

theorem Shape.of_accepted {_p : DRAMInterfaceParams} {cacheLineSize : Nat} {d : DRAMInterface}
    (hacc : Accepted _p cacheLineSize d) (hpow : PowersOfTwo d) (hfull : FullCapacity d) :
    Shape d := by
  have hb := Built.of_construct hacc.1
  obtain ⟨b, hburst⟩ := hb.burst
  obtain ⟨m, hranks⟩ := hb.ranks
  obtain ⟨c, hc⟩ := hpow.bursts
  obtain ⟨r, hr⟩ := hpow.rowBuffer
  obtain ⟨j, hbanks⟩ := hpow.banks
  have hdiv : Divisors d := by
    refine ⟨?_, ?_, fun hmap => (stripe_of_init hb hacc.2 hmap hpow.bursts).1, ?_, ?_⟩
    · rw [hburst]
      exact (Nat.two_pow_pos b).ne'
    · rw [hc]
      exact (Nat.two_pow_pos c).ne'
    · rw [hbanks]
      exact (Nat.two_pow_pos j).ne'
    · rw [hranks]
      exact (Nat.two_pow_pos m).ne'
  have hcolumns : d.lowColumns * d.highColumns = d.burstsPerRowBuffer := by
    refine Nat.mul_div_cancel' ?_
    unfold DRAMInterface.lowColumns
    split
    · exact Nat.dvd_refl _
    · exact Nat.dvd_refl _
    · next hmap =>
      obtain ⟨_, hdvd⟩ := stripe_of_init hb hacc.2 hmap hpow.bursts
      rw [Nat.min_eq_left (Nat.le_of_dvd (Nat.pos_of_ne_zero hdiv.rowBuffer) hdvd)]
      exact hdvd
  -- the row buffer is the bursts in it
  have hrow : r = c + b := by
    have hquot := hb.bursts
    rw [hc, hr, hburst] at hquot
    have hbr : b ≤ r := by
      by_contra hlt
      rw [Nat.div_eq_of_lt (Nat.pow_lt_pow_right (by decide) (by omega))] at hquot
      exact absurd hquot (Nat.two_pow_pos c).ne'
    rw [Nat.pow_div hbr (by decide)] at hquot
    have := Nat.pow_right_injective (Nat.le_refl 2) hquot
    omega
  have hbytes : d.bytesPerRow = 2 ^ (c + b + j + m) := by
    unfold DRAMInterface.bytesPerRow
    rw [hr, hbanks, hranks, hrow, ← Nat.pow_add, ← Nat.pow_add]
  obtain ⟨n32, hkeep⟩ := uint32_pow (hbytes ▸ hb.bytes_ne)
  obtain ⟨size, hsize, hrows⟩ := hb.rows
  obtain ⟨k, hk⟩ : ∃ k, d.range.size.toNat = 2 ^ k := by
    have hcap := hfull.1
    unfold capacity at hcap
    split at hcap
    · exact ⟨_, (Except.ok.inj hcap).symm⟩
    · cases hcap
  have hsame : size = 2 ^ k := by
    rw [hfull.1, hk] at hsize
    exact (Except.ok.inj hsize).symm
  rw [hsame, hbytes, hkeep] at hrows
  have hle : d.bytesPerRow ≤ d.range.size.toNat ↔ c + b + j + m ≤ k := by
    rw [hbytes, hk]
    exact Nat.pow_le_pow_iff_right (by decide)
  have hlt : d.range.size.toNat < 2 ^ 32 * d.bytesPerRow ↔ k < 32 + (c + b + j + m) := by
    rw [hbytes, hk, ← Nat.pow_add]
    exact Nat.pow_lt_pow_iff_right (by decide)
  -- the rows are what is left of the exponent
  have hleft (h1 : c + b + j + m ≤ k) (h2 : k < 32 + (c + b + j + m)) :
      d.rowsPerBank = 2 ^ (k - (c + b + j + m)) := by
    rw [hrows, Nat.pow_div h1 (by decide)]
    exact Nat.mod_eq_of_lt (Nat.pow_lt_pow_right (by decide) (by omega))
  have hiff : d.rowsPerBank ≠ 0 ↔ c + b + j + m ≤ k ∧ k < 32 + (c + b + j + m) := by
    constructor
    · intro hne
      have h1 : c + b + j + m ≤ k := by
        by_contra hgt
        rw [Nat.div_eq_of_lt (Nat.pow_lt_pow_right (by decide) (by omega))] at hrows
        exact hne hrows
      rw [Nat.pow_div h1 (by decide)] at hrows
      rw [hrows] at hne
      obtain ⟨h2, _⟩ := uint32_pow hne
      exact ⟨h1, by omega⟩
    · rintro ⟨h1, h2⟩
      rw [hleft h1 h2]
      exact (Nat.two_pow_pos _).ne'
  refine ⟨hdiv, hb.size_ne, hcolumns, ?_, ?_, fun hne => ?_, fun hne => ?_⟩
  · by_cases hne : d.rowsPerBank = 0
    · rw [hne]
      decide
    · obtain ⟨h1, h2⟩ := hiff.mp hne
      rw [hleft h1 h2]
      have := Nat.pow_le_pow_right (show 0 < 2 by decide)
        (show k - (c + b + j + m) ≤ 31 by omega)
      exact Nat.lt_of_le_of_lt this (by decide)
  · rw [hiff, hle, hlt]
  · obtain ⟨h1, _⟩ := hiff.mp hne
    rw [hk, hburst]
    exact Nat.pow_dvd_pow 2 (by omega)
  · obtain ⟨h1, h2⟩ := hiff.mp hne
    calc d.range.size.toNat / d.burstSize
      _ = 2 ^ (k - b) := by rw [hk, hburst, Nat.pow_div (by omega) (by decide)]
      _ = 2 ^ c * (2 ^ j * (2 ^ m * 2 ^ (k - (c + b + j + m)))) := by
        rw [← Nat.pow_add, ← Nat.pow_add, ← Nat.pow_add]
        congr 1
        omega
      _ = d.burstsPerRowBuffer * (d.banksPerRank * (d.ranksPerChannel * d.rowsPerBank)) := by
        rw [hc, hbanks, hranks, hleft h1 h2]
      _ = d.lowColumns *
          (d.banksPerRank * (d.ranksPerChannel * (d.highColumns * d.rowsPerBank))) := by
        rw [← hcolumns]
        ac_rfl

/-! ## The bursts of a row -/

namespace DRAMInterface

variable (d : DRAMInterface) (size : Nat) (is_read : Bool) (pseudo_channel : Nat)

/-- The burst of the range that an address lies in. -/
def burstOf (a : Addr) : Nat := (d.getCtrlAddr a).toNat / d.burstSize

/-- `decodePacket` puts burst `n` of the range in the row. -/
def InRow (rank bank row n : Nat) : Prop :=
  ∃ a q, d.range.contains a = some true ∧ d.burstOf a = n ∧
    d.decodePacket a size is_read pseudo_channel = .ok q ∧
    q.rank = rank ∧ q.bank = bank ∧ q.row = row

/-- The decoder partitions the range: every address goes to a row there is, the addresses of one
    burst go to one row, and every row gets as many bursts as fit. -/
structure Partitions : Prop where
  decoded : ∀ a, d.range.contains a = some true → ∃ q,
    d.decodePacket a size is_read pseudo_channel = .ok q ∧
    q.rank < d.ranksPerChannel ∧ q.bank < d.banksPerRank ∧ q.row < d.rowsPerBank
  one_row : ∀ a a' q q', d.range.contains a = some true → d.range.contains a' = some true →
    d.burstOf a = d.burstOf a' → d.decodePacket a size is_read pseudo_channel = .ok q →
    d.decodePacket a' size is_read pseudo_channel = .ok q' →
    q.rank = q'.rank ∧ q.bank = q'.bank ∧ q.row = q'.row
  full : ∀ rank < d.ranksPerChannel, ∀ bank < d.banksPerRank, ∀ row < d.rowsPerBank,
    Set.ncard {n | d.InRow size is_read pseudo_channel rank bank row n} = d.burstsPerRowBuffer
  bankId_injective : ∀ a a' q q', d.range.contains a = some true →
    d.range.contains a' = some true → d.decodePacket a size is_read pseudo_channel = .ok q →
    d.decodePacket a' size is_read pseudo_channel = .ok q' → q.bankId = q'.bankId →
    q.rank = q'.rank ∧ q.bank = q'.bank

end DRAMInterface

theorem decodePacket_stop {d : DRAMInterface} (hrows : d.rowsPerBank = 0) (a : Addr) (size : Nat)
    (is_read : Bool) (pseudo_channel : Nat) (q : MemPacket) :
    d.decodePacket a size is_read pseudo_channel ≠ .ok q := by
  intro hok
  obtain ⟨n, _, hok⟩ := bind_ok hok
  obtain ⟨t, hdec, _⟩ := bind_ok hok
  exact decodeBurst_stop hrows n t hdec

namespace Shape

variable {d : DRAMInterface} (h : Shape d)
include h

theorem bankDigit_lt (n : Nat) : d.bankDigit n < d.banksPerRank :=
  Nat.mod_lt _ (Nat.pos_of_ne_zero h.banks)

theorem rankDigit_lt (n : Nat) : d.rankDigit n < d.ranksPerChannel :=
  Nat.mod_lt _ (Nat.pos_of_ne_zero h.ranks)

/-- The packet of an address: no assertion fails, and the row keeps its value. -/
theorem decodePacket_eq (hrows : d.rowsPerBank ≠ 0) (a : Addr) (size : Nat) (is_read : Bool)
    (pseudo_channel : Nat) : d.decodePacket a size is_read pseudo_channel = .ok {
      read := is_read
      dram := true
      pseudoChannel := pseudo_channel
      rank := uint8 (d.rankDigit (d.burstOf a))
      bank := uint8 (d.bankDigit (d.burstOf a))
      row := d.rowDigit (d.burstOf a)
      bankId := uint16 (d.banksPerRank * uint8 (d.rankDigit (d.burstOf a)) +
        uint8 (d.bankDigit (d.burstOf a)))
      addr := a
      size } := by
  have hrank : uint8 (d.rankDigit (d.burstOf a)) < d.ranksPerChannel :=
    Nat.lt_of_le_of_lt (Nat.mod_le _ _) (h.rankDigit_lt _)
  have hbank : uint8 (d.bankDigit (d.burstOf a)) < d.banksPerRank :=
    Nat.lt_of_le_of_lt (Nat.mod_le _ _) (h.bankDigit_lt _)
  have hrow : d.rowDigit (d.burstOf a) < d.rowsPerBank :=
    Nat.mod_lt _ (Nat.pos_of_ne_zero hrows)
  have hNO_ROW : d.rowDigit (d.burstOf a) < NO_ROW := Nat.lt_trans hrow h.rows_lt
  have hkeep : uint32 (d.rowDigit (d.burstOf a)) = d.rowDigit (d.burstOf a) :=
    Nat.mod_eq_of_lt (Nat.lt_trans hNO_ROW (by decide))
  have hdec := h.toDivisors.decodeBurst_eq hrows (d.burstOf a)
  unfold DRAMInterface.burstOf at *
  simp only [DRAMInterface.decodePacket, DRAMInterface.makePacket, quotient_eq h.burst, hdec,
    assert_eq hrank, assert_eq hbank, assert_eq hrow, assert_eq hNO_ROW, hkeep, bind, Except.bind,
    pure, Except.pure]

/-- Each row is met by as many bursts as fit in it: the columns are free, the rest is given. -/
theorem card_row {rank bank row : Nat} (hrank : rank < d.ranksPerChannel)
    (hbank : bank < d.banksPerRank) (hrow : row < d.rowsPerBank) :
    ((Finset.range (d.range.size.toNat / d.burstSize)).filter fun n =>
      d.bankDigit n = bank ∧ d.rankDigit n = rank ∧ d.rowDigit n = row).card =
      d.burstsPerRowBuffer := by
  rw [h.bursts (by omega)]
  calc _
    _ = d.lowColumns * ((Finset.range (d.banksPerRank * (d.ranksPerChannel *
          (d.highColumns * d.rowsPerBank)))).filter fun n => n % d.banksPerRank = bank ∧
          n / d.banksPerRank % d.ranksPerChannel = rank ∧
          n / d.banksPerRank / d.ranksPerChannel / d.highColumns % d.rowsPerBank = row).card :=
      Digits.card_filter_skip _ _ fun n => n % d.banksPerRank = bank ∧
        n / d.banksPerRank % d.ranksPerChannel = rank ∧
        n / d.banksPerRank / d.ranksPerChannel / d.highColumns % d.rowsPerBank = row
    _ = d.lowColumns * ((Finset.range (d.ranksPerChannel *
          (d.highColumns * d.rowsPerBank))).filter fun n => n % d.ranksPerChannel = rank ∧
          n / d.ranksPerChannel / d.highColumns % d.rowsPerBank = row).card := by
      rw [Digits.card_filter_mod _ _ (fun n => n % d.ranksPerChannel = rank ∧
        n / d.ranksPerChannel / d.highColumns % d.rowsPerBank = row) hbank]
    _ = d.lowColumns * ((Finset.range (d.highColumns * d.rowsPerBank)).filter fun n =>
          n / d.highColumns % d.rowsPerBank = row).card := by
      rw [Digits.card_filter_mod _ _ (fun n => n / d.highColumns % d.rowsPerBank = row) hrank]
    _ = d.lowColumns * (d.highColumns * ((Finset.range d.rowsPerBank).filter fun n =>
          n % d.rowsPerBank = row).card) := by
      rw [Digits.card_filter_skip _ _ fun n => n % d.rowsPerBank = row]
    _ = d.burstsPerRowBuffer := by
      have hone : ((Finset.range d.rowsPerBank).filter fun n => n % d.rowsPerBank = row) =
          {row} := by
        ext n
        simp only [Finset.mem_filter, Finset.mem_range, Finset.mem_singleton]
        constructor
        · rintro ⟨hn, hmod⟩
          rwa [Nat.mod_eq_of_lt hn] at hmod
        · rintro rfl
          exact ⟨hrow, Nat.mod_eq_of_lt hrow⟩
      rw [hone, Finset.card_singleton, Nat.mul_one, h.columns]

/-- The bursts of the range are the numbers below `size / burstSize`. -/
theorem exists_burst (htile : OffsetsTile d.range) (hdvd : d.burstSize ∣ d.range.size.toNat)
    (n : Nat) : (∃ a, d.range.contains a = some true ∧ d.burstOf a = n) ↔
      n < d.range.size.toNat / d.burstSize := by
  have hpos := Nat.pos_of_ne_zero h.burst
  obtain ⟨hbound, _, hsurj⟩ := htile
  constructor
  · rintro ⟨a, ha, rfl⟩
    exact Nat.div_lt_div_of_lt_of_dvd hdvd (hbound a ha)
  · intro hn
    have hlt : n * d.burstSize < d.range.size.toNat := by
      rw [Nat.mul_comm]
      exact (Nat.lt_div_iff_mul_lt' hdvd n).mp hn
    obtain ⟨a, ha, hoff⟩ := hsurj _ hlt
    refine ⟨a, ha, ?_⟩
    show (d.range.getOffset a).toNat / d.burstSize = n
    rw [hoff, Nat.mul_div_cancel _ hpos]

end Shape

/-! ## The partition -/

variable {_p : DRAMInterfaceParams} {cacheLineSize : Nat} {d : DRAMInterface}

/-- A count that fits a byte loses no digit. -/
theorem uint8_digit {n count : Nat} (hn : n < count) (hcount : count ≤ 256) : uint8 n = n :=
  Nat.mod_eq_of_lt (Nat.lt_of_lt_of_le hn hcount)

theorem uint8_lt (n : Nat) : uint8 n < 256 := Nat.mod_lt _ (by decide)

/-- `banksPerRank * rank + bank` tells rank and bank. -/
theorem bankId_inj {banks rank bank rank' bank' : Nat} (hbank : bank < banks)
    (hbank' : bank' < banks) (h : banks * rank + bank = banks * rank' + bank') :
    rank = rank' ∧ bank = bank' := by
  have hdiv : rank = rank' := by
    have hquot := congrArg (· / banks) h
    have hpos := Nat.zero_lt_of_lt hbank
    simpa only [Nat.mul_add_div hpos, Nat.div_eq_of_lt hbank, Nat.div_eq_of_lt hbank',
      Nat.add_zero] using hquot
  subst hdiv
  exact ⟨rfl, by omega⟩

theorem Shape.partitions (h : Shape d) (htile : OffsetsTile d.range) (hrows : d.rowsPerBank ≠ 0)
    (hbanks : d.banksPerRank ≤ 256) (hranks : d.ranksPerChannel ≤ 256) (size : Nat)
    (is_read : Bool) (pseudo_channel : Nat) : d.Partitions size is_read pseudo_channel := by
  have hdec := fun a => h.decodePacket_eq hrows a size is_read pseudo_channel
  have hrank n : uint8 (d.rankDigit n) = d.rankDigit n := uint8_digit (h.rankDigit_lt n) hranks
  have hbank n : uint8 (d.bankDigit n) = d.bankDigit n := uint8_digit (h.bankDigit_lt n) hbanks
  simp only [hrank, hbank] at hdec
  refine ⟨fun a _ => ?_, fun a a' q q' _ _ hburst hq hq' => ?_, ?_, ?_⟩
  · exact ⟨_, hdec a, h.rankDigit_lt _, h.bankDigit_lt _,
      Nat.mod_lt _ (Nat.pos_of_ne_zero hrows)⟩
  · rw [hdec, Except.ok.injEq] at hq hq'
    subst hq hq'
    show _ = _ ∧ _ = _ ∧ _ = _
    rw [hburst]
    exact ⟨rfl, rfl, rfl⟩
  · intro rank hrank bank hbank row hrow
    rw [← h.card_row hrank hbank hrow, ← Set.ncard_coe_finset]
    congr 1
    ext n
    simp only [Finset.coe_filter, Finset.mem_range, Set.mem_ofPred_eq,
      ← h.exists_burst htile (h.aligned hrows) n]
    constructor
    · rintro ⟨a, q, ha, rfl, hq, rfl, rfl, rfl⟩
      rw [hdec, Except.ok.injEq] at hq
      subst hq
      exact ⟨⟨a, ha, rfl⟩, rfl, rfl, rfl⟩
    · rintro ⟨⟨a, ha, rfl⟩, rfl, rfl, rfl⟩
      exact ⟨a, _, ha, rfl, hdec a, rfl, rfl, rfl⟩
  · intro a a' q q' _ _ hq hq' hid
    rw [hdec, Except.ok.injEq] at hq hq'
    subst hq hq'
    -- a rank and a bank of a byte each make an id of 16 bits
    have hfits n : uint16 (d.banksPerRank * d.rankDigit n + d.bankDigit n) =
        d.banksPerRank * d.rankDigit n + d.bankDigit n := by
      have hb := h.bankDigit_lt n
      have hr := h.rankDigit_lt n
      have hmul : d.banksPerRank * (d.rankDigit n + 1) ≤ 256 * 256 :=
        Nat.mul_le_mul hbanks (by omega)
      rw [Nat.mul_succ] at hmul
      exact Nat.mod_eq_of_lt (by omega)
    have hid : uint16 _ = uint16 _ := hid
    rw [hfits, hfits] at hid
    exact bankId_inj (h.bankDigit_lt _) (h.bankDigit_lt _) hid

/-- A bank past the byte is never used. -/
theorem Shape.banks_le (h : Shape d) (hrows : d.rowsPerBank ≠ 0) {size : Nat} {is_read : Bool}
    {pseudo_channel : Nat} (hpart : d.Partitions size is_read pseudo_channel) :
    d.banksPerRank ≤ 256 := by
  by_contra hgt
  have hcard := hpart.full 0 (Nat.pos_of_ne_zero h.ranks) 256 (by omega) 0
    (Nat.pos_of_ne_zero hrows)
  have hnone : {n | d.InRow size is_read pseudo_channel 0 256 0 n} = ∅ := by
    rw [Set.eq_empty_iff_forall_notMem]
    rintro n ⟨a, q, _, _, hq, _, hbank, _⟩
    rw [h.decodePacket_eq hrows, Except.ok.injEq] at hq
    subst hq
    exact absurd hbank (Nat.ne_of_lt (uint8_lt _))
  rw [hnone, Set.ncard_empty] at hcard
  exact h.rowBuffer hcard.symm

/-- A rank past the byte is never used. -/
theorem Shape.ranks_le (h : Shape d) (hrows : d.rowsPerBank ≠ 0) {size : Nat} {is_read : Bool}
    {pseudo_channel : Nat} (hpart : d.Partitions size is_read pseudo_channel) :
    d.ranksPerChannel ≤ 256 := by
  by_contra hgt
  have hcard := hpart.full 256 (by omega) 0 (Nat.pos_of_ne_zero h.banks) 0
    (Nat.pos_of_ne_zero hrows)
  have hnone : {n | d.InRow size is_read pseudo_channel 256 0 0 n} = ∅ := by
    rw [Set.eq_empty_iff_forall_notMem]
    rintro n ⟨a, q, _, _, hq, hrank, _⟩
    rw [h.decodePacket_eq hrows, Except.ok.injEq] at hq
    subst hq
    exact absurd hrank (Nat.ne_of_lt (uint8_lt _))
  rw [hnone, Set.ncard_empty] at hcard
  exact h.rowBuffer hcard.symm

/-- The decoder partitions the range exactly when bank and rank fit a byte and the capacity makes
    between one row and `2 ^ 32 - 1` rows of each bank. -/
theorem decode_partitions_iff (hacc : Accepted _p cacheLineSize d) (hpow : PowersOfTwo d)
    (hfull : FullCapacity d) (size : Nat) (is_read : Bool) (pseudo_channel : Nat) :
    d.Partitions size is_read pseudo_channel ↔
      d.banksPerRank ≤ 256 ∧ d.ranksPerChannel ≤ 256 ∧
      d.bytesPerRow ≤ d.range.size.toNat ∧ d.range.size.toNat < 2 ^ 32 * d.bytesPerRow := by
  have h := Shape.of_accepted hacc hpow hfull
  constructor
  · intro hpart
    have hrows : d.rowsPerBank ≠ 0 := by
      intro hzero
      obtain ⟨_, _, hsurj⟩ := hfull.2
      obtain ⟨a, ha, _⟩ := hsurj 0 (Nat.pos_of_ne_zero h.size_ne)
      obtain ⟨q, hq, _⟩ := hpart.decoded a ha
      exact decodePacket_stop hzero a size is_read pseudo_channel q hq
    exact ⟨h.banks_le hrows hpart, h.ranks_le hrows hpart, h.rows_iff.mp hrows⟩
  · rintro ⟨hbanks, hranks, hrows⟩
    exact h.partitions hfull.2 (h.rows_iff.mpr hrows) hbanks hranks size is_read pseudo_channel

/-- Two ranks of eight banks behind one of four hashed channels. -/
def twoRanks : DRAMInterfaceParams where
  name := "dram"
  range := thirdOfFour
  addr_mapping := .RoCoRaBaCh
  devices_per_rank := 8
  burst_length := 8
  device_bus_width := 8
  device_rowbuffer_size := 1024
  ranks_per_channel := 2
  banks_per_rank := 8
  bank_groups_per_rank := 0
  tREFI := 7800
  tRP := 14
  tRFC := 260
  tBURST := 5
  tCCD_L := 0
  tCCD_L_WR := 0
  tRRD := 6
  tRRD_L := 0

/-- What is built of them. -/
def twoRanksBuilt : DRAMInterface where
  name := "dram"
  range := thirdOfFour
  addrMapping := .RoCoRaBaCh
  burstSize := 64
  rowBufferSize := 8192
  burstsPerRowBuffer := 128
  burstsPerStripe := 4
  ranksPerChannel := 2
  banksPerRank := 8
  rowsPerBank := 2048

/-- The decoder partitions that range, the stripe being a thirty-second of the row. -/
theorem twoRanks_partitions : twoRanksBuilt.Partitions 64 true 0 := by
  have hacc : Accepted twoRanks 64 twoRanksBuilt := ⟨by rfl, by rfl⟩
  have hpow : PowersOfTwo twoRanksBuilt := ⟨⟨13, rfl⟩, ⟨7, rfl⟩, ⟨3, rfl⟩⟩
  have hfull : FullCapacity twoRanksBuilt := ⟨by rfl,
    thirdOfFour_interleaving.offsets_tile thirdOfFour_aligned (by decide) (by decide)⟩
  exact (decode_partitions_iff hacc hpow hfull 64 true 0).mpr (by decide)

/-- The offsets of a range without interleaving. -/
theorem plain_tiles {r : AddrRange} (hmasks : r.masks = []) (hmatch : r.intlvMatch = 0)
    (hval : r._start.toNat ≤ r._end.toNat) : OffsetsTile r := by
  have hcontains a : r.contains a = some true ↔ InRange r a := by
    unfold contains
    rw [hmasks, hmatch]
    by_cases hin : InRange r a
    · rw [if_pos (by simpa [InRange] using hin)]
      exact ⟨fun _ => hin, fun _ => rfl⟩
    · rw [if_neg (by simpa [InRange] using hin)]
      exact ⟨fun hsome => absurd hsome (by simp), fun h => absurd h hin⟩
  have hsize : r.size.toNat = r._end.toNat - r._start.toNat := by
    unfold AddrRange.size
    rw [hmasks, List.length_nil, BitVec.ushiftRight_zero, BitVec.toNat_sub_of_le hval]
  have hoff a (ha : InRange r a) : (r.getOffset a).toNat = a.toNat - r._start.toNat := by
    unfold getOffset AddrRange.interleaved
    rw [hmasks, if_neg (by simpa [InRange] using ha)]
    exact BitVec.toNat_sub_of_le ha.1
  refine ⟨fun a ha => ?_, fun a b ha hb hab => ?_, fun o ho => ?_⟩
  · have hin := (hcontains a).mp ha
    have := hin.1
    have := hin.2
    rw [hoff a hin, hsize]
    omega
  · have hina := (hcontains a).mp ha
    have hinb := (hcontains b).mp hb
    have := hina.1
    rw [hoff a hina, hoff b hinb]
    omega
  · have hend := r._end.isLt
    have hword : (BitVec.ofNat 64 (r._start.toNat + o)).toNat = r._start.toNat + o := by
      exact Nat.mod_eq_of_lt (by omega)
    have hin : InRange r (BitVec.ofNat 64 (r._start.toNat + o)) := by
      unfold InRange
      omega
    refine ⟨_, (hcontains _).mpr hin, ?_⟩
    rw [hoff _ hin, hword]
    omega

/-- One rank of 512 banks, two rows each, over 8 MiB. -/
def manyBanks : DRAMInterfaceParams :=
  { twoRanks with
    range := ⟨0x0#64, 0x800000#64, [], 0#8, AddrRange.fits_nil⟩
    addr_mapping := .RoRaBaCoCh
    ranks_per_channel := 1
    banks_per_rank := 512 }

def manyBanksBuilt : DRAMInterface where
  name := "dram"
  range := ⟨0x0#64, 0x800000#64, [], 0#8, AddrRange.fits_nil⟩
  addrMapping := .RoRaBaCoCh
  burstSize := 64
  rowBufferSize := 8192
  burstsPerRowBuffer := 128
  burstsPerStripe := 1
  ranksPerChannel := 1
  banksPerRank := 512
  rowsPerBank := 2

/-- The first byte of bank 256 is decoded to bank 0, and no byte to bank 256. -/
theorem manyBanks_not_partitioned :
    Accepted manyBanks 64 manyBanksBuilt ∧ PowersOfTwo manyBanksBuilt ∧
    FullCapacity manyBanksBuilt ∧
    (manyBanksBuilt.decodePacket 0x200000#64 64 true 0).map MemPacket.bank = .ok 0 ∧
    ¬ manyBanksBuilt.Partitions 64 true 0 := by
  have hacc : Accepted manyBanks 64 manyBanksBuilt := ⟨by rfl, by rfl⟩
  have hpow : PowersOfTwo manyBanksBuilt := ⟨⟨13, rfl⟩, ⟨7, rfl⟩, ⟨9, rfl⟩⟩
  have hfull : FullCapacity manyBanksBuilt := ⟨by rfl, plain_tiles rfl rfl (by decide)⟩
  refine ⟨hacc, hpow, hfull, by rfl, fun hpart => ?_⟩
  have h := Shape.of_accepted hacc hpow hfull
  exact absurd (h.banks_le (by decide) hpart) (by decide)

end Gem5Dvr.Dram
