import RfnmDriver.Library.WrapClock

/-!
# Placement of timestamped TX packets

What `rfnm_handler_out` does with the packet at the head of its queue: the judge rules on the stamp,
and a packet it accepts goes into the DAC ring at the slot of its stamp. A `POS_VALID` packet must
start on the slot grid; a `TIME_VALID` one may start anywhere, and the rest of the slots it touches
is written with zeros. The ring is a table of slots of samples. Ticks are 64-bit and do not wrap.
-/

namespace RfnmDriver.Tx

open WrapClock

/-- A sample as the DAC takes it: `imag[31:16] | real[15:0]`. -/
abbrev DacSample := BitVec 32

/-- What the kernel tree says about the ring. The ring has no more slots than the 16384 that a lap
is timed with (`16384*256 ticks = 68.27 ms`), and a packet is shorter than half of it. -/
structure DacRing where
  /-- `RFNM_DAC_BUFCNT` is two to this power. -/
  bufcntLog : Nat
  /-- `LA_TX_BASE_BUFSIZE / 4`. -/
  elemsPerSlot : Nat
  /-- `RFNM_TX_USB_BUF_MULTI`. -/
  multiMax : Nat
  bufcntLog_le : bufcntLog ≤ 14
  elemsPerSlot_pos : 0 < elemsPerSlot
  multiMax_pos : 0 < multiMax
  multiMax_lt : 2 * multiMax < 2 ^ bufcntLog

/-- What the status block of the LA9310 says about the grid. -/
structure TxGrid where
  /-- `tx_t0`. -/
  t0 : BitVec 32
  /-- `tx_r_shift`. -/
  rShift : Nat
  rShift_le : rShift ≤ 11
  deriving DecidableEq

/-- A TX packet: the flags and fields the handler reads, and its samples, unpacked. -/
structure TxPacket where
  timeValid : Bool
  posValid : Bool
  eob : Bool
  phytimer : BitVec 32
  usbCc : BitVec 64
  multi : Nat
  samples : Nat → DacSample

/-- `rfnm_bufdesc_tx`: the samples of each slot. -/
abbrev RingBuf := Nat → Nat → DacSample

/-- `RFNM_DAC_BUFCNT`. -/
def DacRing.bufcnt (dac : DacRing) : Nat :=
  2 ^ dac.bufcntLog

/-- Ticks per slot. -/
def TxGrid.tps (grid : TxGrid) : Nat :=
  128 <<< grid.rShift

/-- `lb_multi`: an unusable `multi` is taken for the largest. -/
def DacRing.lbMulti (dac : DacRing) (packet : TxPacket) : Nat :=
  if 1 ≤ packet.multi ∧ packet.multi ≤ dac.multiMax then packet.multi else dac.multiMax

/-! ## The judge -/

/-- `stamp64`: the 64-bit tick of a stamp, by the nearest window. -/
def stamp64 (now64 : Nat) (stamp : BitVec 32) : ℤ :=
  nearest (2 ^ 31) now64 (now64 / 2 ^ 32 * 2 ^ 32 + stamp.toNat : Nat)

/-- `lead`. -/
def lead (now64 : Nat) (stamp : BitVec 32) : ℤ :=
  stamp64 now64 stamp - now64

/-- `rfnm_tx_min_lead_ticks`, with the module parameter `rfnm_tx_lead_margin_slots`. -/
def minLeadTicks (margin : BitVec 32) (grid : TxGrid) : Nat :=
  ((16#32 + margin) * BitVec.ofNat 32 grid.tps).toNat

/-- What the judge says. -/
inductive Verdict
  /-- Dropped: less than the minimum lead. -/
  | late
  /-- Dropped: a second beyond the ring span. -/
  | wild
  /-- Left at the head of the queue for now. -/
  | early
  | accepted
  deriving DecidableEq, Repr

/-- The furthest lead a packet is placed at. -/
def DacRing.maxLead (dac : DacRing) (grid : TxGrid) : Nat :=
  dac.bufcnt / 2 * grid.tps

/-- The judge of `rfnm_handler_out`. -/
def judge (dac : DacRing) (grid : TxGrid) (margin : BitVec 32) (now64 : Nat)
    (stamp : BitVec 32) : Verdict :=
  if lead now64 stamp < minLeadTicks margin grid then .late
  else if dac.maxLead grid < lead now64 stamp then
    if dac.maxLead grid + 61440000 < lead now64 stamp then .wild else .early
  else .accepted

/-! ## Slots -/

/-- `off`: ticks since the origin of the grid. -/
def TxGrid.off (grid : TxGrid) (stamp : BitVec 32) : BitVec 32 :=
  stamp - grid.t0

/-- The slot of a stamp. -/
def baseSlot (dac : DacRing) (grid : TxGrid) (stamp : BitVec 32) : Nat :=
  (grid.off stamp).toNat / grid.tps &&& dac.bufcnt - 1

/-- `pad_samples`: the samples of the first slot that are before the packet. -/
def padSamples (dac : DacRing) (grid : TxGrid) (stamp : BitVec 32) : Nat :=
  (grid.off stamp).toNat % grid.tps * dac.elemsPerSlot / grid.tps

/-- `content`: the samples of the packet. -/
def DacRing.content (dac : DacRing) (packet : TxPacket) : Nat :=
  dac.lbMulti packet * dac.elemsPerSlot

/-- `span`: the slots a `TIME_VALID` packet touches. -/
def span (dac : DacRing) (grid : TxGrid) (packet : TxPacket) : Nat :=
  (padSamples dac grid packet.phytimer + dac.content packet + dac.elemsPerSlot - 1) /
    dac.elemsPerSlot

/-- `ws`: the slot of a round of the copy loop. -/
def ringSlot (dac : DacRing) (base round : Nat) : Nat :=
  base + round &&& dac.bufcnt - 1

/-- A slot is written. -/
def RingBuf.write (ring : RingBuf) (slot : Nat) (buf : Nat → DacSample) : RingBuf :=
  Function.update ring slot buf

/-- The copy loop for a `POS_VALID` packet, after its first rounds. -/
def placePos (dac : DacRing) (grid : TxGrid) (packet : TxPacket) (ring : RingBuf) :
    Nat → RingBuf
  | 0 => ring
  | round + 1 =>
      (placePos dac grid packet ring round).write
        (ringSlot dac (baseSlot dac grid packet.phytimer) round)
        fun elem => packet.samples (round * dac.elemsPerSlot + elem)

/-- The copy loop for a `TIME_VALID` packet, after its first rounds: the ring, and `done`. -/
def placeTimed (dac : DacRing) (grid : TxGrid) (packet : TxPacket) (ring : RingBuf) :
    Nat → RingBuf × Nat
  | 0 => (ring, 0)
  | round + 1 =>
      let (before, done) := placeTimed dac grid packet ring round
      let s0 := if round = 0 then padSamples dac grid packet.phytimer else 0
      let n := min (dac.elemsPerSlot - s0) (dac.content packet - done)
      (before.write (ringSlot dac (baseSlot dac grid packet.phytimer) round) fun elem =>
          if elem < s0 then 0
          else if elem < s0 + n then packet.samples (done + (elem - s0))
          else 0,
        done + n)

/-- A `POS_VALID` packet must start with a slot. -/
def TxPacket.OnGrid (grid : TxGrid) (packet : TxPacket) : Prop :=
  (grid.off packet.phytimer).toNat % grid.tps = 0

instance (grid : TxGrid) (packet : TxPacket) : Decidable (packet.OnGrid grid) :=
  inferInstanceAs (Decidable (_ = _))

/-- The packet goes into the ring; a `POS_VALID` packet off the grid does not. -/
def place (dac : DacRing) (grid : TxGrid) (packet : TxPacket) (ring : RingBuf) : RingBuf :=
  if packet.timeValid then (placeTimed dac grid packet ring (span dac grid packet)).1
  else if packet.posValid ∧ packet.OnGrid grid then
    placePos dac grid packet ring (dac.lbMulti packet)
  else ring

/-! ## Air time -/

/-- The slots of the ring that are the packet's. -/
def touched (dac : DacRing) (grid : TxGrid) (packet : TxPacket) : Nat :=
  if packet.timeValid then span dac grid packet else dac.lbMulti packet

/-- The slot of the grid, counted without wrap, that a round of the copy loop fills. -/
def airSlot (grid : TxGrid) (now64 : Nat) (packet : TxPacket) (round : Nat) : ℤ :=
  slot grid.t0.toNat grid.tps (stamp64 now64 packet.phytimer) + round

/-- The tick at which a slot of the grid has been on air. -/
def airEnd (grid : TxGrid) (slot : ℤ) : ℤ :=
  grid.t0.toNat + (slot + 1) * grid.tps

end RfnmDriver.Tx
