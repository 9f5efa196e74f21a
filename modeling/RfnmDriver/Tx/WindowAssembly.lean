import RfnmDriver.Library.StepSystem
import RfnmDriver.Tx.Placement

/-!
# Windowed TX assembly

What `rfnm_handler_out` does with the packets it places while the session is a windowed one:
slot-aligned `TIME_VALID` packets that go on where the window ends are counted into it, the end of
a burst or a discontinuity closes it with a slot of zeros, and the window goes to the sink
`rfnm_la9310_tx_window`. The ghost fields are the packets placed so far, the 64-bit tick of the open
window, and what the ring held when each window was handed over.
-/

namespace RfnmDriver.Tx

open WrapClock

/-- `rfnm_tx_win`. -/
structure TxWin where
  /-- `open`: the open tick. -/
  openTick : BitVec 32
  firstSlot : Nat
  /-- The slot the next packet is expected at. -/
  nextSlot : Nat
  /-- Content slots accumulated, a `uint32_t`. -/
  slots : Nat
  active : Bool

/-- A packet in the ring, and the clock when the judge accepted it. -/
structure Placed where
  now64 : Nat
  packet : TxPacket

/-- A call of the window sink: its arguments, and the ring and the grid at the time. -/
structure Handed where
  openTick : BitVec 32
  srcSlot : Nat
  lenSlots : Nat
  grid : TxGrid
  ring : RingBuf
  placed : List Placed

/-- The consumer of the TX packets. -/
structure TxOut where
  now64 : Nat
  grid : TxGrid
  ring : RingBuf
  /-- `tx_la_cb.usb_cc`. -/
  usbCc : BitVec 64
  win : TxWin
  placed : List Placed
  /-- The 64-bit tick of the open tick of the window. -/
  openAir : ℤ
  handed : List Handed

/-- What happens to the consumer. -/
inductive OutEvent
  /-- Time passes. -/
  | elapse (ticks : Nat)
  /-- The handler takes the packet at the head of its queue. `viable` is whether nothing refuses
  positional placement, `windowed` is `rfnm_tx_windowed_q_cb`. -/
  | consume (packet : TxPacket) (viable windowed : Bool)
  /-- `rfnm_tx_flush_staging(scrub_ring)`. -/
  | flushStaging (scrubRing : Bool)
  /-- The firmware applies a stream word and mints the grid anew. -/
  | remint (grid : TxGrid)

/-- `rfnm_tx_win_close`: a slot of zeros behind the content, and the window goes to the sink. -/
def TxOut.winClose (out : TxOut) : TxOut :=
  if out.win.active then
    let ring := out.ring.write out.win.nextSlot fun _ => 0
    { out with
      ring := ring
      win := { out.win with active := false }
      handed :=
        { openTick := out.win.openTick
          srcSlot := out.win.firstSlot
          lenSlots := (out.win.slots + 1) % 2 ^ 32
          grid := out.grid
          ring := ring
          placed := out.placed } :: out.handed }
  else out

/-- A packet that starts and ends with a slot. -/
def TxPacket.Aligned (dac : DacRing) (grid : TxGrid) (packet : TxPacket) : Prop :=
  padSamples dac grid packet.phytimer = 0 ∧ span dac grid packet = dac.lbMulti packet

instance (dac : DacRing) (grid : TxGrid) (packet : TxPacket) :
    Decidable (packet.Aligned dac grid) :=
  inferInstanceAs (Decidable (_ ∧ _))

/-- A window is opened at the packet, unless one is. -/
def TxOut.winOpen (dac : DacRing) (out : TxOut) (packet : TxPacket) : TxOut :=
  if out.win.active then out
  else
    { out with
      win :=
        { openTick := packet.phytimer
          firstSlot := baseSlot dac out.grid packet.phytimer
          nextSlot := baseSlot dac out.grid packet.phytimer
          slots := 0
          active := true }
      openAir := stamp64 out.now64 packet.phytimer }

/-- The slots of the packet are counted into the window. -/
def TxOut.winExtend (dac : DacRing) (out : TxOut) (packet : TxPacket) : TxOut :=
  { out with
    win :=
      { out.win with
        nextSlot := ringSlot dac out.win.nextSlot (dac.lbMulti packet)
        slots := (out.win.slots + dac.lbMulti packet) % 2 ^ 32 } }

/-- The packet does not go on where the window ends. -/
def TxOut.Interrupts (dac : DacRing) (out : TxOut) (packet : TxPacket) : Prop :=
  ¬ packet.Aligned dac out.grid ∨ baseSlot dac out.grid packet.phytimer ≠ out.win.nextSlot

instance (dac : DacRing) (out : TxOut) (packet : TxPacket) :
    Decidable (out.Interrupts dac packet) :=
  inferInstanceAs (Decidable (_ ∨ _))

/-- Windowed assembly of a timed packet that has been placed. -/
def TxOut.assemble (dac : DacRing) (out : TxOut) (packet : TxPacket) : TxOut :=
  let closed := if out.Interrupts dac packet then out.winClose else out
  if packet.Aligned dac out.grid then
    let extended := (closed.winOpen dac packet).winExtend dac packet
    if packet.eob then extended.winClose else extended
  else closed

/-- The packet goes into the ring. -/
def TxOut.placePacket (dac : DacRing) (out : TxOut) (packet : TxPacket) : TxOut :=
  { out with
    ring := place dac out.grid packet out.ring
    placed := { now64 := out.now64, packet := packet } :: out.placed }

/-- The packet is done with: the cc goes on behind it. -/
def TxOut.consumed (out : TxOut) (packet : TxPacket) : TxOut :=
  { out with usbCc := packet.usbCc + 1 }

/-- What the handler does with a packet on which the judge has ruled. -/
def TxOut.ruled (dac : DacRing) (out : TxOut) (packet : TxPacket) (viable windowed : Bool) :
    Verdict → TxOut
  | .late => out.consumed packet
  | .wild => out.consumed packet
  | .early => out
  | .accepted =>
      if packet.timeValid then
        let placed := out.placePacket dac packet
        (if windowed then placed.assemble dac packet else placed).consumed packet
      else if packet.posValid ∧ viable ∧ packet.OnGrid out.grid then
        (out.placePacket dac packet).consumed packet
      else out.consumed packet

/-- One pass of `rfnm_handler_out`. -/
def TxOut.handlerOut (dac : DacRing) (margin : BitVec 32) (out : TxOut) (packet : TxPacket)
    (viable windowed : Bool) : TxOut :=
  out.ruled dac packet viable windowed (judge dac out.grid margin out.now64 packet.phytimer)

/-- One step. -/
def TxOut.next (dac : DacRing) (margin : BitVec 32) (out : TxOut) : OutEvent → Option TxOut
  | .elapse ticks => some { out with now64 := out.now64 + ticks }
  | .consume packet viable windowed => some (out.handlerOut dac margin packet viable windowed)
  | .flushStaging scrubRing =>
      some { out with ring := if scrubRing then fun _ _ => 0 else out.ring }
  | .remint grid => some { out with grid := grid }

/-- The TX side has started: a silent ring, and no window. -/
def TxOut.init (grid : TxGrid) : TxOut where
  now64 := 0
  grid := grid
  ring := fun _ _ => 0
  usbCc := 0
  win := { openTick := 0, firstSlot := 0, nextSlot := 0, slots := 0, active := false }
  placed := []
  openAir := 0
  handed := []

/-! ## Windows that are what they say -/

/-- The low word of the window command: `src_slot` above `len_slots`. -/
def windowCommand (srcSlot lenSlots : Nat) : BitVec 32 :=
  BitVec.ofNat 32 srcSlot <<< 16 ||| BitVec.ofNat 32 lenSlots

/-- A slot of the ring is filled by the slot of the packet that starts at the tick. -/
def Placed.Fills (dac : DacRing) (grid : TxGrid) (entry : Placed) (ring : RingBuf) (slotNo : Nat)
    (tick : ℤ) : Prop :=
  padSamples dac grid entry.packet.phytimer = 0 ∧
    ∃ round < dac.lbMulti entry.packet,
      stamp64 entry.now64 entry.packet.phytimer + round * grid.tps = tick ∧
        ∀ elem < dac.elemsPerSlot,
          ring slotNo elem = entry.packet.samples (round * dac.elemsPerSlot + elem)

/-- What a window handed to the sink promises: from its first slot on, the place of the open tick,
the ring has packets that follow one another tick by tick from the open tick on, and a slot of
zeros; it is no longer than the ring, and the command can say how long it is. -/
structure Handed.Good (dac : DacRing) (window : Handed) : Prop where
  filled : ∃ openAir : ℤ, openAir % 2 ^ 32 = window.openTick.toNat ∧
    ∀ round, round + 1 < window.lenSlots → ∃ entry ∈ window.placed,
      entry.Fills dac window.grid window.ring (ringSlot dac window.srcSlot round)
        (openAir + round * window.grid.tps)
  pad : ∀ elem, window.ring (ringSlot dac window.srcSlot (window.lenSlots - 1)) elem = 0
  srcSlot : window.srcSlot = baseSlot dac window.grid window.openTick
  lenSlots : 1 < window.lenSlots ∧ window.lenSlots ≤ dac.bufcnt
  command : ((windowCommand window.srcSlot window.lenSlots).extractLsb' 0 16).toNat =
      window.lenSlots ∧
    ((windowCommand window.srcSlot window.lenSlots).extractLsb' 16 16).toNat = window.srcSlot

/-- Every window handed to the sink is good. -/
def TxOut.AllGood (dac : DacRing) (out : TxOut) : Prop :=
  ∀ window ∈ out.handed, window.Good dac

/-- The slots of the open window that the packet writes it writes again with their own ticks. -/
def TxOut.Spares (dac : DacRing) (out : TxOut) (packet : TxPacket) : Prop :=
  ∀ round < touched dac out.grid packet, ∀ filled < out.win.slots,
    ringSlot dac (baseSlot dac out.grid packet.phytimer) round =
        ringSlot dac out.win.firstSlot filled →
      padSamples dac out.grid packet.phytimer = 0 ∧
        stamp64 out.now64 packet.phytimer + round * out.grid.tps =
          out.openAir + filled * out.grid.tps

/-- What the assembly is made for, of a packet that is accepted while a window is open: one that
goes on at its next slot goes on at its next tick, and with it and the slot of zeros the window fits
the ring; one that does not leaves the slots of the window as they are, and if it opens a window of
its own it has no slot where the slot of zeros goes. -/
def TxOut.Suits (dac : DacRing) (out : TxOut) (packet : TxPacket) (viable windowed : Bool) : Prop :=
  if packet.timeValid ∧ windowed ∧ ¬ out.Interrupts dac packet then
    stamp64 out.now64 packet.phytimer = out.openAir + out.win.slots * out.grid.tps ∧
      out.win.slots + dac.lbMulti packet + 1 ≤ dac.bufcnt
  else if packet.timeValid then
    out.Spares dac packet ∧ (windowed → packet.Aligned dac out.grid →
      ∀ round < dac.lbMulti packet,
        ringSlot dac (baseSlot dac out.grid packet.phytimer) round ≠ out.win.nextSlot)
  else if packet.posValid ∧ viable ∧ packet.OnGrid out.grid then out.Spares dac packet
  else True

instance (dac : DacRing) (out : TxOut) (packet : TxPacket) : Decidable (out.Spares dac packet) :=
  inferInstanceAs (Decidable (∀ round < touched dac out.grid packet, ∀ filled < out.win.slots, _))

instance (dac : DacRing) (out : TxOut) (packet : TxPacket) (viable windowed : Bool) :
    Decidable (out.Suits dac packet viable windowed) :=
  inferInstanceAs (Decidable (ite _ _ (ite _ _ (ite _ _ _))))

/-- The step is one the assembly is made for. With a window open, the ring is not scrubbed, nor the
grid minted anew. -/
def TxOut.Orderly (dac : DacRing) (margin : BitVec 32) (out : TxOut) : OutEvent → Prop
  | .elapse _ => True
  | .flushStaging scrubRing => out.win.active = true → scrubRing = false
  | .remint grid => out.win.active = true → grid = out.grid
  | .consume packet viable windowed => out.win.active = true →
      judge dac out.grid margin out.now64 packet.phytimer = .accepted →
        out.Suits dac packet viable windowed

instance (dac : DacRing) (margin : BitVec 32) (out : TxOut) :
    ∀ event, Decidable (out.Orderly dac margin event)
  | .elapse _ => inferInstanceAs (Decidable True)
  | .flushStaging _ => inferInstanceAs (Decidable (_ → _))
  | .remint _ => inferInstanceAs (Decidable (_ → _))
  | .consume _ _ _ => inferInstanceAs (Decidable (_ → _ → _))

end RfnmDriver.Tx
