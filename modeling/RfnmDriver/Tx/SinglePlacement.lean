import Mathlib.Tactic.IntervalCases
import RfnmDriver.Tx.TimedNeighbours

/-!
# One timed packet in the ring

What `rfnm_handler_out` leaves in the DAC ring for one `TIME_VALID` packet, from the bytes of its
payload on. `CS16` samples are copied as they are, packed ones are unpacked into a stage a slot at a
time. Counted in samples from the origin of the grid, the packet has the place of its stamp and the
places behind it, around the end of the ring too: `timed_placement`.
-/

namespace RfnmDriver.Tx

variable {dac : DacRing} {grid : TxGrid} {stamp : BitVec 32} {ring : RingBuf}
  {round elem count : Nat}

/-! ## Payloads -/

/-- `lb_fmt`: `RFNM_PACKET_FMT_CS16`, or packed twelve-bit samples. -/
inductive PacketFmt
  | cs16
  | packed12
  deriving DecidableEq, Repr

/-- Bytes by their offset. -/
abbrev Bytes := Nat → BitVec 8

/-- The four bytes of a sample in memory. -/
def sampleAtByte (bytes : Bytes) (offset : Nat) : DacSample :=
  bytes (offset + 3) ++ bytes (offset + 2) ++ bytes (offset + 1) ++ bytes offset

/-- The four bytes that `rfnm_unpack12to16_aarch64` stores for three bytes, `v3` to `v0`. -/
def unpackStore (x y z : BitVec 8) : DacSample :=
  (x >>> 4 ||| y <<< 4) ++ x <<< 4 ++ z ++ y >>> 4 <<< 4

/-- Three packed bytes hold two twelve-bit values. The lower one goes to the upper half of the
sample, and both are widened at the bottom. -/
def unpacked12 (packed : BitVec 24) : DacSample :=
  packed.extractLsb' 0 12 ++ 0#4 ++ packed.extractLsb' 12 12 ++ 0#4

/-- `LA_TX_BASE_BUFSIZE_12`: the bytes of a packed slot. -/
def DacRing.bufsize12 (dac : DacRing) : Nat :=
  3 * dac.elemsPerSlot

/-- `rfnm_unpack12to16_aarch64_wrapper`: samples from the source on go to the destination. -/
def unpack12to16 (stage : Nat → DacSample) (dest : Nat) (bytes : Bytes) (src count : Nat) :
    Nat → DacSample := fun place =>
  if dest ≤ place ∧ place < dest + count then
    unpackStore (bytes (src + 3 * (place - dest))) (bytes (src + 3 * (place - dest) + 1))
      (bytes (src + 3 * (place - dest) + 2))
  else stage place

/-- The unpacking into `rfnm_tx_time_stage`, after its first rounds. -/
def unpackRounds (dac : DacRing) (bytes : Bytes) (stage : Nat → DacSample) :
    Nat → Nat → DacSample
  | 0 => stage
  | w + 1 =>
      unpack12to16 (unpackRounds dac bytes stage w) (w * dac.elemsPerSlot) bytes
        (w * dac.bufsize12) dac.elemsPerSlot

/-- A `TIME_VALID` packet as it is in its buffer. -/
structure TimedBuf where
  posValid : Bool
  eob : Bool
  phytimer : BitVec 32
  usbCc : BitVec 64
  multi : Nat
  fmt : PacketFmt
  payload : Bytes

/-- The header of the packet, with the samples that `csrc` points to. -/
def TimedBuf.withContent (buf : TimedBuf) (csrc : Nat → DacSample) : TxPacket where
  timeValid := true
  posValid := buf.posValid
  eob := buf.eob
  phytimer := buf.phytimer
  usbCc := buf.usbCc
  multi := buf.multi
  samples := csrc

/-- `csrc`: the payload, or the stage it is unpacked into. -/
def TimedBuf.csrc (dac : DacRing) (buf : TimedBuf) (stage : Nat → DacSample) : Nat → DacSample :=
  match buf.fmt with
  | .cs16 => fun k => sampleAtByte buf.payload (4 * k)
  | .packed12 => unpackRounds dac buf.payload stage (dac.lbMulti (buf.withContent stage))

/-- The packet that goes into the ring. -/
def TimedBuf.packet (dac : DacRing) (buf : TimedBuf) (stage : Nat → DacSample) : TxPacket :=
  buf.withContent (buf.csrc dac stage)

/-! ## What the placement is for -/

/-- A content sample of the packet, by its format. -/
def TimedBuf.sample (buf : TimedBuf) (k : Nat) : DacSample :=
  match buf.fmt with
  | .cs16 => sampleAtByte buf.payload (4 * k)
  | .packed12 =>
      unpacked12 (buf.payload (3 * k + 2) ++ buf.payload (3 * k + 1) ++ buf.payload (3 * k))

/-- The number of a stamp's sample, counted from the origin of the grid. -/
def stampPos (dac : DacRing) (grid : TxGrid) (stamp : BitVec 32) : Nat :=
  (grid.off stamp).toNat * dac.elemsPerSlot / grid.tps

/-- What the ring has in the place of a sample. -/
def RingBuf.atPos (ring : RingBuf) (dac : DacRing) (pos : Nat) : DacSample :=
  ring (pos / dac.elemsPerSlot % dac.bufcnt) (pos % dac.elemsPerSlot)

/-- The sample is in one of the slots a packet spans. -/
def InSpan (dac : DacRing) (grid : TxGrid) (packet : TxPacket) (pos : Nat) : Prop :=
  stampPos dac grid packet.phytimer / dac.elemsPerSlot ≤ pos / dac.elemsPerSlot ∧
    pos / dac.elemsPerSlot <
      stampPos dac grid packet.phytimer / dac.elemsPerSlot + span dac grid packet

/-! ## Unpacking -/

/-- What the vector unit stores is the two values of the packed bytes. -/
theorem unpackStore_eq (x y z : BitVec 8) : unpackStore x y z = unpacked12 (z ++ y ++ x) := by
  unfold unpackStore unpacked12
  apply BitVec.eq_of_getLsbD_eq
  intro i hi
  simp only [BitVec.getLsbD_append, BitVec.getLsbD_or, BitVec.getLsbD_shiftLeft,
    BitVec.getLsbD_ushiftRight, BitVec.getLsbD_extractLsb', BitVec.getLsbD_zero]
  interval_cases i <;> simp

/-- After the rounds of the unpacking, the stage has the samples of the slots they came to. -/
theorem unpackRounds_eq (bytes : Bytes) (stage : Nat → DacSample) {k : Nat}
    (hk : k < count * dac.elemsPerSlot) :
    unpackRounds dac bytes stage count k =
      unpackStore (bytes (3 * k)) (bytes (3 * k + 1)) (bytes (3 * k + 2)) := by
  induction count with
  | zero => omega
  | succ w ih =>
      unfold unpackRounds unpack12to16 DacRing.bufsize12
      rw [Nat.succ_mul] at hk
      split
      next hin =>
        have hsrc : w * (3 * dac.elemsPerSlot) + 3 * (k - w * dac.elemsPerSlot) = 3 * k := by
          rw [Nat.mul_left_comm]
          omega
        rw [hsrc]
      next hout => exact ih (by omega)

/-- The content that is placed is that of the payload. -/
theorem TimedBuf.packet_samples (buf : TimedBuf) (stage : Nat → DacSample) {k : Nat}
    (hk : k < dac.content (buf.packet dac stage)) :
    (buf.packet dac stage).samples k = buf.sample k := by
  show buf.csrc dac stage k = _
  unfold csrc sample
  cases buf.fmt with
  | cs16 => rfl
  | packed12 =>
      show unpackRounds dac buf.payload stage (dac.lbMulti (buf.packet dac stage)) k = _
      rw [unpackRounds_eq buf.payload stage hk, unpackStore_eq]

/-! ## Places -/

/-- The place of a stamp is the padding behind its slot. -/
theorem stampPos_eq (dac : DacRing) (grid : TxGrid) (stamp : BitVec 32) :
    stampPos dac grid stamp =
      (grid.off stamp).toNat / grid.tps * dac.elemsPerSlot + padSamples dac grid stamp := by
  have hsplit := Nat.div_add_mod (grid.off stamp).toNat grid.tps
  unfold stampPos padSamples
  calc (grid.off stamp).toNat * dac.elemsPerSlot / grid.tps
      = (grid.tps * ((grid.off stamp).toNat / grid.tps * dac.elemsPerSlot) +
          (grid.off stamp).toNat % grid.tps * dac.elemsPerSlot) / grid.tps := by
        rw [← Nat.mul_assoc, ← Nat.add_mul, hsplit]
    _ = _ := Nat.mul_add_div grid.tps_pos _ _

/-- The slot of the place of a stamp. -/
theorem stampPos_div (dac : DacRing) (grid : TxGrid) (stamp : BitVec 32) :
    stampPos dac grid stamp / dac.elemsPerSlot = (grid.off stamp).toNat / grid.tps := by
  have hpad := padSamples_lt dac grid stamp
  rw [stampPos_eq, Nat.mul_comm, Nat.mul_add_div dac.elemsPerSlot_pos, Nat.div_eq_of_lt hpad,
    Nat.add_zero]

/-- The slots of the copy loop follow the slot of the stamp around the ring. -/
theorem ringSlot_stampPos (dac : DacRing) (grid : TxGrid) (stamp : BitVec 32) (round : Nat) :
    ringSlot dac (baseSlot dac grid stamp) round =
      (stampPos dac grid stamp / dac.elemsPerSlot + round) % dac.bufcnt := by
  rw [ringSlot_eq, stampPos_div]
  unfold baseSlot DacRing.bufcnt
  rw [Nat.and_two_pow_sub_one_eq_mod, Nat.mod_add_mod]

/-- In the slots it spans, a packet that is placed has its samples in the places from that of its
stamp on, and zeros elsewhere. -/
theorem atPos_place (packet : TxPacket) (htimed : packet.timeValid = true) (ring : RingBuf)
    {pos : Nat} (hpos : InSpan dac grid packet pos) :
    (place dac grid packet ring).atPos dac pos =
      if stampPos dac grid packet.phytimer ≤ pos ∧
          pos < stampPos dac grid packet.phytimer + dac.content packet then
        packet.samples (pos - stampPos dac grid packet.phytimer)
      else 0 := by
  obtain ⟨hfirst, hlast⟩ := hpos
  have helem := Nat.mod_lt pos dac.elemsPerSlot_pos
  obtain ⟨round, hround⟩ := Nat.exists_eq_add_of_le hfirst
  have hplace : pos = (grid.off packet.phytimer).toNat / grid.tps * dac.elemsPerSlot +
      (round * dac.elemsPerSlot + pos % dac.elemsPerSlot) := by
    have hsplit := Nat.div_add_mod' pos dac.elemsPerSlot
    rw [hround, stampPos_div, Nat.add_mul] at hsplit
    omega
  unfold RingBuf.atPos place
  rw [if_pos htimed, hround, ← ringSlot_stampPos,
    placeTimed_slot (by omega) (span_le_bufcnt dac grid packet) helem, stampPos_eq]
  unfold timedSlot
  by_cases hbefore : round * dac.elemsPerSlot + pos % dac.elemsPerSlot <
      padSamples dac grid packet.phytimer
  · rw [if_pos hbefore, if_neg (by omega)]
  · rw [if_neg hbefore]
    refine if_ctx_congr (by omega) (fun _ => ?_) fun _ => rfl
    congr 1
    omega

/-- A packet leaves the slots it does not span. -/
theorem place_of_not_inSpan (packet : TxPacket) (htimed : packet.timeValid = true)
    (ring : RingBuf) {slot : Nat}
    (hslot : ∀ pos, InSpan dac grid packet pos → slot ≠ pos / dac.elemsPerSlot % dac.bufcnt) :
    place dac grid packet ring slot = ring slot := by
  refine place_of_ne fun round hround => ?_
  rw [touched, if_pos htimed] at hround
  rw [ringSlot_stampPos]
  have hpos := hslot
    ((stampPos dac grid packet.phytimer / dac.elemsPerSlot + round) * dac.elemsPerSlot)
  rw [InSpan, Nat.mul_div_cancel _ dac.elemsPerSlot_pos] at hpos
  exact hpos ⟨Nat.le_add_right _ _, Nat.add_lt_add_left hround _⟩

/-- A content sample is in one of the slots the packet spans. -/
theorem inSpan_content (packet : TxPacket) {k : Nat} (hk : k < dac.content packet) :
    InSpan dac grid packet (stampPos dac grid packet.phytimer + k) := by
  have hround : (padSamples dac grid packet.phytimer + k) / dac.elemsPerSlot <
      span dac grid packet := round_lt_span hk
  have hdiv : (stampPos dac grid packet.phytimer + k) / dac.elemsPerSlot =
      stampPos dac grid packet.phytimer / dac.elemsPerSlot +
        (padSamples dac grid packet.phytimer + k) / dac.elemsPerSlot := by
    rw [stampPos_div, stampPos_eq, Nat.add_assoc, Nat.mul_comm,
      Nat.mul_add_div dac.elemsPerSlot_pos]
  unfold InSpan
  rw [hdiv]
  exact ⟨Nat.le_add_right _ _, Nat.add_lt_add_left hround _⟩

/-- Placing a `TIME_VALID` packet puts its content samples, decoded from the bytes of either format,
into the places of the ring from that of its stamp on, and zeros into every other place of the slots
it spans; these are at most one more than it has, and the others stay as they are. -/
theorem timed_placement (dac : DacRing) (grid : TxGrid) (buf : TimedBuf)
    (stage : Nat → DacSample) (ring : RingBuf) :
    (∀ k < dac.content (buf.packet dac stage),
      (place dac grid (buf.packet dac stage) ring).atPos dac
          (stampPos dac grid buf.phytimer + k) = buf.sample k) ∧
    (∀ pos, InSpan dac grid (buf.packet dac stage) pos →
      ¬ (stampPos dac grid buf.phytimer ≤ pos ∧
          pos < stampPos dac grid buf.phytimer + dac.content (buf.packet dac stage)) →
        (place dac grid (buf.packet dac stage) ring).atPos dac pos = 0) ∧
    span dac grid (buf.packet dac stage) ≤ dac.lbMulti (buf.packet dac stage) + 1 ∧
    ∀ slot, (∀ pos, InSpan dac grid (buf.packet dac stage) pos →
        slot ≠ pos / dac.elemsPerSlot % dac.bufcnt) →
      place dac grid (buf.packet dac stage) ring slot = ring slot := by
  have hphytimer : (buf.packet dac stage).phytimer = buf.phytimer := rfl
  rw [← hphytimer]
  refine ⟨fun k hk => ?_, fun pos hpos hout => ?_, ?_, fun slot hslot => ?_⟩
  · rw [atPos_place _ rfl ring (inSpan_content _ hk), if_pos (by omega), Nat.add_sub_cancel_left,
      buf.packet_samples stage hk]
  · rw [atPos_place _ rfl ring hpos, if_neg hout]
  · rw [span_eq]
    split <;> omega
  · exact place_of_not_inSpan _ rfl ring hslot

/-- Two packed slots half a slot in, across the end of the ring. -/
def sampleTimedBuf : TimedBuf where
  posValid := false
  eob := false
  phytimer := 2097088
  usbCc := 0
  multi := 2
  fmt := .packed12
  payload := fun offset => BitVec.ofNat 8 (offset + 1)

/-- The last slot of the ring, slot 0 and slot 1 hold the packet between two zeros. -/
example :
    (List.range 6).map ((place sampleDac sampleGrid
      (sampleTimedBuf.packet sampleDac fun _ => 0) fun _ _ => 7).atPos sampleDac ∘
        (2 * 16383 + ·)) =
      [0, sampleTimedBuf.sample 0, sampleTimedBuf.sample 1, sampleTimedBuf.sample 2,
        sampleTimedBuf.sample 3, 0] := by
  decide

end RfnmDriver.Tx
