import Mathlib.Algebra.GroupWithZero.Nat
import Mathlib.Logic.Function.Basic

/-!
# Sub-buffers and packets

An ADC slot is a table of sub-buffer descriptors and the samples the DMA wrote behind it. A packet
is a header and a payload in one slot of the USB or of the local ring. A sample is what identifies
it in time: the tick it was captured at, and the rate step it was captured with.
-/

namespace RfnmDriver.Rx

/-- A sample, by its capture tick and its rate step in half ticks. -/
structure Sample where
  tick : BitVec 32
  rate : Nat
  deriving DecidableEq, Repr

/-- The ticks that pass over this many samples: `(count << rx_r_shift) >> 1` for the rate step
`2 ^ rx_r_shift`. -/
def elapsed (rate count : Nat) : BitVec 32 :=
  BitVec.ofNat 32 (count * rate / 2)

/-- Over an even number of samples the halved step does not round, so ticks add up. -/
theorem elapsed_add (rate : Nat) {first : Nat} (heven : first % 2 = 0) (second : Nat) :
    elapsed rate (first + second) = elapsed rate first + elapsed rate second := by
  obtain ⟨half, rfl⟩ : ∃ half, first = 2 * half := ⟨first / 2, by omega⟩
  have hfirst : 2 * half * rate / 2 = half * rate := by
    rw [Nat.mul_assoc]
    omega
  have hboth : (2 * half + second) * rate / 2 = half * rate + second * rate / 2 := by
    rw [Nat.add_mul, Nat.mul_assoc]
    omega
  simp only [elapsed, hfirst, hboth, BitVec.ofNat_add]

/-! ## Sub-buffers -/

/-- One entry of `bufdesc`, and the rate step the firmware captured the samples with. -/
structure SubBuffer where
  /-- The packed word: `[7:0]` the lane, `[8]` DISCONT, `[23:16]` the epoch. -/
  adcId : BitVec 32
  /-- Its number of samples. -/
  size : Nat
  /-- The tick of its first sample. -/
  phytimer : BitVec 32
  rate : Nat
  deriving DecidableEq, Repr

/-- `RFNM_RX_SUBDESC_ID`. -/
def SubBuffer.id (sub : SubBuffer) : Nat :=
  (sub.adcId.extractLsb' 0 8).toNat

/-- `RFNM_RX_SUBDESC_DISCONT`. -/
def SubBuffer.discont (sub : SubBuffer) : Bool :=
  sub.adcId.getLsbD 8

/-- `RFNM_RX_SUBDESC_EPOCH`. -/
def SubBuffer.epoch (sub : SubBuffer) : BitVec 8 :=
  sub.adcId.extractLsb' 16 8

/-- The header checks of `rfnm_handler_in`: the lane of a sub-buffer that passes them. -/
def SubBuffer.lane? (sub : SubBuffer) : Option (Fin 4) :=
  if h : sub.id < 4 then
    if sub.adcId &&& ~~~0x00FF01FF#32 = 0#32 ∧ sub.size % 64 = 0 ∧ sub.size ≤ 256 then
      some ⟨sub.id, h⟩
    else none
  else none

/-- A sub-buffer that passes the checks has a multiple of 64 samples, at most 256. -/
theorem SubBuffer.size_of_lane {sub : SubBuffer} {lane : Fin 4} (h : sub.lane? = some lane) :
    sub.size % 64 = 0 ∧ sub.size ≤ 256 := by
  unfold SubBuffer.lane? at h
  split at h
  · split at h
    · next hchecks => exact hchecks.2
    · cases h
  · cases h

/-- The sample the firmware captured at this position of the sub-buffer. -/
def SubBuffer.sample (sub : SubBuffer) (position : Nat) : Sample :=
  ⟨sub.phytimer + elapsed sub.rate position, sub.rate⟩

/-- The tick right after its last sample. -/
def SubBuffer.endTick (sub : SubBuffer) : BitVec 32 :=
  sub.phytimer + elapsed sub.rate sub.size

/-- Without DISCONT and in the same epoch, a sub-buffer starts where the one before it ended and
keeps its rate. -/
def SubBuffer.Continues (sub before : SubBuffer) : Prop :=
  sub.discont = false → sub.epoch = before.epoch →
    sub.phytimer = before.endTick ∧ sub.rate = before.rate

instance (sub before : SubBuffer) : Decidable (sub.Continues before) :=
  inferInstanceAs (Decidable (_ → _ → _))

/-- One entry of the LA ring: its descriptors, and the samples as unpacked into
`tmp_buff_uncompress`. -/
structure Slot where
  subs : List SubBuffer
  samples : Nat → Sample

/-- The position of a sub-buffer's first sample: the firmware writes them one after the other. -/
def Slot.start (slot : Slot) (index : Nat) : Nat :=
  ((slot.subs.take index).map SubBuffer.size).sum

/-- The next sub-buffer starts behind this one. -/
theorem Slot.start_succ {slot : Slot} {index : Nat} {sub : SubBuffer}
    (hsub : slot.subs[index]? = some sub) :
    slot.start (index + 1) = slot.start index + sub.size := by
  simp [Slot.start, List.take_add_one, hsub]

/-- The samples of every sub-buffer are where the firmware writes them. -/
def Slot.Written (slot : Slot) : Prop :=
  ∀ index < slot.subs.length, ∀ sub ∈ slot.subs[index]?, ∀ position < sub.size,
    slot.samples (slot.start index + position) = sub.sample position

instance (slot : Slot) : Decidable slot.Written :=
  have (index : Nat) : Decidable (∀ sub ∈ slot.subs[index]?, ∀ position < sub.size,
      slot.samples (slot.start index + position) = sub.sample position) :=
    Option.decidableForallMem _
  inferInstanceAs (Decidable (∀ index < slot.subs.length, _))

/-! ## Packets -/

/-- A ring slot: the header fields of `rfnm_rx_usb_buf` (or of the local buffer's `p`), with
`rx_flags` unpacked, and the payload. -/
structure Packet where
  adcId : Fin 4
  phytimer : BitVec 32
  discont : Bool
  epoch : BitVec 8
  elemCnt : Nat
  usbCc : Nat
  payload : Nat → Sample

/-- The first `count` samples of the payload were captured one after the other from the stamp
on. -/
def Packet.ContinuousTo (packet : Packet) (rate count : Nat) : Prop :=
  ∀ k < count, packet.payload k = ⟨packet.phytimer + elapsed rate k, rate⟩

/-- There is a rate step with which sample `k` of the payload was captured `k` steps after the
stamp. -/
def Packet.Continuous (packet : Packet) : Prop :=
  ∃ rate, packet.ContinuousTo rate packet.elemCnt

/-- The rate step is that of the first sample. -/
theorem Packet.continuous_iff {packet : Packet} :
    packet.Continuous ↔ packet.ContinuousTo (packet.payload 0).rate packet.elemCnt := by
  constructor
  · intro ⟨rate, hcontinuous⟩ k hk
    have hfirst := hcontinuous 0 (Nat.zero_lt_of_lt hk)
    rw [hcontinuous k hk, hfirst]
  · intro hcontinuous
    exact ⟨_, hcontinuous⟩

instance (packet : Packet) (rate count : Nat) : Decidable (packet.ContinuousTo rate count) :=
  inferInstanceAs (Decidable (∀ k < count, _))

instance (packet : Packet) : Decidable packet.Continuous :=
  decidable_of_iff' _ Packet.continuous_iff

/-- `memcpy` of `count` samples of `source`, from `offset` on, to a payload position. -/
def Packet.copy (packet : Packet) (source : Nat → Sample) (offset position count : Nat) :
    Packet :=
  { packet with
    payload := fun k =>
      if position ≤ k ∧ k < position + count then source (offset + (k - position))
      else packet.payload k }

/-- The header written with the first sub-buffer of a packet. -/
def Packet.birth (packet : Packet) (lane : Fin 4) (sub : SubBuffer) (jumpDiscont : Bool) :
    Packet :=
  { packet with
    adcId := lane
    phytimer := sub.phytimer
    discont := sub.discont || jumpDiscont
    epoch := sub.epoch }

/-- A sub-buffer copied to the start of a payload under its own stamp. -/
theorem Packet.continuousTo_birth {packet : Packet} {lane : Fin 4} {sub : SubBuffer}
    {jump : Bool} {source : Nat → Sample} {offset : Nat}
    (hsource : ∀ position < sub.size, source (offset + position) = sub.sample position) :
    ((packet.copy source offset 0 sub.size).birth lane sub jump).ContinuousTo sub.rate
      sub.size := by
  intro k hk
  have hin : 0 ≤ k ∧ k < 0 + sub.size := ⟨Nat.zero_le k, by omega⟩
  simp only [Packet.birth, Packet.copy, if_pos hin, Nat.sub_zero]
  exact hsource k hk

/-- A sub-buffer copied behind a continuous payload that ends where it starts. -/
theorem Packet.continuousTo_copy {packet : Packet} {sub : SubBuffer} {source : Nat → Sample}
    {offset count : Nat} (hpacket : packet.ContinuousTo sub.rate count)
    (heven : count % 2 = 0) (hend : sub.phytimer = packet.phytimer + elapsed sub.rate count)
    (hsource : ∀ position < sub.size, source (offset + position) = sub.sample position) :
    (packet.copy source offset count sub.size).ContinuousTo sub.rate (count + sub.size) := by
  intro k hk
  by_cases hold : k < count
  · have hout : ¬(count ≤ k ∧ k < count + sub.size) := by omega
    simp only [Packet.copy, if_neg hout]
    exact hpacket k hold
  · have hin : count ≤ k ∧ k < count + sub.size := by omega
    have hticks : elapsed sub.rate k = elapsed sub.rate count + elapsed sub.rate (k - count) := by
      rw [← elapsed_add sub.rate heven, Nat.add_sub_cancel' hin.1]
    simp only [Packet.copy, if_pos hin]
    rw [hsource (k - count) (by omega), SubBuffer.sample, hend, hticks, BitVec.add_assoc]

end RfnmDriver.Rx
