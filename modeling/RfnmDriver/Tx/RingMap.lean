import RfnmDriver.Tx.Placement

/-!
# The ring as a map of the ticks

A lap of the ring divides the 2^32 ticks of a stamp, so the slot of a stamp is the ring place of the
tick it means (`baseSlot_eq`). The judge keeps every packet it accepts within half a lap of the
clock, so two packets meet in a slot of the ring only where they meet in a slot of the grid.
-/

namespace RfnmDriver.Tx

open WrapClock

variable {dac : DacRing} {grid : TxGrid} {margin stamp : BitVec 32} {now64 before : Nat}
  {packet earlier later : TxPacket} {ring : RingBuf} {base round count : Nat} {time : ℤ}

/-! ## The grid -/

/-- A slot is a power of two of ticks. -/
theorem TxGrid.tps_eq (grid : TxGrid) : grid.tps = 2 ^ (7 + grid.rShift) := by
  unfold tps
  rw [Nat.shiftLeft_eq, pow_add]
  norm_num

/-- A slot takes time. -/
theorem TxGrid.tps_pos (grid : TxGrid) : 0 < grid.tps := by
  rw [grid.tps_eq]
  exact Nat.two_pow_pos _

/-- The ring has slots. -/
theorem DacRing.bufcnt_pos (dac : DacRing) : 0 < dac.bufcnt :=
  Nat.two_pow_pos _

/-- A lap of the ring divides the range of a stamp. -/
theorem lap_dvd (dac : DacRing) (grid : TxGrid) : grid.tps * dac.bufcnt ∣ 2 ^ 32 := by
  have hshift := grid.rShift_le
  have hlog := dac.bufcntLog_le
  rw [grid.tps_eq, DacRing.bufcnt, ← pow_add]
  exact pow_dvd_pow 2 (by omega)

/-- A copy loop goes around the ring. -/
theorem ringSlot_eq (dac : DacRing) (base round : Nat) :
    ringSlot dac base round = (base + round) % dac.bufcnt :=
  Nat.and_two_pow_sub_one_eq_mod _ _

/-- The offset of a stamp is that of the tick it means. -/
theorem TxGrid.off_emod (grid : TxGrid) (h : time % 2 ^ 32 = stamp.toNat) :
    ((grid.off stamp).toNat : ℤ) % (2 ^ 32 : ℕ) = (time - grid.t0.toNat) % (2 ^ 32 : ℕ) := by
  unfold off
  rw [BitVec.toNat_sub]
  push_cast
  omega

/-- The slot of a stamp is the place of the tick it means. -/
theorem baseSlot_eq (h : time % 2 ^ 32 = stamp.toNat) :
    baseSlot dac grid stamp = lapSlot dac.bufcnt (slot grid.t0.toNat grid.tps time) := by
  rw [← lapSlot_of_reading grid.tps_pos (lap_dvd dac grid) (grid.off_emod h)]
  unfold baseSlot lapSlot DacRing.bufcnt
  rw [Nat.and_two_pow_sub_one_eq_mod]
  norm_cast

/-! ## The clock -/

/-- A stamp is what the low half of its tick says. -/
theorem stamp64_emod (now64 : Nat) (stamp : BitVec 32) :
    stamp64 now64 stamp % 2 ^ 32 = stamp.toNat := by
  have hlt := stamp.isLt
  have hmod := nearest_emod (2 ^ 31) now64 (now64 / 2 ^ 32 * 2 ^ 32 + stamp.toNat : Nat)
  unfold stamp64
  omega

/-- An accepted stamp is not behind the clock, and at most half a lap ahead of it. -/
theorem lead_of_accepted (h : judge dac grid margin now64 stamp = .accepted) :
    0 ≤ lead now64 stamp ∧ lead now64 stamp ≤ dac.maxLead grid := by
  unfold judge at h
  split at h
  next => cases h
  next hlate =>
    split at h
    next => split at h <;> cases h
    next hearly =>
      have hmin : (0 : ℤ) ≤ minLeadTicks margin grid := Int.natCast_nonneg _
      constructor <;> omega

/-- The slot a round of the copy loop fills is the place of its slot in the grid. -/
theorem ringSlot_baseSlot (dac : DacRing) (grid : TxGrid) (now64 : Nat) (packet : TxPacket)
    (round : Nat) : ringSlot dac (baseSlot dac grid packet.phytimer) round =
      lapSlot dac.bufcnt (airSlot grid now64 packet round) := by
  unfold airSlot
  rw [ringSlot_eq, baseSlot_eq (stamp64_emod now64 packet.phytimer),
    lapSlot_add dac.bufcnt_pos]

/-! ## Packet lengths -/

/-- A packet has between one slot and the most there are. -/
theorem DacRing.lbMulti_bounds (dac : DacRing) (packet : TxPacket) :
    0 < dac.lbMulti packet ∧ dac.lbMulti packet ≤ dac.multiMax := by
  have hpos := dac.multiMax_pos
  unfold lbMulti
  split <;> omega

/-- The packet starts within its first slot. -/
theorem padSamples_lt (dac : DacRing) (grid : TxGrid) (stamp : BitVec 32) :
    padSamples dac grid stamp < dac.elemsPerSlot := by
  have hmod := Nat.mod_lt (grid.off stamp).toNat grid.tps_pos
  unfold padSamples
  rw [Nat.div_lt_iff_lt_mul grid.tps_pos, Nat.mul_comm dac.elemsPerSlot]
  exact Nat.mul_lt_mul_of_pos_right hmod dac.elemsPerSlot_pos

/-- A packet that starts within a slot touches one slot more than it has. -/
theorem span_eq (dac : DacRing) (grid : TxGrid) (packet : TxPacket) :
    span dac grid packet =
      dac.lbMulti packet + if padSamples dac grid packet.phytimer = 0 then 0 else 1 := by
  have hpad := padSamples_lt dac grid packet.phytimer
  have hpos := dac.elemsPerSlot_pos
  unfold span DacRing.content
  split
  next hzero =>
    rw [hzero, Nat.div_eq_iff hpos, Nat.add_zero]
    constructor <;> omega
  next hne =>
    rw [Nat.div_eq_iff hpos, Nat.add_mul]
    constructor <;> omega

/-- A packet touches at most one slot more than the longest has. -/
theorem touched_le (dac : DacRing) (grid : TxGrid) (packet : TxPacket) :
    touched dac grid packet ≤ dac.multiMax + 1 := by
  have hbounds := dac.lbMulti_bounds packet
  unfold touched
  rw [span_eq]
  split
  · split <;> omega
  · omega

/-! ## What a packet writes -/

/-- Writing a slot leaves the others. -/
theorem RingBuf.write_of_ne {slot other : Nat} (ring : RingBuf) (buf : Nat → DacSample)
    (h : other ≠ slot) : ring.write slot buf other = ring other :=
  Function.update_of_ne h _ _

/-- Reading the slot that was written. -/
theorem RingBuf.write_self (ring : RingBuf) (slot : Nat) (buf : Nat → DacSample) :
    ring.write slot buf slot = buf :=
  Function.update_self (β := fun _ => Nat → DacSample) slot buf ring

/-- The copy loop of a `POS_VALID` packet leaves the slots it does not come to. -/
theorem placePos_of_ne {other : Nat}
    (h : ∀ round < count, other ≠ ringSlot dac (baseSlot dac grid packet.phytimer) round) :
    placePos dac grid packet ring count other = ring other := by
  induction count with
  | zero => rfl
  | succ count ih =>
      show RingBuf.write _ _ _ other = _
      rw [RingBuf.write_of_ne _ _ (h count (Nat.lt_succ_self count))]
      exact ih fun round hround => h round (Nat.lt_succ_of_lt hround)

/-- The copy loop of a `TIME_VALID` packet leaves the slots it does not come to. -/
theorem placeTimed_of_ne {other : Nat}
    (h : ∀ round < count, other ≠ ringSlot dac (baseSlot dac grid packet.phytimer) round) :
    (placeTimed dac grid packet ring count).1 other = ring other := by
  induction count with
  | zero => rfl
  | succ count ih =>
      show RingBuf.write _ _ _ other = _
      rw [RingBuf.write_of_ne _ _ (h count (Nat.lt_succ_self count))]
      exact ih fun round hround => h round (Nat.lt_succ_of_lt hround)

/-- A packet leaves the slots that are not its own. -/
theorem place_of_ne {other : Nat} (h : ∀ round < touched dac grid packet,
    other ≠ ringSlot dac (baseSlot dac grid packet.phytimer) round) :
    place dac grid packet ring other = ring other := by
  unfold touched at h
  unfold place
  split
  next htimed =>
    rw [if_pos htimed] at h
    exact placeTimed_of_ne h
  next htimed =>
    rw [if_neg htimed] at h
    split
    · exact placePos_of_ne h
    · rfl

/-! ## The ring map -/

/-- A slot of the grid has not been on air as long as the clock is in it or before it. -/
theorem lt_airEnd_iff {number : ℤ} :
    time < airEnd grid number ↔ slot grid.t0.toNat grid.tps time ≤ number := by
  have htps : (0 : ℤ) < grid.tps := by exact_mod_cast grid.tps_pos
  unfold airEnd slot
  rw [← Int.lt_add_one_iff, Int.ediv_lt_iff_lt_mul htps]
  constructor <;> intro h <;> linarith

/-- A slot of an accepted packet that has not been on air is between the clock and less than a lap
from it. -/
theorem airSlot_bounds (hbefore : before ≤ now64)
    (haccepted : judge dac grid margin before packet.phytimer = .accepted)
    (hround : round < touched dac grid packet)
    (hair : now64 < airEnd grid (airSlot grid before packet round)) :
    slot grid.t0.toNat grid.tps now64 ≤ airSlot grid before packet round ∧
      airSlot grid before packet round ≤
        slot grid.t0.toNat grid.tps now64 + (dac.bufcnt / 2 + dac.multiMax : Nat) := by
  have htouched := touched_le dac grid packet
  obtain ⟨-, hlead⟩ := lead_of_accepted haccepted
  have hcast : ((before : Nat) : ℤ) ≤ now64 := by exact_mod_cast hbefore
  have htime : stamp64 before packet.phytimer ≤
      now64 + (dac.bufcnt / 2 : Nat) * (grid.tps : ℤ) := by
    unfold lead DacRing.maxLead at hlead
    push_cast at hlead ⊢
    omega
  have hslot := slot_mono grid.tps_pos grid.t0.toNat htime
  rw [slot_add grid.tps_pos] at hslot
  refine ⟨lt_airEnd_iff.mp hair, ?_⟩
  have hadd := add_le_add hslot (show (round : ℤ) ≤ dac.multiMax by omega)
  rw [add_assoc, ← Nat.cast_add] at hadd
  exact hadd

/-- No slot of a packet has been on air when it is accepted. -/
theorem lt_airEnd_of_accepted (haccepted : judge dac grid margin now64 packet.phytimer = .accepted)
    (round : Nat) : now64 < airEnd grid (airSlot grid now64 packet round) := by
  obtain ⟨hlead, -⟩ := lead_of_accepted haccepted
  have htime : (now64 : ℤ) ≤ stamp64 now64 packet.phytimer := sub_nonneg.mp hlead
  have hslot := slot_mono grid.tps_pos grid.t0.toNat htime
  rw [lt_airEnd_iff]
  exact hslot.trans (le_add_of_nonneg_right (Int.natCast_nonneg round))

/-- Two accepted packets meet in a slot of the ring only where they meet in a slot of the grid. -/
theorem airSlot_eq_of_ringSlot_eq {other : Nat} (hbefore : before ≤ now64)
    (hearlier : judge dac grid margin before earlier.phytimer = .accepted)
    (hlater : judge dac grid margin now64 later.phytimer = .accepted)
    (hround : round < touched dac grid earlier) (hother : other < touched dac grid later)
    (hair : now64 < airEnd grid (airSlot grid before earlier round))
    (h : ringSlot dac (baseSlot dac grid earlier.phytimer) round =
      ringSlot dac (baseSlot dac grid later.phytimer) other) :
    airSlot grid before earlier round = airSlot grid now64 later other := by
  have hmulti : 2 * dac.multiMax < dac.bufcnt := dac.multiMax_lt
  have hlap : ((dac.bufcnt / 2 + dac.multiMax : Nat) : ℤ) < dac.bufcnt := by
    exact_mod_cast (show dac.bufcnt / 2 + dac.multiMax < dac.bufcnt by omega)
  have hlaterAir := lt_airEnd_of_accepted hlater other
  obtain ⟨hlow, hhigh⟩ := airSlot_bounds hbefore hearlier hround hair
  obtain ⟨hlow', hhigh'⟩ := airSlot_bounds (Nat.le_refl now64) hlater hother hlaterAir
  rw [ringSlot_baseSlot dac grid before, ringSlot_baseSlot dac grid now64] at h
  refine eq_of_lapSlot_eq h ?_
  rw [abs_lt]
  constructor <;> linarith

/-- Stamps that follow one another are placed in slots that follow one another around the ring,
and a packet changes a slot of an earlier one that has not been on air only where it has a slot of
its own at the same ticks. -/
theorem placement_faithful (dac : DacRing) (grid : TxGrid) (margin : BitVec 32) :
    (∀ first second : TxPacket,
      second.phytimer = first.phytimer + BitVec.ofNat 32 (dac.lbMulti first * grid.tps) →
        baseSlot dac grid second.phytimer =
          (ringSlot dac (baseSlot dac grid first.phytimer) (dac.lbMulti first - 1) + 1) %
            dac.bufcnt) ∧
    ∀ (earlier later : TxPacket) (before now64 : Nat) (ring : RingBuf), before ≤ now64 →
      judge dac grid margin before earlier.phytimer = .accepted →
      judge dac grid margin now64 later.phytimer = .accepted →
      ∀ round < touched dac grid earlier,
        now64 < airEnd grid (airSlot grid before earlier round) →
        (∀ other < touched dac grid later,
          airSlot grid now64 later other ≠ airSlot grid before earlier round) →
        place dac grid later ring (ringSlot dac (baseSlot dac grid earlier.phytimer) round) =
          ring (ringSlot dac (baseSlot dac grid earlier.phytimer) round) := by
  constructor
  · intro first second hnext
    have hbounds := dac.lbMulti_bounds first
    have htime : ((first.phytimer.toNat : ℤ) + dac.lbMulti first * grid.tps) % 2 ^ 32 =
        second.phytimer.toNat := by
      rw [hnext, BitVec.toNat_add, BitVec.toNat_ofNat, Nat.add_mod_mod]
      norm_cast
    have hfirst : (first.phytimer.toNat : ℤ) % 2 ^ 32 = first.phytimer.toNat := by
      have hlt := first.phytimer.isLt
      omega
    rw [baseSlot_eq htime, slot_add grid.tps_pos, lapSlot_add dac.bufcnt_pos,
      ← baseSlot_eq hfirst, ringSlot_eq, Nat.mod_add_mod]
    congr 1
    omega
  · intro earlier later before now64 ring hbefore hearlier hlater round hround hair hdistinct
    -- two packets meet in a slot only where they meet in the air
    refine place_of_ne fun other hother hmeet => ?_
    exact hdistinct other hother
      (airSlot_eq_of_ringSlot_eq hbefore hearlier hlater hround hother hair hmeet).symm

/-- A ring of 16384 slots of two samples, and packets of up to eight slots. -/
def sampleDac : DacRing where
  bufcntLog := 14
  elemsPerSlot := 2
  multiMax := 8
  bufcntLog_le := by decide
  elemsPerSlot_pos := Nat.two_pos
  multiMax_pos := by decide
  multiMax_lt := by decide

/-- The fastest grid, with its origin at tick 0. -/
def sampleGrid : TxGrid where
  t0 := 0
  rShift := 0
  rShift_le := by decide

/-- Two slots of the same sample. -/
def samplePos (stamp : BitVec 32) (sample : DacSample) : TxPacket where
  timeValid := false
  posValid := true
  eob := false
  phytimer := stamp
  usbCc := 0
  multi := 2
  samples := fun _ => sample

/-- Two packets in a row, across the wrap of the stamps: the slots follow one another, and the
second packet leaves the last slot of the first. -/
theorem placement_faithful_across_wrap :
    baseSlot sampleDac sampleGrid 0 =
        (ringSlot sampleDac (baseSlot sampleDac sampleGrid 4294967040) 1 + 1) % sampleDac.bufcnt ∧
      ∀ ring, place sampleDac sampleGrid (samplePos 0 2) ring
          (ringSlot sampleDac (baseSlot sampleDac sampleGrid 4294967040) 1) =
        ring (ringSlot sampleDac (baseSlot sampleDac sampleGrid 4294967040) 1) :=
  ⟨(placement_faithful sampleDac sampleGrid 48).1 (samplePos 4294967040 1) (samplePos 0 2)
      (by decide),
    fun ring => (placement_faithful sampleDac sampleGrid 48).2 (samplePos 4294967040 1)
      (samplePos 0 2) 4294950912 4294950912 ring (Nat.le_refl _) (by decide) (by decide) 1
      (by decide) (by decide) (by decide)⟩

/-- A packet with the stamp of one that waits for its air time takes its place. -/
theorem same_stamp_overwrites :
    judge sampleDac sampleGrid 48 0 (samplePos 8192 1).phytimer = .accepted ∧
      judge sampleDac sampleGrid 48 0 (samplePos 8192 2).phytimer = .accepted ∧
      ((0 : Nat) : ℤ) < airEnd sampleGrid (airSlot sampleGrid 0 (samplePos 8192 1) 0) ∧
      ∃ ring slot, slot = ringSlot sampleDac (baseSlot sampleDac sampleGrid 8192) 0 ∧
        ring = place sampleDac sampleGrid (samplePos 8192 1) (fun _ _ => 0) ∧
        ring slot 0 = 1 ∧ place sampleDac sampleGrid (samplePos 8192 2) ring slot 0 = 2 := by
  refine ⟨by decide, by decide, by decide, _, _, rfl, rfl, ?_, ?_⟩
  · rfl
  · rfl

end RfnmDriver.Tx
