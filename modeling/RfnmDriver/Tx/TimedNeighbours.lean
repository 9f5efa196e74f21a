import Mathlib.Tactic.LinearCombination
import RfnmDriver.Tx.RingMap

/-!
# Timed packets next to each other

A `TIME_VALID` packet fills whole slots: zeros before its first sample and behind its last one.
Where a packet ends within a slot and another starts in the same slot, whichever is placed second
erases samples of the first, although their ticks are apart. Everywhere else both packets stay as
they are: `both_kept_iff`.
-/

namespace RfnmDriver.Tx

open WrapClock

variable {dac : DacRing} {grid : TxGrid} {margin stamp : BitVec 32} {now64 before : Nat}
  {packet first second : TxPacket} {ring : RingBuf} {round elem count : Nat}

/-! ## Samples by tick -/

/-- The sample a tick falls in, counted from the origin of the grid without wrap. -/
def sampleIndex (dac : DacRing) (grid : TxGrid) (tick : ℤ) : ℤ :=
  (tick - grid.t0.toNat) * dac.elemsPerSlot / grid.tps

/-- What the ring has in the place of a sample. -/
def RingBuf.sampleAt (ring : RingBuf) (dac : DacRing) (index : ℤ) : DacSample :=
  ring (lapSlot dac.bufcnt (index / dac.elemsPerSlot)) (index % dac.elemsPerSlot).toNat

/-- The tick a packet starts at. -/
def airStart (now64 : Nat) (packet : TxPacket) : ℤ :=
  stamp64 now64 packet.phytimer

/-- The tick a packet has ended at. -/
def airStop (dac : DacRing) (grid : TxGrid) (now64 : Nat) (packet : TxPacket) : ℤ :=
  airStart now64 packet + dac.lbMulti packet * grid.tps

/-- The ring has every sample of the packet in the place of its tick. -/
def Kept (dac : DacRing) (grid : TxGrid) (now64 : Nat) (packet : TxPacket) (ring : RingBuf) :
    Prop :=
  ∀ k < dac.content packet,
    ring.sampleAt dac (sampleIndex dac grid (airStart now64 packet) + k) = packet.samples k

/-- A packet starts at least a sample into a slot, so that it ends within a slot, and the other
starts in the slot where it ends. -/
def EndsInSlotOf (dac : DacRing) (grid : TxGrid) (before : Nat) (first : TxPacket)
    (now64 : Nat) (second : TxPacket) : Prop :=
  (grid.tps : ℤ) ≤ (airStart before first - grid.t0.toNat) % grid.tps * dac.elemsPerSlot ∧
    slot grid.t0.toNat grid.tps (airStart now64 second) =
      slot grid.t0.toNat grid.tps (airStop dac grid before first)

/-- The packet with other samples. -/
def TxPacket.withSamples (packet : TxPacket) (samples : Nat → DacSample) : TxPacket :=
  { packet with samples := samples }

/-- How far into its slot a packet starts. -/
theorem off_emod_tps (grid : TxGrid) (now64 : Nat) (packet : TxPacket) :
    (((grid.off packet.phytimer).toNat % grid.tps : Nat) : ℤ) =
      (airStart now64 packet - grid.t0.toNat) % grid.tps := by
  have hmod := grid.off_emod (stamp64_emod now64 packet.phytimer)
  have htps : (grid.tps : ℤ) ∣ (2 ^ 32 : Nat) := by
    rw [grid.tps_eq]
    exact_mod_cast pow_dvd_pow 2 (show 7 + grid.rShift ≤ 32 by have := grid.rShift_le; omega)
  exact Int.ModEq.of_dvd htps hmod

/-- The sample of a tick is in the slot of the tick. -/
theorem sampleIndex_eq (dac : DacRing) (grid : TxGrid) (now64 : Nat) (packet : TxPacket) :
    sampleIndex dac grid (airStart now64 packet) =
      padSamples dac grid packet.phytimer + airSlot grid now64 packet 0 * dac.elemsPerSlot := by
  have htps : (grid.tps : ℤ) ≠ 0 := by exact_mod_cast grid.tps_pos.ne'
  have hsplit := Int.emod_add_mul_ediv (airStart now64 packet - grid.t0.toNat) grid.tps
  have hpad : (padSamples dac grid packet.phytimer : ℤ) =
      (airStart now64 packet - grid.t0.toNat) % grid.tps * dac.elemsPerSlot / grid.tps := by
    unfold padSamples
    rw [← off_emod_tps]
    norm_cast
  unfold sampleIndex airSlot slot
  rw [hpad, Nat.cast_zero, add_zero, ← airStart]
  calc (airStart now64 packet - grid.t0.toNat) * dac.elemsPerSlot / grid.tps
      = ((airStart now64 packet - grid.t0.toNat) % grid.tps * dac.elemsPerSlot +
          (airStart now64 packet - grid.t0.toNat) / grid.tps * dac.elemsPerSlot * grid.tps) /
            grid.tps := by
        congr 1
        linear_combination (-(dac.elemsPerSlot : ℤ)) * hsplit
    _ = _ := Int.add_mul_ediv_right _ _ htps

/-- The place of a sample is where the copy loop is when it comes to it. -/
theorem sampleAt_sampleIndex (ring : RingBuf) (now64 : Nat) (packet : TxPacket) (k : Nat) :
    ring.sampleAt dac (sampleIndex dac grid (airStart now64 packet) + k) =
      ring (ringSlot dac (baseSlot dac grid packet.phytimer)
          ((padSamples dac grid packet.phytimer + k) / dac.elemsPerSlot))
        ((padSamples dac grid packet.phytimer + k) % dac.elemsPerSlot) := by
  have hne : (dac.elemsPerSlot : ℤ) ≠ 0 := by exact_mod_cast dac.elemsPerSlot_pos.ne'
  have hindex : sampleIndex dac grid (airStart now64 packet) + k =
      (padSamples dac grid packet.phytimer + k : Nat) +
        airSlot grid now64 packet 0 * dac.elemsPerSlot := by
    rw [sampleIndex_eq]
    push_cast
    ring
  have hslot : ((padSamples dac grid packet.phytimer + k : Nat) : ℤ) / dac.elemsPerSlot +
      airSlot grid now64 packet 0 = airSlot grid now64 packet
        ((padSamples dac grid packet.phytimer + k) / dac.elemsPerSlot) := by
    unfold airSlot
    push_cast
    ring
  unfold RingBuf.sampleAt
  rw [hindex, Int.add_mul_ediv_right _ _ hne, Int.add_mul_emod_self_right, hslot,
    ← ringSlot_baseSlot dac grid now64, ← Int.natCast_mod, Int.toNat_natCast]

/-! ## The copy loop -/

/-- What a round of the copy loop leaves in its slot. -/
def timedSlot (dac : DacRing) (grid : TxGrid) (packet : TxPacket) (round elem : Nat) : DacSample :=
  if round * dac.elemsPerSlot + elem < padSamples dac grid packet.phytimer then 0
  else if round * dac.elemsPerSlot + elem <
      padSamples dac grid packet.phytimer + dac.content packet then
    packet.samples (round * dac.elemsPerSlot + elem - padSamples dac grid packet.phytimer)
  else 0

/-- `done`, after the first rounds. -/
theorem placeTimed_done (dac : DacRing) (grid : TxGrid) (packet : TxPacket) (ring : RingBuf)
    (count : Nat) : (placeTimed dac grid packet ring count).2 =
      min (dac.content packet)
        (count * dac.elemsPerSlot - padSamples dac grid packet.phytimer) := by
  have hpad := padSamples_lt dac grid packet.phytimer
  induction count with
  | zero => simp [placeTimed]
  | succ round ih =>
      show (placeTimed dac grid packet ring round).2 +
          min (dac.elemsPerSlot - if round = 0 then padSamples dac grid packet.phytimer else 0)
            (dac.content packet - (placeTimed dac grid packet ring round).2) = _
      rw [ih]
      obtain rfl | hround := Nat.eq_zero_or_pos round
      · rw [if_pos rfl]
        omega
      · rw [if_neg hround.ne']
        have hge := Nat.le_mul_of_pos_left dac.elemsPerSlot hround
        rw [Nat.add_mul]
        omega

/-- A round of the copy loop writes its slot of the packet. -/
theorem placeTimed_self (dac : DacRing) (grid : TxGrid) (packet : TxPacket) (ring : RingBuf)
    (round : Nat) (helem : elem < dac.elemsPerSlot) :
    (placeTimed dac grid packet ring (round + 1)).1
        (ringSlot dac (baseSlot dac grid packet.phytimer) round) elem =
      timedSlot dac grid packet round elem := by
  have hpad := padSamples_lt dac grid packet.phytimer
  have hdone := placeTimed_done dac grid packet ring round
  unfold placeTimed
  dsimp only
  rw [RingBuf.write_self, hdone]
  unfold timedSlot
  obtain rfl | hround := Nat.eq_zero_or_pos round
  · rw [if_pos rfl, Nat.zero_mul, Nat.zero_add, Nat.zero_sub, Nat.min_zero, Nat.zero_add]
    split
    · rfl
    · exact if_congr (by omega) rfl rfl
  · have hge := Nat.le_mul_of_pos_left dac.elemsPerSlot hround
    have hpast : ¬ round * dac.elemsPerSlot + elem < padSamples dac grid packet.phytimer := by
      omega
    rw [if_neg hround.ne', if_neg (Nat.not_lt_zero elem), if_neg hpast]
    by_cases hin : round * dac.elemsPerSlot + elem <
        padSamples dac grid packet.phytimer + dac.content packet
    · rw [if_pos hin, if_pos (by omega)]
      congr 1
      omega
    · rw [if_neg hin, if_neg (by omega)]

/-- Less than a lap apart, the rounds of a copy loop fill different slots. -/
theorem ringSlot_inj {base other : Nat} (hround : round < dac.bufcnt) (hother : other < dac.bufcnt)
    (h : ringSlot dac base round = ringSlot dac base other) : round = other := by
  rw [ringSlot_eq, ringSlot_eq] at h
  exact Nat.ModEq.eq_of_lt_of_lt (Nat.ModEq.add_left_cancel' base h) hround hother

/-- A packet is shorter than the ring. -/
theorem span_le_bufcnt (dac : DacRing) (grid : TxGrid) (packet : TxPacket) :
    span dac grid packet ≤ dac.bufcnt := by
  have hbounds := dac.lbMulti_bounds packet
  have hmulti : 2 * dac.multiMax < dac.bufcnt := dac.multiMax_lt
  rw [span_eq]
  split <;> omega

/-- After the copy loop every slot of the packet is as its round left it. -/
theorem placeTimed_slot (hround : round < count) (hcount : count ≤ dac.bufcnt)
    (helem : elem < dac.elemsPerSlot) :
    (placeTimed dac grid packet ring count).1
        (ringSlot dac (baseSlot dac grid packet.phytimer) round) elem =
      timedSlot dac grid packet round elem := by
  induction count with
  | zero => exact absurd hround (Nat.not_lt_zero round)
  | succ count ih =>
      obtain hearlier | rfl := Nat.lt_succ_iff_lt_or_eq.mp hround
      · show RingBuf.write _ _ _ _ elem = _
        rw [RingBuf.write_of_ne]
        · exact ih hearlier (by omega)
        · intro hsame
          have heq := ringSlot_inj (by omega) (by omega) hsame
          omega
      · exact placeTimed_self dac grid packet ring round helem

/-- Every sample is in a slot of the packet. -/
theorem round_lt_span {k : Nat} (hk : k < dac.content packet) :
    (padSamples dac grid packet.phytimer + k) / dac.elemsPerSlot < span dac grid packet := by
  have hpos := dac.elemsPerSlot_pos
  have hle := Nat.div_mul_le_self (padSamples dac grid packet.phytimer + k) dac.elemsPerSlot
  unfold span
  rw [Nat.lt_iff_add_one_le, Nat.le_div_iff_mul_le hpos, Nat.add_mul]
  omega

/-- A timed packet that is placed last is there. -/
theorem kept_place (packet : TxPacket) (hpacket : packet.timeValid = true) (now64 : Nat)
    (ring : RingBuf) :
    Kept dac grid now64 packet (place dac grid packet ring) := by
  intro k hk
  have hpos := dac.elemsPerSlot_pos
  unfold place
  rw [if_pos hpacket, sampleAt_sampleIndex,
    placeTimed_slot (round_lt_span hk) (span_le_bufcnt dac grid packet) (Nat.mod_lt _ hpos)]
  unfold timedSlot
  rw [Nat.div_add_mod', if_neg (by omega), if_pos (by omega), Nat.add_sub_cancel_left]

/-! ## Slots of two packets -/

/-- A packet ends as many slots after its start as it has. -/
theorem slot_airStop (dac : DacRing) (grid : TxGrid) (now64 : Nat) (packet : TxPacket) :
    slot grid.t0.toNat grid.tps (airStop dac grid now64 packet) =
      airSlot grid now64 packet (dac.lbMulti packet) :=
  slot_add grid.tps_pos _ _ _

/-- A packet starts a sample into its slot or more when its tick does. -/
theorem padSamples_ne_zero_iff (now64 : Nat) : padSamples dac grid packet.phytimer ≠ 0 ↔
    (grid.tps : ℤ) ≤
      (airStart now64 packet - grid.t0.toNat) % grid.tps * dac.elemsPerSlot := by
  rw [← off_emod_tps, ← Nat.cast_mul, Nat.cast_le]
  unfold padSamples
  rw [Nat.ne_zero_iff_zero_lt, Nat.div_pos_iff]
  exact and_iff_right grid.tps_pos

/-- Of two packets in the same slot, the earlier is padded less. -/
theorem padSamples_le {other : Nat}
    (hslot : slot grid.t0.toNat grid.tps (airStart now64 second) =
      slot grid.t0.toNat grid.tps (airStart before first + other * grid.tps))
    (hle : airStart before first + other * grid.tps ≤ airStart now64 second) :
    padSamples dac grid first.phytimer ≤ padSamples dac grid second.phytimer := by
  have hfirst := Int.emod_add_mul_ediv (airStart before first - grid.t0.toNat) grid.tps
  have hsecond := Int.emod_add_mul_ediv (airStart now64 second - grid.t0.toNat) grid.tps
  rw [slot_add grid.tps_pos] at hslot
  unfold slot at hslot
  have hmod : (grid.off first.phytimer).toNat % grid.tps ≤
      (grid.off second.phytimer).toNat % grid.tps := by
    rw [← Int.ofNat_le, off_emod_tps grid before first, off_emod_tps grid now64 second]
    rw [hslot, mul_add] at hsecond
    linarith
  unfold padSamples
  exact Nat.div_le_div_right (Nat.mul_le_mul_right _ hmod)

/-- A packet that starts when another has ended, and not in the slot where it ended, has no slot
of it. -/
theorem airSlot_ne (hapart : airStop dac grid before first ≤ airStart now64 second)
    (hends : ¬ EndsInSlotOf dac grid before first now64 second)
    (hround : round < span dac grid first) (other : Nat) :
    airSlot grid before first round ≠ airSlot grid now64 second other := by
  have hmono := slot_mono grid.tps_pos grid.t0.toNat hapart
  have hstop := slot_airStop dac grid before first
  have hfirst : airSlot grid before first (dac.lbMulti first) =
      airSlot grid before first round + (dac.lbMulti first - round : ℤ) := by
    unfold airSlot
    ring
  have hsecond : airSlot grid now64 second other =
      slot grid.t0.toNat grid.tps (airStart now64 second) + other := rfl
  rw [span_eq] at hround
  unfold EndsInSlotOf at hends
  rw [← padSamples_ne_zero_iff] at hends
  split at hround
  next hzero => omega
  next hpad =>
    have hne : slot grid.t0.toNat grid.tps (airStart now64 second) ≠
        slot grid.t0.toNat grid.tps (airStop dac grid before first) :=
      fun hsame => hends ⟨hpad, hsame⟩
    omega

/-- A packet stays as it is while another is placed that has no slot of it. -/
theorem Kept.place (hkept : Kept dac grid before first ring) (hfirst : first.timeValid = true)
    (hbefore : before ≤ now64)
    (hjudge : judge dac grid margin before first.phytimer = .accepted)
    (hjudge' : judge dac grid margin now64 second.phytimer = .accepted)
    (hair : (now64 : ℤ) ≤ airStart before first)
    (hne : ∀ round < touched dac grid first, ∀ other < touched dac grid second,
      airSlot grid before first round ≠ airSlot grid now64 second other) :
    Kept dac grid before first (RfnmDriver.Tx.place dac grid second ring) := by
  intro k hk
  rw [← hkept k hk, sampleAt_sampleIndex, sampleAt_sampleIndex]
  have hround : (padSamples dac grid first.phytimer + k) / dac.elemsPerSlot <
      touched dac grid first := by
    rw [touched, if_pos hfirst]
    exact round_lt_span hk
  refine congrFun (place_of_ne fun other hother hmeet => ?_) _
  refine hne _ hround other hother
    (airSlot_eq_of_ringSlot_eq hbefore hjudge hjudge' hround hother ?_ hmeet)
  rw [lt_airEnd_iff]
  exact (slot_mono grid.tps_pos _ hair).trans
    (le_add_of_nonneg_right (Int.natCast_nonneg _))

/-! ## Slots that two packets share -/

/-- Where the second packet starts in the slot the first one ends in, they share a slot of the
ring. -/
theorem ringSlot_shared (hends : EndsInSlotOf dac grid before first now64 second) :
    ringSlot dac (baseSlot dac grid second.phytimer) 0 =
      ringSlot dac (baseSlot dac grid first.phytimer) (dac.lbMulti first) := by
  have hslot := hends.2
  rw [slot_airStop] at hslot
  rw [ringSlot_baseSlot dac grid now64, ringSlot_baseSlot dac grid before, ← hslot]
  unfold airSlot airStart
  rw [Nat.cast_zero, add_zero]

/-- In that slot both have padding. -/
theorem padSamples_of_ends (hends : EndsInSlotOf dac grid before first now64 second)
    (hapart : airStop dac grid before first ≤ airStart now64 second) :
    0 < padSamples dac grid first.phytimer ∧
      padSamples dac grid first.phytimer ≤ padSamples dac grid second.phytimer :=
  ⟨Nat.pos_of_ne_zero ((padSamples_ne_zero_iff before).mpr hends.1),
    padSamples_le hends.2 hapart⟩

/-- A packet that starts in the slot where another ends erases the end of it. -/
theorem lost_end (hsecond : second.timeValid = true)
    (hends : EndsInSlotOf dac grid before first now64 second)
    (hapart : airStop dac grid before first ≤ airStart now64 second)
    (hones : ∀ k, first.samples k ≠ 0) :
    ¬ Kept dac grid before first (place dac grid second ring) := by
  intro hkept
  obtain ⟨hpos, hle⟩ := padSamples_of_ends hends hapart
  have hpad := padSamples_lt dac grid first.phytimer
  have hmulti := (dac.lbMulti_bounds first).1
  have hge := Nat.le_mul_of_pos_left dac.elemsPerSlot hmulti
  have hspan : 0 < span dac grid second := by
    have hsecondMulti := (dac.lbMulti_bounds second).1
    rw [span_eq]
    omega
  -- the first sample of the slot
  have hlast := hkept (dac.lbMulti first * dac.elemsPerSlot - padSamples dac grid first.phytimer)
    (by unfold DacRing.content; omega)
  have hplace : padSamples dac grid first.phytimer +
      (dac.lbMulti first * dac.elemsPerSlot - padSamples dac grid first.phytimer) =
        dac.lbMulti first * dac.elemsPerSlot := by omega
  rw [sampleAt_sampleIndex, hplace, Nat.mul_div_cancel _ dac.elemsPerSlot_pos, Nat.mul_mod_left,
    ← ringSlot_shared hends] at hlast
  unfold place at hlast
  rw [if_pos hsecond, placeTimed_slot hspan (span_le_bufcnt dac grid second)
    dac.elemsPerSlot_pos] at hlast
  unfold timedSlot at hlast
  rw [if_pos (by omega)] at hlast
  exact hones _ hlast.symm

/-- A packet that ends in the slot where another starts erases the start of it. -/
theorem lost_start (hfirst : first.timeValid = true)
    (hends : EndsInSlotOf dac grid before first now64 second)
    (hapart : airStop dac grid before first ≤ airStart now64 second)
    (hones : ∀ k, second.samples k ≠ 0) :
    ¬ Kept dac grid now64 second (place dac grid first ring) := by
  intro hkept
  obtain ⟨hpos, hle⟩ := padSamples_of_ends hends hapart
  have hpad := padSamples_lt dac grid second.phytimer
  have hcontent : 0 < dac.content second :=
    Nat.mul_pos (dac.lbMulti_bounds second).1 dac.elemsPerSlot_pos
  have hspan : dac.lbMulti first < span dac grid first := by
    rw [span_eq, if_neg hpos.ne']
    omega
  have hhead := hkept 0 hcontent
  rw [sampleAt_sampleIndex, Nat.add_zero, Nat.div_eq_of_lt hpad, Nat.mod_eq_of_lt hpad,
    ringSlot_shared hends] at hhead
  unfold place at hhead
  rw [if_pos hfirst, placeTimed_slot hspan (span_le_bufcnt dac grid first) hpad] at hhead
  unfold timedSlot DacRing.content at hhead
  rw [if_neg (by omega), if_neg (by omega)] at hhead
  exact hones 0 hhead.symm

/-- A packet can only start in the slot where another ends if it starts after it. -/
theorem EndsInSlotOf.le (hends : EndsInSlotOf dac grid before first now64 second)
    (hapart : airStop dac grid before first ≤ airStart now64 second ∨
      airStop dac grid now64 second ≤ airStart before first) :
    airStop dac grid before first ≤ airStart now64 second := by
  obtain hle | hle := hapart
  · exact hle
  · have hfirst := (dac.lbMulti_bounds first).1
    have hsecond := (dac.lbMulti_bounds second).1
    have hmono := slot_mono grid.tps_pos grid.t0.toNat hle
    have hstop := slot_airStop dac grid before first
    have hstop' := slot_airStop dac grid now64 second
    have hslot := hends.2
    unfold airSlot at hstop hstop'
    unfold airStart at hmono hslot
    omega

/-- Two slots of the same sample, anywhere. -/
def sampleTimed (stamp : BitVec 32) : TxPacket where
  timeValid := true
  posValid := false
  eob := false
  phytimer := stamp
  usbCc := 0
  multi := 2
  samples := fun _ => 1

end RfnmDriver.Tx
