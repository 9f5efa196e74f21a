import RfnmDriver.Tx.TimedNeighbours
import RfnmDriver.Tx.WindowAssembly

/-!
# What the windows hold

While every step is one the assembly is made for, the open window is a stretch of the ring with
packets tick by tick (`WinInv`), and closing it hands over a good window. `windows_good` is the
result for runs.
-/

namespace RfnmDriver.Tx

open StepSystem WrapClock

variable {dac : DacRing} {grid : TxGrid} {margin : BitVec 32} {packet : TxPacket}
  {out following : TxOut} {ring other : RingBuf} {entry : Placed} {slotNo round count elem : Nat}
  {tick : ℤ}

/-! ## Slots and the packets in them -/

/-- What fills a slot fills it as long as the slot stays as it is. -/
theorem Placed.Fills.congr (h : entry.Fills dac grid ring slotNo tick)
    (hsame : other slotNo = ring slotNo) : entry.Fills dac grid other slotNo tick := by
  obtain ⟨hpad, round, hround, htick, hfills⟩ := h
  refine ⟨hpad, round, hround, htick, ?_⟩
  rw [hsame]
  exact hfills

/-- After the copy loop of a `POS_VALID` packet every slot of the packet is as its round left it. -/
theorem placePos_slot (hround : round < count) (hcount : count ≤ dac.bufcnt) :
    placePos dac grid packet ring count
        (ringSlot dac (baseSlot dac grid packet.phytimer) round) elem =
      packet.samples (round * dac.elemsPerSlot + elem) := by
  induction count with
  | zero => exact absurd hround (Nat.not_lt_zero round)
  | succ count ih =>
      show RingBuf.write _ _ _ _ elem = _
      obtain hearlier | rfl := Nat.lt_succ_iff_lt_or_eq.mp hround
      · rw [RingBuf.write_of_ne]
        · exact ih hearlier (by omega)
        · intro hsame
          have heq := ringSlot_inj (by omega) (by omega) hsame
          omega
      · rw [RingBuf.write_self]

/-- A packet that is placed fills its slots, if it starts with one. -/
theorem fills_place {now64 : Nat} (hplaced : packet.timeValid = true ∨
      packet.posValid = true ∧ packet.OnGrid grid)
    (hpad : padSamples dac grid packet.phytimer = 0) (hround : round < dac.lbMulti packet) :
    Placed.Fills dac grid { now64 := now64, packet := packet } (place dac grid packet ring)
      (ringSlot dac (baseSlot dac grid packet.phytimer) round)
      (stamp64 now64 packet.phytimer + round * grid.tps) := by
  refine ⟨hpad, round, hround, rfl, fun elem helem => ?_⟩
  have hspan : span dac grid packet = dac.lbMulti packet := by
    rw [span_eq, if_pos hpad, Nat.add_zero]
  have hfits := span_le_bufcnt dac grid packet
  have hnext : round * dac.elemsPerSlot + dac.elemsPerSlot ≤
      dac.lbMulti packet * dac.elemsPerSlot := by
    rw [← Nat.succ_mul]
    exact Nat.mul_le_mul_right _ hround
  unfold place
  split
  next =>
    rw [placeTimed_slot (by omega) hfits helem]
    unfold timedSlot DacRing.content
    rw [hpad, if_neg (Nat.not_lt_zero _), if_pos (by omega), Nat.sub_zero]
  next htimed =>
    obtain htime | hpos := hplaced
    · exact absurd htime htimed
    · rw [if_pos hpos]
      exact placePos_slot hround (by omega)

/-! ## The open window -/

/-- The open window is a stretch of the ring, empty at first, with packets tick by tick. -/
structure WinInv (dac : DacRing) (out : TxOut) : Prop where
  srcSlot : out.win.firstSlot = baseSlot dac out.grid out.win.openTick
  openAir : out.openAir % 2 ^ 32 = out.win.openTick.toNat
  nextSlot : out.win.nextSlot = ringSlot dac out.win.firstSlot out.win.slots
  slots_lt : out.win.slots < dac.bufcnt
  filled : ∀ round < out.win.slots, ∃ entry ∈ out.placed,
    entry.Fills dac out.grid out.ring (ringSlot dac out.win.firstSlot round)
      (out.openAir + round * out.grid.tps)

/-- The invariant of orderly runs. -/
structure TxOut.Inv (dac : DacRing) (out : TxOut) : Prop where
  good : out.AllGood dac
  win : out.win.active = true → WinInv dac out ∧ 0 < out.win.slots

/-- A ring of at most 16384 slots. -/
theorem DacRing.bufcnt_le (dac : DacRing) : dac.bufcnt ≤ 2 ^ 14 :=
  Nat.pow_le_pow_right (by omega) dac.bufcntLog_le

/-- The command has room for every slot, and for every length up to that of the ring. -/
theorem windowCommand_fields {srcSlot lenSlots : Nat} (hsrc : srcSlot < 2 ^ 16)
    (hlen : lenSlots < 2 ^ 16) :
    ((windowCommand srcSlot lenSlots).extractLsb' 0 16).toNat = lenSlots ∧
      ((windowCommand srcSlot lenSlots).extractLsb' 16 16).toNat = srcSlot := by
  have hword : (windowCommand srcSlot lenSlots).toNat = srcSlot <<< 16 + lenSlots := by
    have hshift : (srcSlot % 2 ^ 32) <<< 16 % 2 ^ 32 = srcSlot <<< 16 := by
      rw [Nat.shiftLeft_eq, Nat.shiftLeft_eq]
      omega
    unfold windowCommand
    rw [BitVec.toNat_or, BitVec.toNat_shiftLeft, BitVec.toNat_ofNat, BitVec.toNat_ofNat, hshift,
      Nat.mod_eq_of_lt (show lenSlots < 2 ^ 32 by omega), Nat.shiftLeft_add_eq_or_of_lt hlen]
  rw [Nat.shiftLeft_eq] at hword
  rw [BitVec.extractLsb'_toNat, BitVec.extractLsb'_toNat, hword, Nat.shiftRight_eq_div_pow,
    Nat.shiftRight_eq_div_pow]
  omega

/-- The slot of a stamp is one of the ring. -/
theorem baseSlot_lt (dac : DacRing) (grid : TxGrid) (stamp : BitVec 32) :
    baseSlot dac grid stamp < dac.bufcnt := by
  have hmod := Nat.and_two_pow_sub_one_eq_mod ((grid.off stamp).toNat / grid.tps) dac.bufcntLog
  unfold baseSlot DacRing.bufcnt
  rw [hmod]
  exact Nat.mod_lt _ (Nat.two_pow_pos _)

/-- Closing the window hands over a good one. -/
theorem TxOut.Inv.winClose (h : out.Inv dac) : out.winClose.Inv dac := by
  unfold TxOut.winClose
  split
  next hactive =>
    obtain ⟨hwin, hpos⟩ := h.win hactive
    have hbufcnt := dac.bufcnt_le
    have hslots := hwin.slots_lt
    have hlen : (out.win.slots + 1) % 2 ^ 32 = out.win.slots + 1 := Nat.mod_eq_of_lt (by omega)
    refine ⟨?_, fun hagain => Bool.noConfusion hagain⟩
    intro window hwindow
    obtain rfl | hold := List.mem_cons.mp hwindow
    · refine ⟨⟨out.openAir, hwin.openAir, ?_⟩, ?_, hwin.srcSlot, ?_, ?_⟩
      · -- the pad goes behind the last slot with content, so it hits none of those
        intro round hround
        have hcontent : round < out.win.slots := by
          change round + 1 < (out.win.slots + 1) % 2 ^ 32 at hround
          omega
        obtain ⟨entry, hentry, hfills⟩ := hwin.filled round hcontent
        refine ⟨entry, hentry, hfills.congr (RingBuf.write_of_ne _ _ ?_)⟩
        rw [hwin.nextSlot]
        intro hsame
        have heq := ringSlot_inj (by omega) hslots hsame
        omega
      · intro elem
        show out.ring.write out.win.nextSlot (fun _ => 0)
          (ringSlot dac out.win.firstSlot ((out.win.slots + 1) % 2 ^ 32 - 1)) elem = 0
        rw [hlen, Nat.add_sub_cancel, hwin.nextSlot, RingBuf.write_self]
      · show 1 < (out.win.slots + 1) % 2 ^ 32 ∧ (out.win.slots + 1) % 2 ^ 32 ≤ dac.bufcnt
        omega
      · have hsrc := baseSlot_lt dac out.grid out.win.openTick
        dsimp only
        rw [hlen, hwin.srcSlot]
        exact windowCommand_fields (by omega) (by omega)
    · exact h.good window hold
  next hidle => exact h

/-- A packet that spares the window leaves it filled. -/
theorem WinInv.placePacket (h : WinInv dac out) (hspares : out.Spares dac packet)
    (hplaced : packet.timeValid = true ∨ packet.posValid = true ∧ packet.OnGrid out.grid) :
    WinInv dac (out.placePacket dac packet) := by
  refine ⟨h.srcSlot, h.openAir, h.nextSlot, h.slots_lt, ?_⟩
  intro filled hfilled
  obtain ⟨entry, hentry, hfills⟩ := h.filled filled hfilled
  by_cases hhit : ∃ round < touched dac out.grid packet,
      ringSlot dac (baseSlot dac out.grid packet.phytimer) round =
        ringSlot dac out.win.firstSlot filled
  · obtain ⟨round, hround, hsame⟩ := hhit
    obtain ⟨hpad, htick⟩ := hspares round hround filled hfilled hsame
    have hmulti : round < dac.lbMulti packet := by
      rw [touched, span_eq, if_pos hpad, Nat.add_zero, ite_self] at hround
      exact hround
    refine ⟨_, List.mem_cons_self, ?_⟩
    show Placed.Fills _ _ _ _ (ringSlot dac out.win.firstSlot filled)
      (out.openAir + filled * out.grid.tps)
    rw [← hsame, ← htick]
    exact fills_place hplaced hpad hmulti
  · refine ⟨entry, List.mem_cons_of_mem _ hentry, hfills.congr (place_of_ne ?_)⟩
    intro round hround hsame
    exact hhit ⟨round, hround, hsame.symm⟩

/-- A window that is opened is empty, and starts at the packet. -/
theorem WinInv.winOpen (hidle : out.win.active = false) (packet : TxPacket) :
    WinInv dac (out.winOpen dac packet) := by
  have hbase := baseSlot_lt dac out.grid packet.phytimer
  have hidle' : ¬ out.win.active = true := by
    rw [hidle]
    exact Bool.false_ne_true
  unfold TxOut.winOpen
  rw [if_neg hidle']
  refine ⟨rfl, stamp64_emod _ _, ?_, dac.bufcnt_pos, fun _ h => absurd h (Nat.not_lt_zero _)⟩
  show baseSlot dac out.grid packet.phytimer =
    ringSlot dac (baseSlot dac out.grid packet.phytimer) 0
  rw [ringSlot_eq, Nat.add_zero, Nat.mod_eq_of_lt hbase]

/-- The packet fills its slots in the ring. -/
def TxOut.Holds (dac : DacRing) (out : TxOut) (packet : TxPacket) : Prop :=
  ∀ round < dac.lbMulti packet, ∃ entry ∈ out.placed, entry.Fills dac out.grid out.ring
    (ringSlot dac (baseSlot dac out.grid packet.phytimer) round)
    (stamp64 out.now64 packet.phytimer + round * out.grid.tps)

/-- A packet that goes on where the window ends, in ticks too, is counted into it. -/
theorem WinInv.winExtend (h : WinInv dac out) (hholds : out.Holds dac packet)
    (hbase : baseSlot dac out.grid packet.phytimer = out.win.nextSlot)
    (htick : stamp64 out.now64 packet.phytimer = out.openAir + out.win.slots * out.grid.tps)
    (hfits : out.win.slots + dac.lbMulti packet < dac.bufcnt) :
    WinInv dac (out.winExtend dac packet) ∧ 0 < (out.winExtend dac packet).win.slots := by
  have hbufcnt := dac.bufcnt_le
  have hmulti := (dac.lbMulti_bounds packet).1
  have hslots : (out.win.slots + dac.lbMulti packet) % 2 ^ 32 =
      out.win.slots + dac.lbMulti packet := Nat.mod_eq_of_lt (by omega)
  have hnext (count : Nat) : ringSlot dac out.win.nextSlot count =
      ringSlot dac out.win.firstSlot (out.win.slots + count) := by
    rw [h.nextSlot, ringSlot_eq, ringSlot_eq, ringSlot_eq, Nat.mod_add_mod, Nat.add_assoc]
  unfold TxOut.winExtend
  rw [hslots]
  refine ⟨⟨h.srcSlot, h.openAir, hnext _, hfits, ?_⟩, by dsimp only; omega⟩
  intro filled hfilled
  obtain hold | hnew := Nat.lt_or_ge filled out.win.slots
  · exact h.filled filled hold
  · obtain ⟨entry, hentry, hfills⟩ := hholds (filled - out.win.slots) (by
      dsimp only at hfilled
      omega)
    have hcount : out.win.slots + (filled - out.win.slots) = filled := by omega
    have hcast : ((filled - out.win.slots : Nat) : ℤ) = filled - out.win.slots := by omega
    refine ⟨entry, hentry, ?_⟩
    rw [hbase, hnext, hcount, htick, hcast] at hfills
    convert hfills using 1
    show out.openAir + filled * (out.grid.tps : ℤ) = _
    ring

/-! ## Steps -/

/-- Closing changes neither the grid nor the clock. -/
theorem TxOut.winClose_frame (out : TxOut) : out.winClose.grid = out.grid ∧
    out.winClose.now64 = out.now64 ∧ out.winClose.placed = out.placed ∧
      out.winClose.win.active = false := by
  unfold TxOut.winClose
  split
  next => exact ⟨rfl, rfl, rfl, rfl⟩
  next hidle => exact ⟨rfl, rfl, rfl, eq_false_of_ne_true hidle⟩

/-- A packet that is placed is in the ring until another is. -/
theorem TxOut.Holds.placePacket (out : TxOut) (htimed : packet.timeValid = true)
    (hpad : padSamples dac out.grid packet.phytimer = 0) :
    (out.placePacket dac packet).Holds dac packet := fun _ hround =>
  ⟨_, List.mem_cons_self, fills_place (Or.inl htimed) hpad hround⟩

/-- The slot of zeros of a window that is closed leaves the packets elsewhere. -/
theorem TxOut.Holds.winClose (h : out.Holds dac packet)
    (hpad : out.win.active = true → ∀ round < dac.lbMulti packet,
      ringSlot dac (baseSlot dac out.grid packet.phytimer) round ≠ out.win.nextSlot) :
    out.winClose.Holds dac packet := by
  unfold TxOut.winClose
  split
  next hactive =>
    intro round hround
    obtain ⟨entry, hentry, hfills⟩ := h round hround
    exact ⟨entry, hentry, hfills.congr (RingBuf.write_of_ne _ _ (hpad hactive round hround))⟩
  next => exact h

/-- A window of its own is opened for an aligned packet. -/
theorem TxOut.Inv.winExtend_open (h : out.Inv dac) (hidle : out.win.active = false)
    (hholds : out.Holds dac packet) : ((out.winOpen dac packet).winExtend dac packet).Inv dac := by
  have hbounds := dac.lbMulti_bounds packet
  have hmulti : 2 * dac.multiMax < dac.bufcnt := dac.multiMax_lt
  have hopen : WinInv dac (out.winOpen dac packet) := .winOpen hidle packet
  have hidle' : ¬ out.win.active = true := by
    rw [hidle]
    exact Bool.false_ne_true
  unfold TxOut.winOpen at hopen ⊢
  rw [if_neg hidle'] at hopen ⊢
  refine ⟨h.good, fun _ => hopen.winExtend hholds rfl ?_ ?_⟩
  · show stamp64 out.now64 packet.phytimer =
      stamp64 out.now64 packet.phytimer + (0 : Nat) * out.grid.tps
    rw [Nat.cast_zero, zero_mul, add_zero]
  · show 0 + dac.lbMulti packet < dac.bufcnt
    omega

/-- A packet that goes on where the window ends is counted into it. -/
theorem TxOut.Inv.winExtend_more (h : out.Inv dac) (hactive : out.win.active = true)
    (hholds : out.Holds dac packet)
    (hbase : baseSlot dac out.grid packet.phytimer = out.win.nextSlot)
    (htick : stamp64 out.now64 packet.phytimer = out.openAir + out.win.slots * out.grid.tps)
    (hfits : out.win.slots + dac.lbMulti packet + 1 ≤ dac.bufcnt) :
    ((out.winOpen dac packet).winExtend dac packet).Inv dac := by
  unfold TxOut.winOpen
  rw [if_pos hactive]
  exact ⟨h.good, fun _ => (h.win hactive).1.winExtend hholds hbase htick hfits⟩

/-- Placing a packet that spares the open window keeps the invariant. -/
theorem TxOut.Inv.placePacket (h : out.Inv dac)
    (hspares : out.win.active = true → out.Spares dac packet)
    (hplaced : packet.timeValid = true ∨ packet.posValid = true ∧ packet.OnGrid out.grid) :
    (out.placePacket dac packet).Inv dac := by
  refine ⟨h.good, fun hactive => ?_⟩
  obtain ⟨hwin, hpos⟩ := h.win hactive
  exact ⟨hwin.placePacket (hspares hactive) hplaced, hpos⟩

/-- A packet that goes on where the window ends spares the window. -/
theorem TxOut.spares_of_continues (h : WinInv dac out) (haligned : packet.Aligned dac out.grid)
    (htimed : packet.timeValid = true)
    (hbase : baseSlot dac out.grid packet.phytimer = out.win.nextSlot)
    (hfits : out.win.slots + dac.lbMulti packet + 1 ≤ dac.bufcnt) : out.Spares dac packet := by
  intro round hround filled hfilled hsame
  rw [touched, if_pos htimed, haligned.2] at hround
  have hnext : ringSlot dac out.win.nextSlot round =
      ringSlot dac out.win.firstSlot (out.win.slots + round) := by
    rw [h.nextSlot, ringSlot_eq, ringSlot_eq, ringSlot_eq, Nat.mod_add_mod, Nat.add_assoc]
  rw [hbase, hnext] at hsame
  have heq := ringSlot_inj (by omega) (by omega) hsame
  omega

/-- Windowed assembly of a packet that has been placed keeps the invariant. -/
theorem TxOut.Inv.assemble (h : out.Inv dac) (hholds : packet.Aligned dac out.grid →
      out.Holds dac packet)
    (hcontinues : out.win.active = true → ¬ out.Interrupts dac packet →
      stamp64 out.now64 packet.phytimer = out.openAir + out.win.slots * out.grid.tps ∧
        out.win.slots + dac.lbMulti packet + 1 ≤ dac.bufcnt)
    (hinterrupts : out.win.active = true → out.Interrupts dac packet →
      packet.Aligned dac out.grid → ∀ round < dac.lbMulti packet,
        ringSlot dac (baseSlot dac out.grid packet.phytimer) round ≠ out.win.nextSlot) :
    (out.assemble dac packet).Inv dac := by
  have hend {extended : TxOut} (hextended : extended.Inv dac) :
      (if packet.eob then extended.winClose else extended).Inv dac := by
    split
    · exact hextended.winClose
    · exact hextended
  unfold TxOut.assemble
  -- a packet elsewhere closes the window and opens one of its own, the next one extends it
  by_cases hinterrupted : out.Interrupts dac packet
  · rw [if_pos hinterrupted]
    have hclosed := h.winClose
    split
    next haligned =>
      have hpad : out.win.active = true → ∀ round < dac.lbMulti packet,
          ringSlot dac (baseSlot dac out.grid packet.phytimer) round ≠ out.win.nextSlot :=
        fun hactive => hinterrupts hactive hinterrupted haligned
      exact hend (hclosed.winExtend_open out.winClose_frame.2.2.2
        ((hholds haligned).winClose hpad))
    next => exact hclosed
  · rw [if_neg hinterrupted]
    obtain ⟨haligned, hbase⟩ := not_or.mp hinterrupted
    rw [not_not] at haligned hbase
    rw [if_pos haligned]
    cases hactive : out.win.active with
    | false => exact hend (h.winExtend_open hactive (hholds haligned))
    | true =>
        obtain ⟨htick, hfits⟩ := hcontinues hactive hinterrupted
        exact hend (h.winExtend_more hactive (hholds haligned) hbase htick hfits)

/-- The cc is no part of the invariant. -/
theorem TxOut.Inv.consumed (h : out.Inv dac) (packet : TxPacket) :
    (out.consumed packet).Inv dac := by
  refine ⟨h.good, fun hactive => ?_⟩
  obtain ⟨hwin, hpos⟩ := h.win hactive
  exact ⟨⟨hwin.srcSlot, hwin.openAir, hwin.nextSlot, hwin.slots_lt, hwin.filled⟩, hpos⟩

/-- A timed packet that suits the open window, and is placed, keeps the invariant. -/
theorem TxOut.Inv.placeTimed (h : out.Inv dac) {viable windowed : Bool}
    (htimed : packet.timeValid = true)
    (hsuits : out.win.active = true → out.Suits dac packet viable windowed) :
    (if windowed then (out.placePacket dac packet).assemble dac packet
      else out.placePacket dac packet).Inv dac := by
  have hcontinues (hactive : out.win.active = true) (hwindowed : windowed = true)
      (hint : ¬ out.Interrupts dac packet) :
      stamp64 out.now64 packet.phytimer = out.openAir + out.win.slots * out.grid.tps ∧
        out.win.slots + dac.lbMulti packet + 1 ≤ dac.bufcnt := by
    have hrule := hsuits hactive
    unfold TxOut.Suits at hrule
    rw [if_pos ⟨htimed, hwindowed, hint⟩] at hrule
    exact hrule
  have hrest (hactive : out.win.active = true)
      (hint : ¬ (windowed = true ∧ ¬ out.Interrupts dac packet)) :
      out.Spares dac packet ∧ (windowed = true → packet.Aligned dac out.grid →
        ∀ round < dac.lbMulti packet,
          ringSlot dac (baseSlot dac out.grid packet.phytimer) round ≠ out.win.nextSlot) := by
    have hrule := hsuits hactive
    unfold TxOut.Suits at hrule
    rw [if_neg fun hall => hint hall.2, if_pos htimed] at hrule
    exact hrule
  -- a packet that continues the window takes the slots behind it, and spares those it has
  have hspares (hactive : out.win.active = true) : out.Spares dac packet := by
    by_cases hmore : windowed = true ∧ ¬ out.Interrupts dac packet
    · obtain ⟨haligned, hbase⟩ := not_or.mp hmore.2
      rw [not_not] at haligned hbase
      exact TxOut.spares_of_continues (h.win hactive).1 haligned htimed hbase
        (hcontinues hactive hmore.1 hmore.2).2
    · exact (hrest hactive hmore).1
  have hplaced := h.placePacket hspares (Or.inl htimed)
  split
  next hwindowed =>
    refine hplaced.assemble (fun haligned => .placePacket out htimed haligned.1) ?_ ?_
    · exact fun hactive hint => hcontinues hactive hwindowed hint
    · intro hactive hint haligned
      exact (hrest hactive fun hmore => hmore.2 hint).2 hwindowed haligned
  next => exact hplaced

/-- An orderly packet keeps the invariant. -/
theorem TxOut.Inv.ruled (h : out.Inv dac) {viable windowed : Bool} (verdict : Verdict)
    (hsuits : out.win.active = true → verdict = .accepted →
      out.Suits dac packet viable windowed) :
    (out.ruled dac packet viable windowed verdict).Inv dac := by
  cases verdict with
  | late => exact h.consumed packet
  | wild => exact h.consumed packet
  | early => exact h
  | accepted =>
      have hrule (hactive : out.win.active = true) := hsuits hactive rfl
      show TxOut.Inv dac (ite _ _ _)
      split
      next htimed => exact (h.placeTimed htimed hrule).consumed packet
      next htimed =>
        show TxOut.Inv dac (ite _ _ _)
        split
        next hpos =>
          have hspares (hactive : out.win.active = true) : out.Spares dac packet := by
            have hpositional := hrule hactive
            unfold TxOut.Suits at hpositional
            rw [if_neg fun hall => htimed hall.1, if_neg htimed, if_pos hpos] at hpositional
            exact hpositional
          exact (h.placePacket hspares (Or.inr ⟨hpos.1, hpos.2.2⟩)).consumed packet
        next => exact h.consumed packet

/-- An orderly step keeps the invariant. -/
theorem TxOut.Inv.next (h : out.Inv dac) {event : OutEvent}
    (horderly : out.Orderly dac margin event) (hnext : out.next dac margin event = some following) :
    following.Inv dac := by
  cases event with
  | elapse ticks =>
      obtain rfl := Option.some.inj hnext
      refine ⟨h.good, fun hactive => ?_⟩
      obtain ⟨hwin, hpos⟩ := h.win hactive
      exact ⟨⟨hwin.srcSlot, hwin.openAir, hwin.nextSlot, hwin.slots_lt, hwin.filled⟩, hpos⟩
  | consume packet viable windowed =>
      obtain rfl := Option.some.inj hnext
      exact h.ruled _ horderly
  | flushStaging scrubRing =>
      obtain rfl := Option.some.inj hnext
      refine ⟨h.good, fun hactive => ?_⟩
      obtain ⟨hwin, hpos⟩ := h.win hactive
      obtain rfl := horderly hactive
      exact ⟨⟨hwin.srcSlot, hwin.openAir, hwin.nextSlot, hwin.slots_lt, hwin.filled⟩, hpos⟩
  | remint grid =>
      obtain rfl := Option.some.inj hnext
      refine ⟨h.good, fun hactive => ?_⟩
      obtain ⟨hwin, hpos⟩ := h.win hactive
      obtain rfl := horderly hactive
      exact ⟨⟨hwin.srcSlot, hwin.openAir, hwin.nextSlot, hwin.slots_lt, hwin.filled⟩, hpos⟩

/-- In every run whose steps are orderly, every window handed to the sink is good. -/
theorem windows_good {events : List OutEvent}
    (horderly : Guarded (TxOut.next dac margin) (TxOut.Orderly dac margin) (.init grid) events) :
    Always (TxOut.next dac margin) (TxOut.AllGood dac) (.init grid) events := by
  have hinit : (TxOut.init grid).Inv dac :=
    ⟨fun _ hwindow => absurd hwindow List.not_mem_nil, fun hactive => Bool.noConfusion hactive⟩
  refine (always_of_guarded ?_ hinit horderly).mono fun _ h => h.good
  exact fun _ _ _ h hstep hnext => h.next hstep hnext

/-- Two packets in a row, the second with the end of the burst. -/
theorem windows_good_burst : Always (TxOut.next sampleDac 48) (TxOut.AllGood sampleDac)
    (.init sampleGrid) [.consume (sampleTimed 8192) true true, .elapse 64,
      .consume { sampleTimed 8448 with eob := true } true true] :=
  windows_good (by decide)

/-- A ring of four slots of one sample, and packets of one slot. -/
def smallDac : DacRing where
  bufcntLog := 2
  elemsPerSlot := 1
  multiMax := 1
  bufcntLog_le := by decide
  elemsPerSlot_pos := Nat.one_pos
  multiMax_pos := Nat.one_pos
  multiMax_lt := by decide

/-- A burst that goes on for a lap is one window, longer than the ring. -/
theorem long_burst_overfills : ¬ Always (TxOut.next smallDac (-16)) (TxOut.AllGood smallDac)
    (.init sampleGrid) [.consume (sampleTimed 128) true true,
      .consume (sampleTimed 256) true true, .elapse 256, .consume (sampleTimed 384) true true,
      .consume { sampleTimed 512 with eob := true } true true] := by
  intro halways
  have hgood := halways.final rfl _ List.mem_cons_self
  exact absurd hgood.lenSlots.2 (by decide)

end RfnmDriver.Tx
