import RfnmDriver.Tx.WindowContents

/-!
# The slot of zeros behind a window

`rfnm_tx_win_close` writes zeros into the slot behind a window, after the packet that makes it close
has been placed. The ledger beside the consumer has, for every slot that an accepted packet filled
last, when its air time is over and what the packet put there. A close that zeroes such a slot
before its time is written down; runs without one are described by `pads_spare_iff`.
-/

namespace RfnmDriver.Tx

open StepSystem WrapClock

variable {dac : DacRing} {grid : TxGrid} {margin : BitVec 32} {packet : TxPacket} {out : TxOut}
  {ring : RingBuf} {viable windowed : Bool} {slot round : Nat}

/-! ## The ledger -/

/-- What an accepted packet has in a slot of the ring. -/
structure Held where
  slot : Nat
  /-- The tick at which the slot has been on air. -/
  airEnd : ℤ
  buf : Nat → DacSample

/-- The consumer, with the slots that packets fill and the slots that were zeroed before their
time. -/
structure RingLedger where
  out : TxOut
  held : List Held
  zeroed : List Nat

/-- The packet goes into the ring. -/
def TxOut.Places (dac : DacRing) (margin : BitVec 32) (out : TxOut) (packet : TxPacket)
    (viable : Bool) : Prop :=
  judge dac out.grid margin out.now64 packet.phytimer = .accepted ∧
    (packet.timeValid = true ∨
      packet.posValid = true ∧ viable = true ∧ packet.OnGrid out.grid)

instance (dac : DacRing) (margin : BitVec 32) (out : TxOut) (packet : TxPacket) (viable : Bool) :
    Decidable (out.Places dac margin packet viable) :=
  inferInstanceAs (Decidable (_ ∧ _))

/-- The slots that are zeroed once the packet is placed: the one behind a window that it
interrupts, and the one behind a burst that it ends. -/
def TxOut.pads (dac : DacRing) (out : TxOut) (packet : TxPacket) : List Nat :=
  (if out.win.active = true ∧ out.Interrupts dac packet then [out.win.nextSlot] else []) ++
    if packet.Aligned dac out.grid ∧ packet.eob = true then
      [ringSlot dac (baseSlot dac out.grid packet.phytimer) (dac.lbMulti packet)]
    else []

/-- What the packet has in the ring once it is placed. -/
def TxOut.holdings (dac : DacRing) (out : TxOut) (packet : TxPacket) : List Held :=
  (List.range (touched dac out.grid packet)).map fun round =>
    { slot := ringSlot dac (baseSlot dac out.grid packet.phytimer) round
      airEnd := airEnd out.grid (airSlot out.grid out.now64 packet round)
      buf := place dac out.grid packet out.ring
        (ringSlot dac (baseSlot dac out.grid packet.phytimer) round) }

/-- The packet has the slot. -/
def TxOut.Covers (dac : DacRing) (out : TxOut) (packet : TxPacket) (slot : Nat) : Prop :=
  ∃ round < touched dac out.grid packet,
    ringSlot dac (baseSlot dac out.grid packet.phytimer) round = slot

instance (dac : DacRing) (out : TxOut) (packet : TxPacket) (slot : Nat) :
    Decidable (out.Covers dac packet slot) :=
  inferInstanceAs (Decidable (∃ _ < _, _))

/-- Samples in the slot wait for their air time. -/
def Waiting (now64 : Nat) (held : List Held) (slot : Nat) : Prop :=
  ∃ entry ∈ held, entry.slot = slot ∧ (now64 : ℤ) < entry.airEnd

instance (now64 : Nat) (held : List Held) (slot : Nat) : Decidable (Waiting now64 held slot) :=
  inferInstanceAs (Decidable (∃ _ ∈ _, _))

/-- The packet is written down in place of what its slots held. -/
def RingLedger.heldAfter (dac : DacRing) (ledger : RingLedger) (packet : TxPacket) : List Held :=
  ledger.out.holdings dac packet ++
    ledger.held.filter fun entry => ¬ ledger.out.Covers dac packet entry.slot

/-- The slots that are zeroed with samples that wait. -/
def RingLedger.harmed (dac : DacRing) (ledger : RingLedger) (packet : TxPacket)
    (windowed : Bool) : List Nat :=
  if packet.timeValid = true ∧ windowed = true then
    (ledger.out.pads dac packet).filter
      fun slot => Waiting ledger.out.now64 (ledger.heldAfter dac packet) slot
  else []

/-- One step, written down. -/
def RingLedger.record (dac : DacRing) (margin : BitVec 32) (ledger : RingLedger) (out : TxOut) :
    OutEvent → RingLedger
  | .elapse _ => { ledger with out := out }
  | .remint _ => { ledger with out := out }
  | .flushStaging scrubRing =>
      { ledger with out := out, held := if scrubRing then [] else ledger.held }
  | .consume packet viable windowed =>
      if ledger.out.Places dac margin packet viable then
        { out := out
          held := ledger.heldAfter dac packet
          zeroed := ledger.harmed dac packet windowed ++ ledger.zeroed }
      else { ledger with out := out }

/-- One step of the consumer. -/
def RingLedger.next (dac : DacRing) (margin : BitVec 32) (ledger : RingLedger) (event : OutEvent) :
    Option RingLedger :=
  (ledger.out.next dac margin event).map fun out => ledger.record dac margin out event

/-- The TX side has started, with a silent ring. -/
def RingLedger.init (grid : TxGrid) : RingLedger where
  out := .init grid
  held := []
  zeroed := []

/-- No close has zeroed samples that wait, and every slot that waits is as its packet left it. -/
structure RingLedger.Spared (ledger : RingLedger) : Prop where
  zeroed : ledger.zeroed = []
  intact : ∀ entry ∈ ledger.held, (ledger.out.now64 : ℤ) < entry.airEnd →
    ledger.out.ring entry.slot = entry.buf

/-- The slots behind the windows that the packet closes are free: of samples that wait, and, where
the packet interrupts the open window, of the packet itself. -/
def RingLedger.Clears (dac : DacRing) (margin : BitVec 32) (ledger : RingLedger) :
    OutEvent → Prop
  | .consume packet _ windowed =>
      judge dac ledger.out.grid margin ledger.out.now64 packet.phytimer = .accepted →
      packet.timeValid = true → windowed = true →
        (ledger.out.win.active = true → ledger.out.Interrupts dac packet →
          ¬ ledger.out.Covers dac packet ledger.out.win.nextSlot ∧
            ¬ Waiting ledger.out.now64 ledger.held ledger.out.win.nextSlot) ∧
        (packet.Aligned dac ledger.out.grid → packet.eob = true →
          ¬ Waiting ledger.out.now64 ledger.held
            (ringSlot dac (baseSlot dac ledger.out.grid packet.phytimer) (dac.lbMulti packet)))
  | _ => True

/-! ## What the closes write -/

/-- Zeros go into the slots, one after the other. -/
def RingBuf.zero (ring : RingBuf) (slots : List Nat) : RingBuf :=
  slots.foldl (fun ring slot => ring.write slot fun _ => 0) ring

/-- A slot that is not among those zeroed stays as it is. -/
theorem RingBuf.zero_of_notMem {slots : List Nat} (hslot : slot ∉ slots) :
    ring.zero slots slot = ring slot := by
  induction slots generalizing ring with
  | nil => rfl
  | cons first rest ih =>
      have hne : slot ≠ first := List.ne_of_not_mem_cons hslot
      exact (ih (List.not_mem_of_not_mem_cons hslot)).trans (RingBuf.write_of_ne ring _ hne)

/-- A close zeroes the slot behind the window, if one is open. -/
theorem TxOut.winClose_ring (out : TxOut) :
    out.winClose.ring =
      out.ring.zero (if out.win.active = true then [out.win.nextSlot] else []) := by
  unfold winClose
  split <;> rfl

/-- A window that is opened at the packet, or goes on with it, ends behind the packet. -/
theorem TxOut.extended_frame
    (hbase : out.win.active = true → baseSlot dac out.grid packet.phytimer = out.win.nextSlot) :
    ((out.winOpen dac packet).winExtend dac packet).ring = out.ring ∧
      ((out.winOpen dac packet).winExtend dac packet).win.active = true ∧
      ((out.winOpen dac packet).winExtend dac packet).win.nextSlot =
        ringSlot dac (baseSlot dac out.grid packet.phytimer) (dac.lbMulti packet) := by
  unfold winOpen
  split
  next hactive =>
    rw [hbase hactive]
    exact ⟨rfl, hactive, rfl⟩
  next => exact ⟨rfl, rfl, rfl⟩

/-- The closes of a packet zero exactly its pads. -/
theorem TxOut.assemble_ring (dac : DacRing) (out : TxOut) (packet : TxPacket) :
    (out.assemble dac packet).ring = out.ring.zero (out.pads dac packet) := by
  have hend (closed : TxOut) (hgrid : closed.grid = out.grid)
      (hbase : closed.win.active = true →
        baseSlot dac closed.grid packet.phytimer = closed.win.nextSlot) :
      (if packet.Aligned dac out.grid then
          if packet.eob then ((closed.winOpen dac packet).winExtend dac packet).winClose
          else (closed.winOpen dac packet).winExtend dac packet
        else closed).ring =
      closed.ring.zero (if packet.Aligned dac out.grid ∧ packet.eob = true then
        [ringSlot dac (baseSlot dac out.grid packet.phytimer) (dac.lbMulti packet)] else []) := by
    obtain ⟨hring, hactive, hnext⟩ := extended_frame hbase
    by_cases haligned : packet.Aligned dac out.grid
    · by_cases heob : packet.eob = true
      · rw [if_pos haligned, if_pos heob, if_pos ⟨haligned, heob⟩, winClose_ring, if_pos hactive,
          hring, hnext, hgrid]
      · rw [if_pos haligned, if_neg heob, if_neg fun h => heob h.2, hring]
        rfl
    · rw [if_neg haligned, if_neg fun h => haligned h.1]
      rfl
  unfold assemble pads
  rw [RingBuf.zero, List.foldl_append]
  by_cases hint : out.Interrupts dac packet
  · rw [if_pos hint, hend _ out.winClose_frame.1 fun h => absurd h (by
      rw [out.winClose_frame.2.2.2]
      exact Bool.false_ne_true), winClose_ring]
    simp only [hint, and_true]
    rfl
  · have hidle : ¬ (out.win.active = true ∧ out.Interrupts dac packet) := fun h => hint h.2
    rw [if_neg hint, hend out rfl fun _ => not_not.mp (not_or.mp hint).2, if_neg hidle]
    rfl

/-- What a pass of the handler leaves in the ring. -/
theorem TxOut.handlerOut_ring (dac : DacRing) (margin : BitVec 32) (out : TxOut)
    (packet : TxPacket) (viable windowed : Bool) :
    (out.handlerOut dac margin packet viable windowed).ring =
      if out.Places dac margin packet viable then
        (place dac out.grid packet out.ring).zero
          (if packet.timeValid = true ∧ windowed = true then out.pads dac packet else [])
      else out.ring := by
  -- only an accepted packet is placed, by its time or by its position
  by_cases haccepted : judge dac out.grid margin out.now64 packet.phytimer = .accepted
  · have hruled : out.handlerOut dac margin packet viable windowed =
        out.ruled dac packet viable windowed .accepted := by
      unfold handlerOut
      rw [haccepted]
    rw [hruled]
    show TxOut.ring (ite _ _ _) = _
    by_cases htimed : packet.timeValid = true
    · have hplaces : out.Places dac margin packet viable := ⟨haccepted, Or.inl htimed⟩
      rw [if_pos htimed, if_pos hplaces]
      show TxOut.ring (ite (windowed = true) _ _) = _
      by_cases hwindowed : windowed = true
      · rw [if_pos hwindowed, if_pos ⟨htimed, hwindowed⟩, assemble_ring]
        rfl
      · rw [if_neg hwindowed, if_neg fun h => hwindowed h.2]
        rfl
    · rw [if_neg htimed]
      show TxOut.ring (ite _ _ _) = _
      by_cases hpos : packet.posValid = true ∧ viable = true ∧ packet.OnGrid out.grid
      · have hplaces : out.Places dac margin packet viable := ⟨haccepted, Or.inr hpos⟩
        rw [if_pos hpos, if_pos hplaces, if_neg fun h => htimed h.1]
        rfl
      · have hplaces : ¬ out.Places dac margin packet viable := fun h => h.2.elim htimed hpos
        rw [if_neg hpos, if_neg hplaces]
        rfl
  · have hplaces : ¬ out.Places dac margin packet viable := fun h => haccepted h.1
    rw [if_neg hplaces]
    unfold handlerOut
    cases hverdict : judge dac out.grid margin out.now64 packet.phytimer with
    | accepted => exact absurd hverdict haccepted
    | _ => rfl

/-! ## What waits -/

/-- Once the packet is written down, what waits in a slot is the packet, or what waited there. -/
theorem RingLedger.waiting_heldAfter {ledger : RingLedger}
    (haccepted : judge dac ledger.out.grid margin ledger.out.now64 packet.phytimer = .accepted) :
    Waiting ledger.out.now64 (ledger.heldAfter dac packet) slot ↔
      ledger.out.Covers dac packet slot ∨ Waiting ledger.out.now64 ledger.held slot := by
  constructor
  · intro h
    obtain ⟨entry, hentry, hslot, hair⟩ := h
    obtain hnew | hold := List.mem_append.mp hentry
    · obtain ⟨round, hround, rfl⟩ := List.mem_map.mp hnew
      exact Or.inl ⟨round, List.mem_range.mp hround, hslot⟩
    · exact Or.inr ⟨entry, (List.mem_filter.mp hold).1, hslot, hair⟩
  · intro h
    by_cases hcovers : ledger.out.Covers dac packet slot
    · obtain ⟨round, hround, hslot⟩ := hcovers
      refine ⟨_, List.mem_append_left _ (List.mem_map.mpr
        ⟨round, List.mem_range.mpr hround, rfl⟩), hslot, ?_⟩
      exact lt_airEnd_of_accepted haccepted round
    · obtain ⟨entry, hentry, rfl, hair⟩ := h.resolve_left hcovers
      exact ⟨entry, List.mem_append_right _ (List.mem_filter.mpr
        ⟨hentry, decide_eq_true hcovers⟩), rfl, hair⟩

/-- A packet that starts and ends with a slot does not have the slot behind it. -/
theorem TxOut.not_covers_behind (htimed : packet.timeValid = true)
    (haligned : packet.Aligned dac out.grid) :
    ¬ out.Covers dac packet
      (ringSlot dac (baseSlot dac out.grid packet.phytimer) (dac.lbMulti packet)) := by
  intro hcovers
  obtain ⟨round, hround, hslot⟩ := hcovers
  have hbounds := dac.lbMulti_bounds packet
  have hmulti : 2 * dac.multiMax < dac.bufcnt := dac.multiMax_lt
  rw [touched, if_pos htimed, haligned.2] at hround
  have hsame := ringSlot_inj (by omega) (by omega) hslot
  omega

/-- No close of the packet does harm exactly when the slots behind the windows are free. -/
theorem RingLedger.harmed_eq_nil_iff {ledger : RingLedger}
    (haccepted : judge dac ledger.out.grid margin ledger.out.now64 packet.phytimer = .accepted) :
    ledger.harmed dac packet windowed = [] ↔
      ledger.Clears dac margin (.consume packet viable windowed) := by
  unfold harmed Clears TxOut.pads
  by_cases hrun : packet.timeValid = true ∧ windowed = true
  · obtain ⟨htimed, hwindowed⟩ := hrun
    have hpart (condition : Prop) [Decidable condition] (slot : Nat) :
        (if condition then [slot] else []).filter
            (fun slot => Waiting ledger.out.now64 (ledger.heldAfter dac packet) slot) = [] ↔
          (condition → ¬ ledger.out.Covers dac packet slot ∧
            ¬ Waiting ledger.out.now64 ledger.held slot) := by
      split
      next hcondition =>
        rw [List.filter_singleton, ← not_or, ← waiting_heldAfter haccepted, Bool.cond_decide]
        simp [hcondition]
      next hcondition => simp [hcondition]
    rw [if_pos ⟨htimed, hwindowed⟩, List.filter_append, List.append_eq_nil_iff, hpart, hpart]
    constructor
    · intro h _ _ _
      refine ⟨fun hactive hint => h.1 ⟨hactive, hint⟩, fun haligned heob => ?_⟩
      exact (h.2 ⟨haligned, heob⟩).2
    · intro h
      obtain ⟨hint, hend⟩ := h haccepted htimed hwindowed
      refine ⟨fun hopen => hint hopen.1 hopen.2, fun hlast => ?_⟩
      exact ⟨TxOut.not_covers_behind htimed hlast.1, hend hlast.1 hlast.2⟩
  · rw [if_neg hrun]
    exact ⟨fun _ _ htimed hwindowed => absurd ⟨htimed, hwindowed⟩ hrun, fun _ => rfl⟩

/-! ## Runs -/

/-- Windowed assembly takes no time, and places no packet. -/
theorem TxOut.assemble_frame (dac : DacRing) (out : TxOut) (packet : TxPacket) :
    (out.assemble dac packet).now64 = out.now64 ∧
      (out.assemble dac packet).placed = out.placed := by
  have hclosed : (if out.Interrupts dac packet then out.winClose else out).now64 = out.now64 ∧
      (if out.Interrupts dac packet then out.winClose else out).placed = out.placed := by
    split
    · exact ⟨out.winClose_frame.2.1, out.winClose_frame.2.2.1⟩
    · exact ⟨rfl, rfl⟩
  have hextended (closed : TxOut) :
      ((closed.winOpen dac packet).winExtend dac packet).now64 = closed.now64 ∧
        ((closed.winOpen dac packet).winExtend dac packet).placed = closed.placed := by
    unfold winOpen
    split <;> exact ⟨rfl, rfl⟩
  unfold assemble
  dsimp only
  split
  · split
    · rw [(winClose_frame _).2.1, (winClose_frame _).2.2.1, (hextended _).1, (hextended _).2]
      exact hclosed
    · rw [(hextended _).1, (hextended _).2]
      exact hclosed
  · exact hclosed

/-- Whatever the verdict, the handler takes no time. -/
theorem TxOut.ruled_now64 (dac : DacRing) (out : TxOut) (packet : TxPacket)
    (viable windowed : Bool) (verdict : Verdict) :
    (out.ruled dac packet viable windowed verdict).now64 = out.now64 := by
  cases verdict with
  | accepted =>
      unfold ruled consumed
      dsimp only
      split
      · split
        · exact (assemble_frame dac _ packet).1
        · rfl
      · split <;> rfl
  | _ => rfl

/-- A packet whose closes do no harm leaves every slot that waits as its packet left it. -/
theorem RingLedger.intact_place {ledger : RingLedger} (hspared : ledger.Spared)
    (hplaces : ledger.out.Places dac margin packet viable)
    (hharmed : ledger.harmed dac packet windowed = []) :
    ∀ entry ∈ ledger.heldAfter dac packet, (ledger.out.now64 : ℤ) < entry.airEnd →
      (ledger.out.handlerOut dac margin packet viable windowed).ring entry.slot = entry.buf := by
  intro entry hentry hair
  have hkept : (ledger.out.handlerOut dac margin packet viable windowed).ring entry.slot =
      place dac ledger.out.grid packet ledger.out.ring entry.slot := by
    rw [TxOut.handlerOut_ring, if_pos hplaces]
    refine RingBuf.zero_of_notMem fun hpad => ?_
    unfold harmed at hharmed
    split at hpad
    next hwindow =>
      rw [if_pos hwindow] at hharmed
      have hwaiting : Waiting ledger.out.now64 (ledger.heldAfter dac packet) entry.slot :=
        ⟨entry, hentry, rfl, hair⟩
      exact List.filter_eq_nil_iff.mp hharmed _ hpad (decide_eq_true hwaiting)
    next => exact List.not_mem_nil hpad
  rw [hkept]
  obtain hnew | hold := List.mem_append.mp hentry
  · obtain ⟨round, -, rfl⟩ := List.mem_map.mp hnew
    rfl
  · obtain ⟨hbefore, hcovers⟩ := List.mem_filter.mp hold
    rw [← hspared.intact entry hbefore hair]
    refine place_of_ne fun round hround hsame => ?_
    exact of_decide_eq_true hcovers ⟨round, hround, hsame.symm⟩

/-- A step that clears the slots behind its windows spares what waits. -/
theorem RingLedger.Spared.next {ledger following : RingLedger} {event : OutEvent}
    (h : ledger.Spared) (hclears : ledger.Clears dac margin event)
    (hnext : ledger.next dac margin event = some following) : following.Spared := by
  obtain ⟨out, hout, rfl⟩ := Option.map_eq_some_iff.mp hnext
  -- only a packet that is placed writes the ring
  cases event with
  | elapse ticks =>
      obtain rfl := Option.some.inj hout
      refine ⟨h.zeroed, fun entry hentry hair => h.intact entry hentry ?_⟩
      change ((ledger.out.now64 + ticks : Nat) : ℤ) < entry.airEnd at hair
      push_cast at hair
      omega
  | remint grid =>
      obtain rfl := Option.some.inj hout
      exact ⟨h.zeroed, h.intact⟩
  | flushStaging scrubRing =>
      obtain rfl := Option.some.inj hout
      refine ⟨h.zeroed, fun entry hentry hair => ?_⟩
      cases scrubRing with
      | true => exact absurd hentry List.not_mem_nil
      | false => exact h.intact entry hentry hair
  | consume packet viable windowed =>
      have hhandler : out = ledger.out.handlerOut dac margin packet viable windowed :=
        (Option.some.inj hout).symm
      have hnow : out.now64 = ledger.out.now64 := by
        rw [hhandler]
        exact TxOut.ruled_now64 dac ledger.out packet viable windowed _
      unfold RingLedger.record
      dsimp only
      split
      next hplaces =>
        have hharmed : ledger.harmed dac packet windowed = [] :=
          (RingLedger.harmed_eq_nil_iff hplaces.1).mpr hclears
        have hintact := RingLedger.intact_place h hplaces hharmed
        rw [← hhandler] at hintact
        refine ⟨?_, fun entry hentry hair => ?_⟩
        · show ledger.harmed dac packet windowed ++ ledger.zeroed = []
          rw [hharmed, h.zeroed]
          rfl
        · rw [hnow] at hair
          exact hintact entry hentry hair
      next hplaces =>
        have hring : out.ring = ledger.out.ring := by
          rw [hhandler, TxOut.handlerOut_ring, if_neg hplaces]
        refine ⟨h.zeroed, fun entry hentry hair => ?_⟩
        rw [hnow] at hair
        rw [hring]
        exact h.intact entry hentry hair

/-- A step after which nothing that waits has been zeroed clears the slots behind its windows. -/
theorem RingLedger.clears_of_zeroed {ledger following : RingLedger} {event : OutEvent}
    (hnext : ledger.next dac margin event = some following) (hzeroed : following.zeroed = []) :
    ledger.Clears dac margin event := by
  obtain ⟨out, hout, rfl⟩ := Option.map_eq_some_iff.mp hnext
  cases event with
  | consume packet viable windowed =>
      by_cases hplaces : ledger.out.Places dac margin packet viable
      · unfold record at hzeroed
        dsimp only at hzeroed
        rw [if_pos hplaces] at hzeroed
        exact (harmed_eq_nil_iff hplaces.1).mp (List.append_eq_nil_iff.mp hzeroed).1
      · intro haccepted htimed
        exact absurd ⟨haccepted, Or.inl htimed⟩ hplaces
  | _ => trivial

/-- In every state of a run no close has zeroed samples of an accepted packet before their air time,
and every slot that waits is as its packet left it, exactly when every packet clears the slots
behind the windows it closes: a packet that interrupts the open window has no slot behind it, and no
earlier packet waits there, nor behind a burst that a packet ends. -/
theorem pads_spare_iff (dac : DacRing) (margin : BitVec 32) (grid : TxGrid)
    (events : List OutEvent) :
    Always (RingLedger.next dac margin) RingLedger.Spared (.init grid) events ↔
      Guarded (RingLedger.next dac margin) (RingLedger.Clears dac margin) (.init grid) events := by
  have hinit : (RingLedger.init grid).Spared :=
    ⟨rfl, fun _ hentry => absurd hentry List.not_mem_nil⟩
  refine always_iff_everyStep ?_ (fun _ h => h) ?_ hinit
  · exact fun _ _ _ h hclears hnext => h.next hclears hnext
  · exact fun _ _ _ _ hnext hspared => RingLedger.clears_of_zeroed hnext hspared.zeroed

/-- A packet that starts half a slot behind an open window interrupts it, and the slot of zeros
takes its start. -/
theorem ragged_successor_zeroed :
    (run (RingLedger.next sampleDac 48) (.init sampleGrid)
        [.consume (sampleTimed 8192) true true, .consume (sampleTimed 8512) true true]).map
      (fun ledger => (ledger.zeroed, ledger.out.ring 66 1)) = some ([66], 0) ∧
    ¬ Always (RingLedger.next sampleDac 48) RingLedger.Spared (.init sampleGrid)
        [.consume (sampleTimed 8192) true true, .consume (sampleTimed 8512) true true] := by
  constructor
  · decide
  · intro halways
    exact absurd (halways.final rfl).zeroed (by decide)

end RfnmDriver.Tx
