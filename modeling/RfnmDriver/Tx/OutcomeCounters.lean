import RfnmDriver.Tx.PadZeroing

/-!
# What the TX counters count

Every exit of `rfnm_handler_out` with a packet bumps one outcome counter, and ends at
`tx_consume_done`. `local_tx_ok` is bumped where a packet is placed and again at `tx_consume_done`,
for every packet that gets there; the cc gap counter is bumped for `POS_VALID` packets alone, behind
the judge. The ghost counters beside them are how many packets were consumed, and how many of these
had a cc that did not follow the one before.
-/

namespace RfnmDriver.Tx

open StepSystem

variable {dac : DacRing} {grid : TxGrid} {margin : BitVec 32} {packet : TxPacket}
  {viable windowed : Bool}

/-- The outcome counters. -/
inductive Outcome
  /-- `rfnm_tx_stat_timed_reject`. -/
  | timedReject
  /-- `rfnm_tx_stat_timed_placed`. -/
  | timedPlaced
  /-- `rfnm_tx_stat_mode_reject`. -/
  | modeReject
  /-- `rfnm_tx_stat_pos_placed`. -/
  | posPlaced
  /-- `rfnm_tx_stat_pos_late`. -/
  | posLate
  /-- `rfnm_tx_stat_pos_misaligned`. -/
  | posMisaligned
  /-- `rfnm_tx_stat_unstamped`. -/
  | unstamped
  deriving DecidableEq, Repr

/-- The counters that the handler bumps. -/
structure TxStats where
  outcomes : Outcome → Nat
  /-- `rfnm_tx_stat_cc_gap`. -/
  ccGap : Nat
  /-- `rfnm_stream_stats.local_tx_ok[0]`. -/
  localTxOk : Nat
  /-- `rfnm_tx_last_late_usb_cc`. -/
  lastLateUsbCc : BitVec 64

/-- An outcome counter is bumped. -/
def TxStats.bump (stats : TxStats) (outcome : Outcome) : TxStats :=
  { stats with
    outcomes := Function.update stats.outcomes outcome (stats.outcomes outcome + 1) }

/-- `rfnm_stream_stats.local_tx_ok[0]++`. -/
def TxStats.ok (stats : TxStats) : TxStats :=
  { stats with localTxOk := stats.localTxOk + 1 }

/-- The judge drops the packet. -/
def TxStats.drop (stats : TxStats) (packet : TxPacket) : TxStats :=
  stats.bump (if packet.timeValid then .timedReject else .posLate)

/-- The cc of a `POS_VALID` packet is compared with the one expected. -/
def TxStats.compareCc (stats : TxStats) (usbCc : BitVec 64) (packet : TxPacket) : TxStats :=
  { stats with ccGap := if packet.usbCc ≠ usbCc then stats.ccGap + 1 else stats.ccGap }

/-- The exit that a packet the judge accepts takes, up to `tx_consume_done`. -/
def TxStats.accepted (grid : TxGrid) (usbCc : BitVec 64) (stats : TxStats) (packet : TxPacket)
    (viable : Bool) : TxStats :=
  if packet.timeValid then (stats.bump .timedPlaced).ok
  else if packet.posValid then
    if ¬ viable then (stats.compareCc usbCc packet).bump .modeReject
    else if ¬ packet.OnGrid grid then (stats.compareCc usbCc packet).bump .posMisaligned
    else ((stats.compareCc usbCc packet).bump .posPlaced).ok
  else stats.bump .unstamped

/-- The counters that the handler bumps for a packet, by the verdict on it. The last bump of a
packet that is consumed is that of `tx_consume_done`. -/
def TxStats.ruled (grid : TxGrid) (usbCc : BitVec 64) (stats : TxStats) (packet : TxPacket)
    (viable : Bool) : Verdict → TxStats
  | .late => ({ stats.drop packet with lastLateUsbCc := packet.usbCc }).ok
  | .wild => (stats.drop packet).ok
  | .early => stats
  | .accepted => (stats.accepted grid usbCc packet viable).ok

/-- The consumer and its counters, with the packets consumed so far and the gaps in their cc. -/
structure Books where
  out : TxOut
  stats : TxStats
  consumed : Nat
  gaps : Nat

/-- The handler takes the packet off its queue, whatever it then does with it. -/
def TxOut.Consumes (dac : DacRing) (margin : BitVec 32) (out : TxOut) (packet : TxPacket) : Prop :=
  judge dac out.grid margin out.now64 packet.phytimer ≠ .early

instance (dac : DacRing) (margin : BitVec 32) (out : TxOut) (packet : TxPacket) :
    Decidable (out.Consumes dac margin packet) :=
  inferInstanceAs (Decidable (_ ≠ _))

/-- What the handler does with a packet on which the judge has ruled, counted. -/
def Books.ruled (dac : DacRing) (books : Books) (packet : TxPacket) (viable windowed : Bool)
    (verdict : Verdict) : Books where
  out := books.out.ruled dac packet viable windowed verdict
  stats := books.stats.ruled books.out.grid books.out.usbCc packet viable verdict
  consumed := if verdict ≠ .early then books.consumed + 1 else books.consumed
  gaps :=
    if verdict ≠ .early ∧ packet.usbCc ≠ books.out.usbCc then books.gaps + 1 else books.gaps

/-- One step of the consumer. -/
def Books.next (dac : DacRing) (margin : BitVec 32) (books : Books) : OutEvent → Option Books
  | .consume packet viable windowed => some (books.ruled dac packet viable windowed
      (judge dac books.out.grid margin books.out.now64 packet.phytimer))
  | event => (books.out.next dac margin event).map fun out => { books with out := out }

/-- The TX side has started, and nothing has been counted. -/
def Books.init (grid : TxGrid) : Books where
  out := .init grid
  stats := { outcomes := fun _ => 0, ccGap := 0, localTxOk := 0, lastLateUsbCc := 0 }
  consumed := 0
  gaps := 0

/-! ## What the counters are for -/

/-- A step that consumes a packet bumps one outcome counter, once. Any other bumps none. -/
def OneOutcome (dac : DacRing) (margin : BitVec 32) (books : Books) (event : OutEvent)
    (following : Books) : Prop :=
  match event with
  | .consume packet _ _ =>
      if books.out.Consumes dac margin packet then
        ∃ outcome, following.stats.outcomes =
          Function.update books.stats.outcomes outcome (books.stats.outcomes outcome + 1)
      else following.stats.outcomes = books.stats.outcomes
  | _ => following.stats.outcomes = books.stats.outcomes

/-- `local_tx_ok` is the number of packets placed in the ring. -/
def Books.OkExact (books : Books) : Prop :=
  books.stats.localTxOk = books.out.placed.length

/-- The cc gap counter is the number of packets whose cc did not follow the one before. -/
def Books.GapExact (books : Books) : Prop :=
  books.stats.ccGap = books.gaps

/-- The step consumes no packet. -/
def Books.Idle (dac : DacRing) (margin : BitVec 32) (books : Books) : OutEvent → Prop
  | .consume packet _ _ => ¬ books.out.Consumes dac margin packet
  | _ => True

/-- A packet that is consumed follows the cc before it, or is a `POS_VALID` one that the judge
accepts. -/
def Books.GapSeen (dac : DacRing) (margin : BitVec 32) (books : Books) : OutEvent → Prop
  | .consume packet _ _ => books.out.Consumes dac margin packet → packet.usbCc ≠ books.out.usbCc →
      judge dac books.out.grid margin books.out.now64 packet.phytimer = .accepted ∧
        packet.timeValid = false ∧ packet.posValid = true
  | _ => True

/-- Every counter is the number of what it counts. -/
structure Books.Exact (books : Books) : Prop where
  ok : books.OkExact
  gap : books.GapExact

/-! ## What a packet adds -/

variable {out : TxOut} {stats : TxStats} {usbCc : BitVec 64} {verdict : Verdict}

/-- A packet that is consumed bumps one outcome counter. -/
theorem TxStats.ruled_outcomes (h : verdict ≠ .early) :
    ∃ outcome, (stats.ruled grid usbCc packet viable verdict).outcomes =
      Function.update stats.outcomes outcome (stats.outcomes outcome + 1) := by
  cases verdict with
  | late => exact ⟨_, rfl⟩
  | wild => exact ⟨_, rfl⟩
  | early => exact absurd rfl h
  | accepted =>
      unfold ruled accepted
      dsimp only
      split
      · exact ⟨.timedPlaced, rfl⟩
      · split
        · split
          · exact ⟨.modeReject, rfl⟩
          · split
            · exact ⟨.posMisaligned, rfl⟩
            · exact ⟨.posPlaced, rfl⟩
        · exact ⟨.unstamped, rfl⟩

/-- A packet that is consumed bumps `local_tx_ok` once, and once more where it is placed. -/
theorem TxStats.ruled_localTxOk (dac : DacRing) (out : TxOut) (stats : TxStats)
    (usbCc : BitVec 64) (packet : TxPacket) (viable windowed : Bool) (h : verdict ≠ .early) :
    (stats.ruled out.grid usbCc packet viable verdict).localTxOk + out.placed.length =
      stats.localTxOk + 1 + (out.ruled dac packet viable windowed verdict).placed.length := by
  cases verdict with
  | late => rfl
  | wild => rfl
  | early => exact absurd rfl h
  | accepted =>
      have hplaced : (if windowed then (out.placePacket dac packet).assemble dac packet
          else out.placePacket dac packet).placed.length = out.placed.length + 1 := by
        split
        · rw [(TxOut.assemble_frame dac _ packet).2]
          rfl
        · rfl
      unfold ruled accepted TxOut.ruled
      dsimp only
      -- a consumed packet counts once as it is, and once more with the stamp it is placed by
      by_cases htimed : packet.timeValid = true
      · rw [if_pos htimed, if_pos htimed]
        show stats.localTxOk + 1 + 1 + _ = _ + List.length (TxOut.placed (ite _ _ _))
        omega
      · rw [if_neg htimed, if_neg htimed]
        by_cases hplace : packet.posValid = true ∧ viable = true ∧ packet.OnGrid out.grid
        · rw [if_pos hplace, if_pos hplace.1, if_neg (not_not.mpr hplace.2.1),
            if_neg (not_not.mpr hplace.2.2)]
          show stats.localTxOk + 1 + 1 + _ = _ + (out.placed.length + 1)
          omega
        · rw [if_neg hplace]
          split
          next hpos =>
            split
            next => rfl
            next hviable =>
              rw [if_pos fun hgrid => hplace ⟨hpos, not_not.mp hviable, hgrid⟩]
              rfl
          next => rfl

/-- The cc gap counter is bumped for a `POS_VALID` packet that the judge accepts, and no other. -/
theorem TxStats.ruled_ccGap :
    (stats.ruled grid usbCc packet viable verdict).ccGap =
      if (verdict = .accepted ∧ packet.timeValid = false ∧ packet.posValid = true) ∧
          packet.usbCc ≠ usbCc then
        stats.ccGap + 1
      else stats.ccGap := by
  cases verdict with
  | accepted =>
      unfold ruled accepted
      dsimp only
      cases htimed : packet.timeValid with
      | true => simp [ok, bump]
      | false =>
          cases hpos : packet.posValid with
          | false => simp [ok, bump]
          | true =>
              have hcompare (outcome : Outcome) :
                  ((stats.compareCc usbCc packet).bump outcome).ccGap =
                    if packet.usbCc ≠ usbCc then stats.ccGap + 1 else stats.ccGap := rfl
              simp only [Bool.false_eq_true, if_false, if_true, true_and]
              split
              · exact hcompare .modeReject
              · split
                · exact hcompare .posMisaligned
                · exact hcompare .posPlaced
  | _ => exact (if_neg fun h => Verdict.noConfusion h.1.1).symm

/-! ## Runs -/

/-- `local_tx_ok` is the packets consumed and the packets placed. -/
def Books.OkSum (books : Books) : Prop :=
  books.stats.localTxOk = books.consumed + books.out.placed.length

/-- What holds of the counters as long as no packet is consumed. -/
structure Books.Unused (books : Books) : Prop where
  sum : books.OkSum
  consumed : books.consumed = 0
  gap : books.GapExact

variable {books following : Books} {event : OutEvent}

/-- A packet on which the judge has ruled keeps the sum. -/
theorem Books.OkSum.ruled (h : books.OkSum) :
    (books.ruled dac packet viable windowed verdict).OkSum := by
  unfold OkSum at h ⊢
  by_cases hearly : verdict = .early
  · rw [hearly]
    exact h
  · have hok := TxStats.ruled_localTxOk dac books.out books.stats books.out.usbCc packet viable
      windowed hearly
    show _ = (if verdict ≠ .early then books.consumed + 1 else books.consumed) +
      (books.out.ruled dac packet viable windowed verdict).placed.length
    rw [if_pos hearly]
    show (books.stats.ruled books.out.grid books.out.usbCc packet viable verdict).localTxOk = _
    omega

/-- Every step keeps the sum. -/
theorem Books.OkSum.next (h : books.OkSum)
    (hnext : books.next dac margin event = some following) : following.OkSum := by
  cases event with
  | consume packet viable windowed =>
      obtain rfl := Option.some.inj hnext
      exact h.ruled
  | _ =>
      obtain rfl := Option.some.inj hnext
      exact h

/-- Only a packet that is consumed is counted as such. -/
theorem Books.idle_iff (hnext : books.next dac margin event = some following) :
    books.Idle dac margin event ↔ following.consumed = books.consumed := by
  cases event with
  | consume packet viable windowed =>
      obtain rfl := Option.some.inj hnext
      show ¬ books.out.Consumes dac margin packet ↔ (if books.out.Consumes dac margin packet then
        books.consumed + 1 else books.consumed) = books.consumed
      split
      next hconsumes => exact iff_of_false (not_not.mpr hconsumes) (by omega)
      next hearly => exact iff_of_true hearly rfl
  | _ =>
      obtain rfl := Option.some.inj hnext
      exact iff_of_true trivial rfl

/-- The gaps and their counter stay together exactly when a packet with a gap is one whose gap is
seen. -/
theorem Books.gapSeen_iff (h : books.GapExact)
    (hnext : books.next dac margin event = some following) :
    following.GapExact ↔ books.GapSeen dac margin event := by
  cases event with
  | consume packet viable windowed =>
      obtain rfl := Option.some.inj hnext
      unfold GapExact at h ⊢
      show TxStats.ccGap (TxStats.ruled _ _ _ _ _ _) = (if books.out.Consumes dac margin packet ∧
        packet.usbCc ≠ books.out.usbCc then books.gaps + 1 else books.gaps) ↔
          (books.out.Consumes dac margin packet → packet.usbCc ≠ books.out.usbCc → _)
      rw [TxStats.ruled_ccGap, h]
      by_cases hgap : packet.usbCc = books.out.usbCc
      · rw [if_neg fun hseen => hseen.2 hgap, if_neg fun hconsumes => hconsumes.2 hgap]
        exact iff_of_true rfl fun _ hne => absurd hgap hne
      -- the counter sees a gap only at a position-stamped packet that is accepted
      · by_cases hseen : judge dac books.out.grid margin books.out.now64 packet.phytimer =
            .accepted ∧ packet.timeValid = false ∧ packet.posValid = true
        · have hconsumes : books.out.Consumes dac margin packet := by
            unfold TxOut.Consumes
            rw [hseen.1]
            exact Verdict.noConfusion
          rw [if_pos ⟨hseen, hgap⟩, if_pos ⟨hconsumes, hgap⟩]
          exact iff_of_true rfl fun _ _ => hseen
        · rw [if_neg fun hall => hseen hall.1]
          by_cases hconsumes : books.out.Consumes dac margin packet
          · rw [if_pos ⟨hconsumes, hgap⟩]
            exact iff_of_false (by omega) fun hall => hseen (hall hconsumes hgap)
          · rw [if_neg fun hall => hconsumes hall.1]
            exact iff_of_true rfl fun hall => absurd hall hconsumes
  | _ =>
      obtain rfl := Option.some.inj hnext
      exact iff_of_true h trivial

/-- Every step that consumes a packet bumps one outcome counter. -/
theorem Books.oneOutcome (hnext : books.next dac margin event = some following) :
    OneOutcome dac margin books event following := by
  cases event with
  | consume packet viable windowed =>
      obtain rfl := Option.some.inj hnext
      unfold OneOutcome
      dsimp only
      split
      next hconsumes => exact TxStats.ruled_outcomes hconsumes
      next hearly =>
        have hverdict : judge dac books.out.grid margin books.out.now64 packet.phytimer =
            .early := not_not.mp hearly
        rw [hverdict]
        rfl
  | _ =>
      obtain rfl := Option.some.inj hnext
      rfl

/-- Each consumed packet bumps one outcome counter. `local_tx_ok` is bumped for every packet that is
consumed and for every one placed, so the counters are exact as long as none is consumed; and the
gap counter is exact as long as every consumed packet with a gap in its cc is a `POS_VALID` one that
the judge accepts. -/
theorem tx_counters_iff (dac : DacRing) (margin : BitVec 32) (grid : TxGrid)
    (events : List OutEvent) :
    EveryStep (Books.next dac margin) (OneOutcome dac margin) (.init grid) events ∧
    (Always (Books.next dac margin) Books.Exact (.init grid) events ↔
      Guarded (Books.next dac margin) (Books.Idle dac margin) (.init grid) events) ∧
    (Always (Books.next dac margin) Books.GapExact (.init grid) events ↔
      Guarded (Books.next dac margin) (Books.GapSeen dac margin) (.init grid) events) := by
  have hunused : (Books.init grid).Unused := ⟨rfl, rfl, rfl⟩
  have hgapless : (Books.init grid).GapExact := rfl
  -- a packet that is placed counts twice, so the sums agree only while none is consumed
  refine ⟨everyStep_of_forall fun _ _ _ => Books.oneOutcome, ?_, ?_⟩
  · refine always_iff_everyStep ?_ ?_ ?_ hunused
    · intro books event following h hidle hnext
      have hconsumed := ((Books.idle_iff hnext).mp hidle).trans h.consumed
      refine ⟨h.sum.next hnext, hconsumed, (Books.gapSeen_iff h.gap hnext).mpr ?_⟩
      cases event with
      | consume packet viable windowed => exact fun hconsumes => absurd hconsumes hidle
      | _ => trivial
    · intro books h
      have hsum := h.sum
      have hnone := h.consumed
      unfold Books.OkSum at hsum
      refine ⟨?_, h.gap⟩
      unfold Books.OkExact
      omega
    · intro books event following h hnext hexact
      have hsum := h.sum.next hnext
      have hnone := h.consumed
      have hok := hexact.ok
      unfold Books.OkSum at hsum
      unfold Books.OkExact at hok
      rw [Books.idle_iff hnext]
      omega
  · refine always_iff_everyStep ?_ (fun _ h => h) ?_ hgapless
    · exact fun _ _ _ h hseen hnext => (Books.gapSeen_iff h hnext).mpr hseen
    · exact fun _ _ _ h hnext hgap => (Books.gapSeen_iff h hnext).mp hgap

/-- Two timed packets, of which one is late and the other placed, count three times as ok; and the
gap in their cc is not counted. -/
theorem late_packet_counted_ok :
    (run (Books.next sampleDac 48) (.init sampleGrid)
        [.consume (sampleTimed 0) true false,
          .consume { sampleTimed 8192 with usbCc := 7 } true false]).map
      (fun books => (books.stats.localTxOk, books.out.placed.length, books.stats.ccGap,
        books.gaps)) = some (3, 1, 0, 1) := by
  decide

end RfnmDriver.Tx
