import RfnmDriver.Daughterboard.StreamEnables
import RfnmDriver.LaLib.StreamCall

/-!
# The timing report of an apply

With the result of an apply goes a report on the time line: which directions broke, whether the
sample clock was reclocked, and the wire epochs as they were before the stream call. The works clear
and set the bits of their own direction; the reclock bit is set by both and cleared by neither. Read
`reports_iff` first.
-/

namespace RfnmDriver.Daughterboard

open StepSystem LaLib

variable {Other : Type}

/-- `rfnm_dev_work_timing`. -/
structure Timing where
  /-- Bit 0 is the RX break, bit 1 the TX break, and bit 2 the reclock. -/
  brk : BitVec 8
  rxEpoch : BitVec 32
  txEpoch : BitVec 32
  /-- How often the clock had been restarted when `rx_epoch` was read. -/
  rxTaken : Nat
  /-- How often the clock had been restarted when `tx_epoch` was read. -/
  txTaken : Nat

/-- The reclock bit of `timing_break`. -/
def Timing.reclockBit (timing : Timing) : Bool :=
  timing.brk.getLsbD 2

/-- The TX work before its stream call. -/
def Timing.snapshotTx (timing : Timing) (epoch : BitVec 32) (restarts : Nat) : Timing :=
  { timing with brk := timing.brk &&& ~~~0x2#8, txEpoch := epoch, txTaken := restarts }

/-- The RX work before its stream call. -/
def Timing.snapshotRx (timing : Timing) (epoch : BitVec 32) (restarts : Nat) : Timing :=
  { timing with brk := timing.brk &&& ~~~0x1#8, rxEpoch := epoch, rxTaken := restarts }

/-- Both works after the stream call, with the flags it was called with. -/
def Timing.note (timing : Timing) (before after : StreamState) (dac adc : Bool) : Timing :=
  let sent := if after.sendCnt ≠ before.sendCnt then
      timing.brk ||| (if dac then 0x2#8 else 0x0#8) ||| (if adc then 0x1#8 else 0x0#8)
    else timing.brk
  { timing with
    brk := if after.reclockCnt ≠ before.reclockCnt then sent ||| 0x4#8 else sent }

/-- The channels, the rate and the stream, with the report of the last apply. -/
structure Station (Other : Type) where
  table : LiveTable Other
  /-- `rfnm_user_samp_rate_hz`. -/
  userHz : Nat
  stream : StreamState
  timing : Timing

/-- How an apply goes. -/
inductive Course
  /-- Bring-up is not complete. -/
  | refused
  /-- `rfnm_wait_restart_sm_idle` returns this error. -/
  | gaveUp (ret : Int)
  /-- The channels are walked and the stream is called. The epoch is that of the work's direction in
  `rfnm_get_wire_epochs`. -/
  | walked (devices : Nat → Int) (epoch : BitVec 32) (answers : StreamAnswers)

/-- What `rfnm_set_samp_rate_user` asks the others. -/
structure RateAnswers where
  /-- `rfnm_bringup_complete`. -/
  bringupComplete : Bool
  /-- `rfnm_phy_gen_session_ok`. -/
  sessionOk : Bool
  fdxConcurrent : Bool
  synthesizable : Nat → Bool

/-- What happens to a station. -/
inductive StationEvent (Other : Type)
  /-- An apply of a TX list, until its result is there. -/
  | txApply (list : ChList (TxEntry Other)) (course : Course)
  /-- An apply of an RX list, until its result is there. -/
  | rxApply (list : ChList (RxEntry Other)) (course : Course)
  /-- `rfnm_set_samp_rate_user`. -/
  | setRate (freq : Nat) (answers : RateAnswers)
  /-- One of the other writers of the channels. -/
  | write (event : LiveTableEvent Other)
  /-- What others make of the stream word and the clock between two applies. -/
  | outside (session : Session) (dcsFreq sends restarts : Nat)

namespace Station

variable (setup : Setup) (station : Station Other)

/-- The channels after the walk of a TX list. The flags do not depend on what the stream returns. -/
def txWalked (list : ChList (TxEntry Other)) (devices : Nat → Int) (ret : Int) : LiveTable Other :=
  { station.table with
    tx := applyList (setup.tx Other) setup.txCount station.table.tx list (.walked devices ret) }

/-- The channels after the walk of an RX list. -/
def rxWalked (list : ChList (RxEntry Other)) (devices : Nat → Int) (ret : Int) : LiveTable Other :=
  { station.table with
    rx := applyList (setup.rx Other) setup.rxCount station.table.rx list (.walked devices ret) }

/-- The stream call of a work that has walked the channels. -/
def called (walked : LiveTable Other) (answers : StreamAnswers) : Int × StreamState :=
  streamCall station.stream station.userHz walked.dacOn walked.adcOn answers

/-- What the work leaves in the report around its stream call. -/
def noted (walked : LiveTable Other) (snapshot : Timing) (answers : StreamAnswers) : Timing :=
  snapshot.note station.stream (station.called walked answers).2 walked.dacOn
    (rxActive walked.adcOn)

/-- `rfnm_apply_dev_tx_chlist`, and the work it schedules. -/
def txApply (list : ChList (TxEntry Other)) : Course → Station Other
  | .refused =>
      let data := refuse (setup.tx Other).dir station.table.tx.data list
      { station with table := { station.table with tx := { station.table.tx with data := data } } }
  | .gaveUp ret =>
      let tx := applyList (setup.tx Other) setup.txCount station.table.tx list (.gaveUp ret)
      { station with table := { station.table with tx := tx } }
  | .walked devices epoch answers =>
      let walked := station.txWalked setup list devices 0
      let (ret, stream) := station.called walked answers
      { station with
        table := station.txWalked setup list devices ret
        stream := stream
        timing := station.noted walked
          (station.timing.snapshotTx epoch station.stream.restarts) answers }

/-- `rfnm_apply_dev_rx_chlist`, and the work it schedules. -/
def rxApply (list : ChList (RxEntry Other)) : Course → Station Other
  | .refused =>
      let data := refuse (setup.rx Other).dir station.table.rx.data list
      { station with table := { station.table with rx := { station.table.rx with data := data } } }
  | .gaveUp ret =>
      let rx := applyList (setup.rx Other) setup.rxCount station.table.rx list (.gaveUp ret)
      { station with table := { station.table with rx := rx } }
  | .walked devices epoch answers =>
      let walked := station.rxWalked setup list devices 0
      let (ret, stream) := station.called walked answers
      { station with
        table := station.rxWalked setup list devices ret
        stream := stream
        timing := station.noted walked
          (station.timing.snapshotRx epoch station.stream.restarts) answers }

/-- `rfnm_set_samp_rate_user`: the rate is only used by later applies. -/
def setSampRateUser (freq : Nat) (answers : RateAnswers) : Station Other :=
  if !answers.bringupComplete then station
  else if !answers.sessionOk then station
  else if RateAdmitted freq ∧
      sampRateOk answers.fdxConcurrent answers.synthesizable freq = true then
    { station with userHz := freq }
  else station

/-- One step. -/
def next : StationEvent Other → Option (Station Other)
  | .txApply list course => some (station.txApply setup list course)
  | .rxApply list course => some (station.rxApply setup list course)
  | .setRate freq answers => some (station.setSampRateUser freq answers)
  | .write (.txApply _ _) | .write (.rxApply _ _) => none
  | .write event =>
      (station.table.next setup event).map fun table => { station with table := table }
  | .outside session dcsFreq sends restarts =>
      some { station with stream :=
        { station.stream with
          session := session
          dcsFreq := dcsFreq
          sendCnt := station.stream.sendCnt + BitVec.ofNat 32 sends
          restarts := station.stream.restarts + restarts } }

/-- The module init. -/
def init (table : LiveTable Other) (stream : StreamState) : Station Other where
  table := table
  userHz := 122880000
  stream := stream
  timing := ⟨0, 0, 0, 0, 0⟩

/-! ## What a report promises -/

/-- The report of an apply says that the clock was reclocked exactly if the apply restarted it, and
then both of its snapshots were taken before. -/
def Reports (before : Station Other) (event : StationEvent Other) (after : Station Other) : Prop :=
  match event with
  | .txApply _ _ | .rxApply _ _ =>
      (after.timing.reclockBit = true ↔ before.stream.restarts < after.stream.restarts) ∧
        (after.timing.reclockBit = true →
          after.timing.txTaken < after.stream.restarts ∧
            after.timing.rxTaken < after.stream.restarts)
  | _ => True

/-- A stream call that restarts the clock completes a reclock, unless the bit is set from before;
and one that does not finds the bit clear. -/
def CallReported (walked : LiveTable Other) (answers : StreamAnswers) : Prop :=
  if Restarts station.stream station.userHz walked.dacOn walked.adcOn answers then
    station.timing.reclockBit = true ∨
      CompletesReclock station.stream station.userHz walked.dacOn walked.adcOn answers
  else station.timing.reclockBit = false

/-- The apply is reported as it goes. -/
def Reported : StationEvent Other → Prop
  | .txApply list (.walked devices _ answers) =>
      station.CallReported (station.txWalked setup list devices 0) answers
  | .rxApply list (.walked devices _ answers) =>
      station.CallReported (station.rxWalked setup list devices 0) answers
  | .txApply _ _ | .rxApply _ _ => station.timing.reclockBit = false
  | _ => True

instance (before : Station Other) (event : StationEvent Other) (after : Station Other) :
    Decidable (before.Reports event after) := by
  unfold Reports
  split <;> infer_instance

instance (walked : LiveTable Other) (answers : StreamAnswers) :
    Decidable (station.CallReported walked answers) := by
  unfold CallReported
  infer_instance

instance (event : StationEvent Other) : Decidable (station.Reported setup event) := by
  unfold Reported
  split <;> infer_instance

/-! ## The reclock bit -/

variable {setup : Setup} {station following : Station Other} {event : StationEvent Other}

/-- The TX work clears another bit. -/
@[simp] theorem reclockBit_snapshotTx (timing : Timing) (epoch : BitVec 32) (restarts : Nat) :
    (timing.snapshotTx epoch restarts).reclockBit = timing.reclockBit := by
  simp [Timing.snapshotTx, Timing.reclockBit]

/-- So does the RX work. -/
@[simp] theorem reclockBit_snapshotRx (timing : Timing) (epoch : BitVec 32) (restarts : Nat) :
    (timing.snapshotRx epoch restarts).reclockBit = timing.reclockBit := by
  simp [Timing.snapshotRx, Timing.reclockBit]

/-- After the stream call the bit is set if it was before, or if the reclock counter has moved. -/
theorem reclockBit_note (timing : Timing) (before after : StreamState) (dac adc : Bool) :
    (timing.note before after dac adc).reclockBit =
      (timing.reclockBit || decide (after.reclockCnt ≠ before.reclockCnt)) := by
  have hsent : (if after.sendCnt ≠ before.sendCnt then
      timing.brk ||| (if dac then 0x2#8 else 0x0#8) ||| (if adc then 0x1#8 else 0x0#8)
        else timing.brk).getLsbD 2 = timing.brk.getLsbD 2 := by
    split
    · cases dac <;> cases adc <;> simp
    · rfl
  unfold Timing.note Timing.reclockBit
  by_cases hcnt : after.reclockCnt = before.reclockCnt
  · simp only [hcnt, ne_eq, not_true_eq_false, if_false, decide_false, Bool.or_false]
    exact hsent
  · simp only [hcnt, ne_eq, not_false_eq_true, if_true, decide_true, Bool.or_true,
      BitVec.getLsbD_or]
    simp

/-- The reclock counter moves when the stream call completes a reclock. -/
theorem reclockBit_noted (station : Station Other) (walked : LiveTable Other)
    (snapshot : Timing) (answers : StreamAnswers) :
    (station.noted walked snapshot answers).reclockBit = true ↔
      snapshot.reclockBit = true ∨
        CompletesReclock station.stream station.userHz walked.dacOn walked.adcOn answers := by
  have hcnt := @streamCall_reclockCnt station.stream answers station.userHz walked.dacOn
    walked.adcOn
  unfold noted called
  rw [reclockBit_note, hcnt, Bool.or_eq_true, decide_eq_true_eq]
  split <;> simp_all

/-! ## Steps -/

/-- The snapshots were taken no later than now. -/
structure Ordered (station : Station Other) : Prop where
  tx : station.timing.txTaken ≤ station.stream.restarts
  rx : station.timing.rxTaken ≤ station.stream.restarts

/-- The clock is restarted by the call, or not. -/
theorem lt_restarts_called (station : Station Other) (walked : LiveTable Other)
    (answers : StreamAnswers) :
    station.stream.restarts < (station.called walked answers).2.restarts ↔
      Restarts station.stream station.userHz walked.dacOn walked.adcOn answers := by
  unfold called
  rw [streamCall_restarts]
  split <;> simp_all

/-- The report around a stream call says what the call did exactly when the call is one that is
reported. The snapshots are those of before the call. -/
theorem reports_call_iff {walked : LiveTable Other} {snapshot : Timing} (answers : StreamAnswers)
    (hbit : snapshot.reclockBit = station.timing.reclockBit)
    (htx : snapshot.txTaken ≤ station.stream.restarts)
    (hrx : snapshot.rxTaken ≤ station.stream.restarts) :
    (((station.noted walked snapshot answers).reclockBit = true ↔
        station.stream.restarts < (station.called walked answers).2.restarts) ∧
      ((station.noted walked snapshot answers).reclockBit = true →
        snapshot.txTaken < (station.called walked answers).2.restarts ∧
          snapshot.rxTaken < (station.called walked answers).2.restarts)) ↔
      station.CallReported walked answers := by
  have hset := reclockBit_noted station walked snapshot answers
  have hlt := lt_restarts_called station walked answers
  rw [hbit] at hset
  unfold CallReported
  by_cases hrestarts : Restarts station.stream station.userHz walked.dacOn walked.adcOn answers
  · have hless := hlt.mpr hrestarts
    rw [if_pos hrestarts, ← hset]
    refine ⟨fun h => h.1.mpr hless, fun h => ⟨iff_of_true h hless, fun _ => ⟨?_, ?_⟩⟩⟩ <;> omega
  · have hkept := fun hless => hrestarts (hlt.mp hless)
    have hcounted : ¬ CompletesReclock station.stream station.userHz walked.dacOn walked.adcOn
        answers := fun h => hrestarts (restarts_of_completesReclock h)
    simp only [hcounted, or_false] at hset
    rw [if_neg hrestarts, ← Bool.not_eq_true, ← hset]
    exact ⟨fun h hbitSet => hkept (h.1.mp hbitSet),
      fun h => ⟨iff_of_false h hkept, fun hbitSet => absurd hbitSet h⟩⟩

/-- A report that stays as it is says that the clock was not restarted exactly if its bit is
clear. -/
theorem reports_kept_iff (hrestarts : following.stream.restarts = station.stream.restarts)
    (htiming : following.timing = station.timing) :
    ((following.timing.reclockBit = true ↔ station.stream.restarts < following.stream.restarts) ∧
      (following.timing.reclockBit = true →
        following.timing.txTaken < following.stream.restarts ∧
          following.timing.rxTaken < following.stream.restarts)) ↔
      station.timing.reclockBit = false := by
  rw [hrestarts, htiming, ← Bool.not_eq_true]
  refine ⟨fun h hbit => Nat.lt_irrefl _ (h.1.mp hbit), fun h => ?_⟩
  exact ⟨iff_of_false h (Nat.lt_irrefl _), fun hbit => absurd hbit h⟩

/-- From a station whose snapshots lie in the past, an apply reports what it does exactly when it is
one that is reported. -/
theorem next_reports_iff (h : station.Ordered) (hstep : station.next setup event = some following) :
    station.Reports event following ↔ station.Reported setup event := by
  cases event with
  | txApply list course =>
      obtain rfl := Option.some.inj hstep
      cases course with
      | refused => exact reports_kept_iff rfl rfl
      | gaveUp ret => exact reports_kept_iff rfl rfl
      | walked devices epoch answers =>
          exact reports_call_iff answers (reclockBit_snapshotTx _ _ _) le_rfl h.rx
  | rxApply list course =>
      obtain rfl := Option.some.inj hstep
      cases course with
      | refused => exact reports_kept_iff rfl rfl
      | gaveUp ret => exact reports_kept_iff rfl rfl
      | walked devices epoch answers =>
          exact reports_call_iff answers (reclockBit_snapshotRx _ _ _) h.tx le_rfl
  | setRate freq answers => exact Iff.rfl
  | write event => exact Iff.rfl
  | outside session dcsFreq sends restarts => exact Iff.rfl

/-- The clock is never restarted less often. -/
theorem le_restarts_called (walked : LiveTable Other) (answers : StreamAnswers) :
    station.stream.restarts ≤ (station.called walked answers).2.restarts := by
  unfold called
  rw [streamCall_restarts]
  omega

/-- The snapshots stay in the past. -/
theorem next_ordered (h : station.Ordered) (hstep : station.next setup event = some following) :
    following.Ordered := by
  -- the number of restarts only grows, and a report notes it as it is
  cases event with
  | txApply list course =>
      obtain rfl := Option.some.inj hstep
      cases course with
      | refused => exact ⟨h.tx, h.rx⟩
      | gaveUp ret => exact ⟨h.tx, h.rx⟩
      | walked devices epoch answers =>
          exact ⟨le_restarts_called _ answers, h.rx.trans (le_restarts_called _ answers)⟩
  | rxApply list course =>
      obtain rfl := Option.some.inj hstep
      cases course with
      | refused => exact ⟨h.tx, h.rx⟩
      | gaveUp ret => exact ⟨h.tx, h.rx⟩
      | walked devices epoch answers =>
          exact ⟨h.tx.trans (le_restarts_called _ answers), le_restarts_called _ answers⟩
  | setRate freq answers =>
      obtain rfl := Option.some.inj hstep
      unfold setSampRateUser
      split
      · exact h
      · split
        · exact h
        · split
          · exact ⟨h.tx, h.rx⟩
          · exact h
  | write event =>
      have hkept : (station.table.next setup event).map
          (fun table => { station with table := table }) = some following →
            following.Ordered := by
        intro hmap
        obtain ⟨table, -, rfl⟩ := Option.map_eq_some_iff.mp hmap
        exact ⟨h.tx, h.rx⟩
      cases event with
      | txApply list outcome => cases hstep
      | rxApply list outcome => cases hstep
      | park | gain | dc | txStore | rxStore | txSet | rxSet | reset => exact hkept hstep
  | outside session dcsFreq sends restarts =>
      obtain rfl := Option.some.inj hstep
      exact ⟨h.tx.trans (Nat.le_add_right _ _), h.rx.trans (Nat.le_add_right _ _)⟩

/-! ## Runs -/

/-- From the module init on, over any sequence of applies, rates and other writers, every apply
reports what it does to the clock exactly when every apply is one that is reported. -/
theorem reports_iff (setup : Setup) (table : LiveTable Other) (stream : StreamState)
    (events : List (StationEvent Other)) :
    EveryStep (next setup) Reports (init table stream) events ↔
      Guarded (next setup) (Reported setup) (init table stream) events :=
  everyStep_iff_guarded (fun _ _ _ h hstep => next_reports_iff h hstep)
    (fun _ _ _ h _ hstep => next_ordered h hstep) ⟨Nat.zero_le _, Nat.zero_le _⟩

/-- A send that is accepted and published at once. -/
def promptScript : Script :=
  ⟨⟨.accepted true, .nak⟩, ⟨.accepted true, .nak⟩, ⟨.accepted true, .nak⟩⟩

/-- The other modules do all they are asked to. -/
def readyAnswers : StreamAnswers where
  fdxConcurrent := false
  synthesizable _ := true
  runningHas _ := true
  select _ := 0
  swap := ⟨false, promptScript, 0, 0, 0⟩
  reset := ⟨promptScript, 0, true, 0, 0, false, 0, 0, 122880000⟩
  armed := false
  script := promptScript
  sendError := -110

/-- The si5510 driver does not know the clock yet. -/
def bootStream : StreamState := ⟨Session.init, 0, 0, 0, 0⟩

/-- An RX apply reclocks; the same list is applied again, which leaves the clock alone. The second
report still has the reclock bit, with a snapshot from after the reclock. -/
theorem reclock_bit_stays : ¬ ∀ (setup : Setup) (table : LiveTable Unit) (stream : StreamState)
    (events : List (StationEvent Unit)),
      EveryStep (next setup) Reports (init table stream) events := by
  intro h
  have hrun := h sampleSetup sampleTable bootStream
    [.rxApply (tuneRx 900 6300 0 0) (.walked (fun _ => 0) 0 readyAnswers),
      .rxApply (tuneRx 900 6300 0 0) (.walked (fun _ => 0) 1 readyAnswers)]
  revert hrun
  decide +kernel

end Station

end RfnmDriver.Daughterboard
