import RfnmDriver.Library.StepSystem
import RfnmDriver.Lime.Board

/-!
# The skip caches of the Lime driver

An apply leaves out a chip write when the last value written was the same. Four of the values are
file-level variables, although the driver can be bound to two boards, and the bandwidth of the RX
filter is remembered in the applied channel, which a filter calibration leaves as it was. `Ledger`
records beside the driver which board each variable was written for. `skips_sound_of_attributed`
says that no write is left out wrongly as long as a value is only taken for known on the board it
was written for; `tune_skipped_on_other_board` is an apply that leaves the receiver of the second
board untuned.
-/

namespace RfnmDriver.Lime

open StepSystem RegisterFile

/-! ## The effect of an apply on the radio -/

namespace Radio

variable (radio : Radio)

theorem setPathRfe_eq (want : RfePath) :
    radio.setPathRfe want =
      { cache := { radio.cache with rxLastPathRfe := some want }
        chip :=
          { radio.chip with
            pathRfe := if radio.cache.rxLastPathRfe = some want then radio.chip.pathRfe
              else some want } } := by
  unfold setPathRfe
  split
  case isTrue h => rw [← h]
  case isFalse => rfl

theorem setRxLpf_eq (applied want : Int) :
    radio.setRxLpf applied want =
      { radio with
        chip :=
          { radio.chip with rxLpf := if want = applied then radio.chip.rxLpf else some want } } := by
  unfold setRxLpf
  split <;> rfl

theorem setRfeLna_eq (lnaRaw : Int) :
    radio.setRfeLna lnaRaw =
      { cache := { radio.cache with rxLastLnaDb := some lnaRaw }
        chip :=
          { radio.chip with
            rfeLna := if radio.cache.rxLastLnaDb = some lnaRaw then radio.chip.rfeLna
              else some lnaRaw } } := by
  unfold setRfeLna
  split
  case isTrue h => rw [← h]
  case isFalse => rfl

theorem setRbbPga_eq (pgaDb : Int) :
    radio.setRbbPga pgaDb =
      { cache := { radio.cache with rxLastPgaDb := some pgaDb }
        chip :=
          { radio.chip with
            rbbPga := if radio.cache.rxLastPgaDb = some pgaDb then radio.chip.rbbPga
              else some pgaDb } } := by
  unfold setRbbPga
  split
  case isTrue h => rw [← h]
  case isFalse => rfl

end Radio

/-! ## Skips -/

/-- The settings whose last value is a file-level variable. -/
inductive Setting
  | sxr
  | sxt
  | pathRfe
  | rfeLna
  | rbbPga
  deriving DecidableEq, Repr

instance (property : Setting → Prop) [DecidablePred property] :
    Decidable (∀ setting, property setting) :=
  decidable_of_iff
    (property .sxr ∧ property .sxt ∧ property .pathRfe ∧ property .rfeLna ∧ property .rbbPga)
    ⟨fun h setting => by cases setting <;> simp only [h],
      fun h => ⟨h _, h _, h _, h _, h _⟩⟩

namespace Radio

variable (radio : Radio)

/-- What the variables say of the setting is so on the chip. -/
def Holds : Setting → Prop
  | .sxr => radio.cache.sxrLastHz ≠ 0 → radio.chip.sxr = some radio.cache.sxrLastHz
  | .sxt => radio.cache.sxtLastHz ≠ 0 → radio.chip.sxt = some radio.cache.sxtLastHz
  | .pathRfe => ∀ path ∈ radio.cache.rxLastPathRfe, radio.chip.pathRfe = some path
  | .rfeLna => ∀ lnaRaw ∈ radio.cache.rxLastLnaDb, radio.chip.rfeLna = some lnaRaw
  | .rbbPga => ∀ pgaDb ∈ radio.cache.rxLastPgaDb, radio.chip.rbbPga = some pgaDb

end Radio

namespace Driver

variable (params : Params) (driver : Driver) (slot : Slot)

/-- The PGA gain of an RX apply. -/
def rxPga (ch : RxCh) : Int :=
  pgaDb params (driver.board slot).txS ch (dcTrim ch driver.cache.rxDcTrimHz)

/-- The settings that an RX apply finds in the variables. The gains are looked up only where the
synthesizer was not tuned: the tune drops them. -/
def rxHits (ch : RxCh) : Setting → Bool
  | .sxr => driver.cache.sxrLastHz = ch.freq
  | .sxt => false
  | .pathRfe => driver.cache.rxLastPathRfe = some (wantPath (driver.board slot).txS ch)
  | .rfeLna => driver.cache.sxrLastHz = ch.freq &&
      driver.cache.rxLastLnaDb = some (lnaRaw (driver.board slot).txS ch)
  | .rbbPga => driver.cache.sxrLastHz = ch.freq &&
      driver.cache.rxLastPgaDb = some (driver.rxPga params slot ch)

/-- The settings it gets to; a tune that is refused ends the apply. -/
def rxReaches (ch : RxCh) (tune : Tune) : Setting → Bool
  | .sxr | .pathRfe => true
  | .sxt => false
  | .rfeLna | .rbbPga => driver.rxAccepts ch tune

/-- The bandwidth is the one of the applied channel. -/
def lpfHits (ch : RxCh) : Bool := ch.rficLpfBw = (driver.board slot).rxS.rficLpfBw

/-- The chip already has what the RX apply does not write. Each setting is looked at where the
apply comes to it. -/
def RxSkipsSound (ch : RxCh) (tune : Tune) : Prop :=
  let board := driver.board slot
  let want := wantPath board.txS ch
  let path := driver.rxPath slot ch
  let tuned := driver.rxTuned slot ch tune
  ((driver.radio slot).cache.rxLastPathRfe = some want → board.chip.pathRfe = some want) ∧
    (path.cache.sxrLastHz = ch.freq → path.chip.sxr = some ch.freq) ∧
    (driver.rxAccepts ch tune →
      (ch.rficLpfBw = board.rxS.rficLpfBw → tuned.chip.rxLpf = some ch.rficLpfBw) ∧
      (tuned.cache.rxLastLnaDb = some (lnaRaw board.txS ch) →
        tuned.chip.rfeLna = some (lnaRaw board.txS ch)) ∧
      (tuned.cache.rxLastPgaDb = some (driver.rxPga params slot ch) →
        tuned.chip.rbbPga = some (driver.rxPga params slot ch)))

/-- The chip already has the frequency that a TX apply does not tune to. -/
def TxSkipSound (ch : TxCh) : Prop :=
  ch.enable ≠ .rfOff → driver.cache.sxtLastHz = ch.freq →
    (driver.board slot).chip.sxt = some ch.freq

/-- No apply leaves out a write wrongly. -/
def SkipsSound : Event → Prop
  | .txSet slot ch _ => (driver.board slot).txS.isSome → driver.TxSkipSound slot ch
  | .rxSet slot ch tune => driver.RxSkipsSound params slot ch tune
  | .lpfCal bwMhz left succeeds tune =>
      calRuns bwMhz && succeeds →
        (driver.calibrated bwMhz left).RxSkipsSound params .primary (driver.board .primary).rxCh
          tune
  | .rxWant .. | .reset => True

instance (ch : RxCh) (tune : Tune) : Decidable (driver.RxSkipsSound params slot ch tune) :=
  inferInstanceAs (Decidable ((_ → _) ∧ (_ → _) ∧ (_ → (_ → _) ∧ (_ → _) ∧ (_ → _))))

instance (ch : TxCh) : Decidable (driver.TxSkipSound slot ch) :=
  inferInstanceAs (Decidable (_ → _ → _))

instance (event : Event) : Decidable (driver.SkipsSound params event) :=
  match event with
  | .txSet .. => inferInstanceAs (Decidable (_ → driver.TxSkipSound _ _))
  | .rxSet .. => inferInstanceAs (Decidable (driver.RxSkipsSound params _ _ _))
  | .lpfCal .. => inferInstanceAs (Decidable (_ → RxSkipsSound params _ _ _ _))
  | .rxWant .. | .reset => inferInstanceAs (Decidable True)

end Driver

/-! ## The ledger -/

/-- The driver, and what it does not keep: the board each variable was last written for, and the
boards whose RX filter was set since the last calibration. -/
structure Ledger where
  driver : Driver
  writer : Setting → Option Slot
  lpfSet : Slot → Bool

namespace Ledger

variable (params : Params) (ledger : Ledger)

/-- A TX apply. -/
def txSet (slot : Slot) (ch : TxCh) (tune : Tune) : Ledger :=
  let hit : Bool := ch.enable ≠ .rfOff && ledger.driver.cache.sxtLastHz = ch.freq
  { ledger with
    driver := (ledger.driver.txSet params slot ch tune).1
    writer := fun setting =>
      if setting = .sxt && !hit then some slot else ledger.writer setting }

/-- An RX apply. -/
def rxSet (slot : Slot) (ch : RxCh) (tune : Tune) : Ledger :=
  let driver := ledger.driver
  { driver := (driver.rxSet params slot ch tune).1
    writer := fun setting =>
      if driver.rxReaches ch tune setting && !driver.rxHits params slot ch setting then some slot
      else ledger.writer setting
    lpfSet := fun other =>
      (other = slot && driver.rxAccepts ch tune && !driver.lpfHits slot ch) ||
        ledger.lpfSet other }

/-- The MCU runs. -/
def calibrated (bwMhz : Nat) (left : Lms) : Ledger :=
  { ledger with
    driver := ledger.driver.calibrated bwMhz left
    lpfSet := fun other => !(other = .primary && Driver.calRuns bwMhz) && ledger.lpfSet other }

/-- One event, recorded. -/
def step : Event → Ledger
  | .txSet slot ch tune =>
      if (ledger.driver.board slot).txS.isSome then ledger.txSet params slot ch tune else ledger
  | .rxSet slot ch tune => ledger.rxSet params slot ch tune
  | .lpfCal bwMhz left succeeds tune =>
      if Driver.calRuns bwMhz && succeeds then
        (ledger.calibrated bwMhz left).rxSet params .primary (ledger.driver.board .primary).rxCh tune
      else ledger.calibrated bwMhz left
  | .rxWant slot ch => { ledger with driver := ledger.driver.rxWant slot ch }
  | .reset => { ledger with driver := ledger.driver.resetSm }

/-- Every event is enabled. -/
def next (ledger : Ledger) (event : Event) : Option Ledger := some (ledger.step params event)

/-- The recording changes nothing about the driver. -/
theorem step_driver (event : Event) :
    (ledger.step params event).driver = ledger.driver.step params event := by
  cases event with
  | txSet slot ch tune =>
      dsimp only [step, Driver.step]
      split <;> rfl
  | rxSet slot ch tune => rfl
  | rxWant slot ch => rfl
  | lpfCal bwMhz left succeeds tune =>
      dsimp only [step, Driver.step, Driver.lpfCal]
      split <;> rfl
  | reset => rfl

/-- Nothing is written for any board at the probe. -/
def probed : Ledger := ⟨.probed, fun _ => none, fun _ => false⟩

/-! ## The condition -/

/-- An RX apply takes a value for known only on the board it was written for: what it finds in the
variables was written for its board, a frequency it finds is one (0 stands for none), and the
bandwidth it finds was set on the board since its last calibration. -/
def RxAttributed (slot : Slot) (ch : RxCh) (tune : Tune) : Prop :=
  (∀ setting, ledger.driver.rxReaches ch tune setting →
      ledger.driver.rxHits params slot ch setting → ledger.writer setting = some slot) ∧
    (ledger.driver.rxHits params slot ch .sxr → ch.freq ≠ 0) ∧
    (ledger.driver.rxAccepts ch tune → ledger.driver.lpfHits slot ch → ledger.lpfSet slot)

/-- The same of an event. -/
def Attributed : Event → Prop
  | .txSet slot ch _ =>
      (ledger.driver.board slot).txS.isSome → ch.enable ≠ .rfOff →
        ledger.driver.cache.sxtLastHz = ch.freq →
        ledger.writer .sxt = some slot ∧ ch.freq ≠ 0
  | .rxSet slot ch tune => ledger.RxAttributed params slot ch tune
  | .lpfCal bwMhz left succeeds tune =>
      Driver.calRuns bwMhz && succeeds →
        (ledger.calibrated bwMhz left).RxAttributed params .primary
          (ledger.driver.board .primary).rxCh tune
  | .rxWant .. | .reset => True

end Ledger

instance (params : Params) (ledger : Ledger) (slot : Slot) (ch : RxCh) (tune : Tune) :
    Decidable (ledger.RxAttributed params slot ch tune) :=
  inferInstanceAs (Decidable ((∀ _, _ → _ → _ = _) ∧ (_ → _) ∧ (_ → _ → _)))

instance (params : Params) (ledger : Ledger) (event : Event) :
    Decidable (ledger.Attributed params event) :=
  match event with
  | .txSet .. => inferInstanceAs (Decidable (_ → _ → _ → _ ∧ _))
  | .rxSet .. => inferInstanceAs (Decidable (ledger.RxAttributed params _ _ _))
  | .lpfCal .. => inferInstanceAs (Decidable (_ → Ledger.RxAttributed params _ _ _ _))
  | .rxWant .. | .reset => inferInstanceAs (Decidable True)

/-! ## What an apply does to a setting -/

namespace Driver

variable (params : Params) (driver : Driver) (slot : Slot)

theorem rxPath_eq (ch : RxCh) :
    driver.rxPath slot ch =
      { cache := { driver.cache with rxLastPathRfe := some (wantPath (driver.board slot).txS ch) }
        chip :=
          { (driver.board slot).chip with
            pathRfe :=
              if driver.cache.rxLastPathRfe = some (wantPath (driver.board slot).txS ch) then
                (driver.board slot).chip.pathRfe
              else some (wantPath (driver.board slot).txS ch)
            loopGain := (driver.rxPath slot ch).chip.loopGain } } := by
  dsimp only [rxPath, radio]
  split <;> simp [Radio.setPathRfe_eq, Radio.setLoopGain]

theorem rxTuned_hit {ch : RxCh} {tune : Tune} (h : driver.cache.sxrLastHz = ch.freq) :
    driver.rxTuned slot ch tune = driver.rxPath slot ch := by
  unfold rxTuned Radio.tuneRx
  rw [if_pos ((driver.rxPath_sxrLastHz slot ch).trans h)]

theorem rxTuned_locked {ch : RxCh} (h : driver.cache.sxrLastHz ≠ ch.freq) :
    driver.rxTuned slot ch .locked =
      { cache := { Radio.rxStageCacheDrop driver.cache with sxrLastHz := ch.freq }
        chip := { (driver.rxPath slot ch).chip with sxr := some ch.freq } } := by
  unfold rxTuned Radio.tuneRx
  rw [if_neg (by rwa [rxPath_sxrLastHz]), rxPath_eq]
  rfl

theorem rxTuned_refused {ch : RxCh} (h : driver.cache.sxrLastHz ≠ ch.freq) :
    driver.rxTuned slot ch .refused =
      { cache := { (driver.rxPath slot ch).cache with sxrLastHz := 0 }
        chip := { (driver.rxPath slot ch).chip with sxr := none } } := by
  unfold rxTuned Radio.tuneRx
  rw [if_neg (by rwa [rxPath_sxrLastHz])]

theorem rxStages_eq (ch : RxCh) (radio : Radio) :
    driver.rxStages params slot ch radio =
      let board := driver.board slot
      let trim := dcTrim ch radio.cache.rxDcTrimHz
      let lna := lnaRaw board.txS ch
      let pga : Int := pgaDb params board.txS ch trim
      { cache :=
          { radio.cache with
            rxDcTrimHz := trim, rxLastLnaDb := some lna, rxLastPgaDb := some pga }
        chip :=
          { radio.chip with
            rxLpf := if driver.lpfHits slot ch then radio.chip.rxLpf else some ch.rficLpfBw
            rfeLna := if radio.cache.rxLastLnaDb = some lna then radio.chip.rfeLna else some lna
            rbbPga := if radio.cache.rxLastPgaDb = some pga then radio.chip.rbbPga
              else some pga } } := by
  simp [rxStages, Radio.setRxLpf_eq, Radio.setRfeLna_eq, Radio.setRbbPga_eq, lpfHits]

/-- The variables and the chip of the board after an RX apply. -/
def rxRadio (ch : RxCh) (tune : Tune) : Radio :=
  if driver.rxAccepts ch tune then
    driver.rxStages params slot ch (driver.rxTuned slot ch tune)
  else driver.rxTuned slot ch tune

/-- An apply finds the frequency, or tunes to it, or is refused it. -/
theorem rxAccepts_cases (ch : RxCh) (tune : Tune) :
    driver.cache.sxrLastHz = ch.freq ∧ driver.rxAccepts ch tune = true ∨
      driver.cache.sxrLastHz ≠ ch.freq ∧ tune = .locked ∧ driver.rxAccepts ch tune = true ∨
      driver.cache.sxrLastHz ≠ ch.freq ∧ tune = .refused ∧ driver.rxAccepts ch tune = false := by
  by_cases h : driver.cache.sxrLastHz = ch.freq
  · exact Or.inl ⟨h, by simp [rxAccepts, h]⟩
  · cases tune with
    | locked => exact Or.inr (Or.inl ⟨h, rfl, by simp [rxAccepts]⟩)
    | refused => exact Or.inr (Or.inr ⟨h, rfl, by simp [rxAccepts, h]⟩)

variable {params driver slot} {ch : RxCh} {tune : Tune} {setting : Setting}

/-- On its own board an apply leaves the variables true of every setting it writes, and of those it
does not write if they were. -/
theorem rxRadio_holds
    (h : ¬ (driver.rxReaches ch tune setting && !driver.rxHits params slot ch setting) →
      (driver.radio slot).Holds setting) :
    (driver.rxRadio params slot ch tune).Holds setting := by
  obtain ⟨hhit, haccept⟩ | ⟨hmiss, rfl, haccept⟩ | ⟨hmiss, rfl, haccept⟩ :=
    driver.rxAccepts_cases ch tune
  · rw [rxRadio, if_pos haccept, rxTuned_hit _ _ hhit, rxStages_eq, rxPath_eq]
    cases setting <;>
      simp [Radio.Holds, rxReaches, rxHits, rxPga, radio, hhit, haccept] at h ⊢ <;> grind
  · rw [rxRadio, if_pos haccept, rxTuned_locked _ _ hmiss, rxStages_eq, rxPath_eq]
    -- a tune drops both gains before the stages look at them
    cases setting <;>
      simp [Radio.Holds, Radio.rxStageCacheDrop, rxReaches, rxHits, radio, hmiss] at h ⊢
    exact h
  · rw [rxRadio, if_neg (by simp [haccept]), rxTuned_refused _ _ hmiss, rxPath_eq]
    cases setting <;>
      simp [Radio.Holds, rxReaches, rxHits, radio, hmiss, haccept] at h ⊢ <;> grind

/-- On another board the variables stay true of the settings the apply does not write. -/
theorem rxRadio_holds_other {chip : Lms}
    (hnot : ¬ (driver.rxReaches ch tune setting && !driver.rxHits params slot ch setting))
    (h : Radio.Holds ⟨driver.cache, chip⟩ setting) :
    Radio.Holds ⟨(driver.rxRadio params slot ch tune).cache, chip⟩ setting := by
  obtain ⟨hhit, haccept⟩ | ⟨hmiss, rfl, haccept⟩ | ⟨hmiss, rfl, haccept⟩ :=
    driver.rxAccepts_cases ch tune
  · rw [rxRadio, if_pos haccept, rxTuned_hit _ _ hhit, rxStages_eq, rxPath_eq]
    cases setting <;>
      simp [Radio.Holds, rxReaches, rxHits, rxPga, hhit, haccept] at hnot h ⊢ <;> grind
  · rw [rxRadio, if_pos haccept, rxTuned_locked _ _ hmiss, rxStages_eq, rxPath_eq]
    cases setting <;>
      simp [Radio.Holds, Radio.rxStageCacheDrop, rxReaches, rxHits, hmiss, haccept] at hnot h ⊢
    exact h
  · rw [rxRadio, if_neg (by simp [haccept]), rxTuned_refused _ _ hmiss, rxPath_eq]
    cases setting <;>
      simp [Radio.Holds, rxReaches, rxHits, hmiss, haccept] at hnot h ⊢ <;> grind

/-- An RX apply writes the variables and its own board. -/
theorem rxSet_put (params : Params) (driver : Driver) (slot : Slot) (ch : RxCh) (tune : Tune) :
    ∃ board, (driver.rxSet params slot ch tune).1 =
        driver.put slot (driver.rxRadio params slot ch tune).cache board ∧
      board.chip = (driver.rxRadio params slot ch tune).chip ∧
      board.rxS = if driver.rxAccepts ch tune then ch else (driver.board slot).rxS := by
  rw [rxSet_eq, rxRadio]
  cases driver.rxAccepts ch tune <;> exact ⟨_, rfl, rfl, rfl⟩

/-- After an RX apply the filter has the bandwidth of the applied channel, if it had before or the
apply set it. -/
theorem rxRadio_rxLpf (ch : RxCh) (tune : Tune)
    (h : ¬ (driver.rxAccepts ch tune && !driver.lpfHits slot ch) →
      (driver.board slot).chip.rxLpf = some (driver.board slot).rxS.rficLpfBw) :
    (driver.rxRadio params slot ch tune).chip.rxLpf =
      some (if driver.rxAccepts ch tune then ch else (driver.board slot).rxS).rficLpfBw := by
  have htuned : (driver.rxTuned slot ch tune).chip.rxLpf = (driver.board slot).chip.rxLpf := by
    obtain ⟨hhit, -⟩ | ⟨hmiss, rfl, -⟩ | ⟨hmiss, rfl, -⟩ := driver.rxAccepts_cases ch tune
    · rw [rxTuned_hit _ _ hhit, rxPath_eq]
    · rw [rxTuned_locked _ _ hmiss, rxPath_eq]
    · rw [rxTuned_refused _ _ hmiss, rxPath_eq]
  cases haccept : driver.rxAccepts ch tune with
  | false =>
      rw [rxRadio, if_neg (by simp [haccept]), htuned]
      exact h (by simp [haccept])
  | true =>
      rw [rxRadio, if_pos haccept, rxStages_eq]
      cases hlpf : driver.lpfHits slot ch with
      | false => simp
      | true =>
          have hbw : ch.rficLpfBw = (driver.board slot).rxS.rficLpfBw := of_decide_eq_true hlpf
          simpa [hbw, htuned] using h (by simp [hlpf])

/-- Every write that an RX apply leaves out is on the chip if the variables are true of what it
finds in them. -/
theorem rxSkipsSound_of_holds
    (hholds : ∀ setting, driver.rxReaches ch tune setting →
      driver.rxHits params slot ch setting → (driver.radio slot).Holds setting)
    (hfreq : driver.rxHits params slot ch .sxr → ch.freq ≠ 0)
    (hlpf : driver.rxAccepts ch tune → driver.lpfHits slot ch →
      (driver.board slot).chip.rxLpf = some ch.rficLpfBw) :
    driver.RxSkipsSound params slot ch tune := by
  refine ⟨fun hpath => ?_, fun hsxr => ?_, fun haccept => ?_⟩
  · exact hholds .pathRfe rfl (decide_eq_true hpath) _ hpath
  · rw [rxPath_sxrLastHz] at hsxr
    have hhit : driver.rxHits params slot ch .sxr := decide_eq_true hsxr
    have hchip := hholds .sxr rfl hhit (fun hzero => hfreq hhit (hsxr.symm.trans hzero))
    rw [rxPath_eq]
    exact hchip.trans (congrArg some hsxr)
  · obtain ⟨hhit, -⟩ | ⟨hmiss, rfl, -⟩ | ⟨-, -, hrefused⟩ := driver.rxAccepts_cases ch tune
    · rw [rxTuned_hit _ _ hhit, rxPath_eq]
      refine ⟨fun hbw => hlpf haccept (decide_eq_true hbw), fun hlna => ?_, fun hpga => ?_⟩
      · exact hholds .rfeLna haccept (by simpa [rxHits, hhit] using hlna) _ hlna
      · exact hholds .rbbPga haccept (by simpa [rxHits, hhit] using hpga) _ hpga
    · -- the tune has dropped the gains, so both are written
      rw [rxTuned_locked _ _ hmiss, rxPath_eq]
      exact ⟨fun hbw => hlpf haccept (decide_eq_true hbw), nofun, nofun⟩
    · exact absurd haccept (by simp [hrefused])

/-- A TX apply leaves the RX settings and moves the frequency of SXT, to one that the chip is tuned
to unless it was skipped. -/
theorem txSet_put (params : Params) (driver : Driver) (slot : Slot) (ch : TxCh) (tune : Tune) :
    ∃ hz pred board, (driver.txSet params slot ch tune).1 =
        driver.put slot { driver.cache with sxtLastHz := hz, txdbmLastPred := pred } board ∧
      board.rxS = (driver.board slot).rxS ∧
      board.chip =
        { (driver.board slot).chip with txEnabled := board.chip.txEnabled, sxt := board.chip.sxt } ∧
      if ch.enable ≠ .rfOff ∧ driver.cache.sxtLastHz = ch.freq then
        hz = driver.cache.sxtLastHz ∧ board.chip.sxt = (driver.board slot).chip.sxt
      else hz ≠ 0 → board.chip.sxt = some hz := by
  rw [txSet_eq]
  dsimp only [txTuned, Radio.tuneTx]
  by_cases hoff : ch.enable = .rfOff
  · rw [if_pos hoff]
    exact ⟨0, _, _, rfl, rfl, rfl, by simp [hoff]⟩
  · rw [if_neg hoff]
    by_cases hhit : driver.cache.sxtLastHz = ch.freq
    · rw [if_pos hhit, if_pos rfl]
      exact ⟨_, _, _, rfl, rfl, rfl, by simp [hoff, hhit]⟩
    · rw [if_neg hhit]
      cases tune with
      | locked => exact ⟨_, _, _, rfl, rfl, rfl, by simp [hhit]⟩
      | refused => exact ⟨_, _, _, rfl, rfl, rfl, by simp [hhit]⟩

end Driver

/-! ## Runs -/

namespace Ledger

/-- The variables are true of the boards they were written for, and so is the bandwidth of the
applied channel where the filter was set. -/
structure Truthful (ledger : Ledger) : Prop where
  holds : ∀ setting slot, ledger.writer setting = some slot →
    (ledger.driver.radio slot).Holds setting
  lpf : ∀ slot, ledger.lpfSet slot →
    (ledger.driver.board slot).chip.rxLpf = some (ledger.driver.board slot).rxS.rficLpfBw

variable {params : Params} {ledger : Ledger} {slot : Slot}

/-- After a write to one board, the radio of each. -/
theorem radio_put (driver : Driver) (slot other : Slot) (cache : Cache) (board : Board) :
    (driver.put slot cache board).radio other =
      ⟨cache, if other = slot then board.chip else (driver.board other).chip⟩ := by
  obtain rfl | hne := eq_or_ne other slot
  · simp [Driver.radio]
  · simp [Driver.radio, Driver.put_board_of_ne _ _ hne, hne]

theorem truthful_probed : Truthful probed := ⟨nofun, nofun⟩

/-- The RX apply. -/
theorem Truthful.rxSet (h : ledger.Truthful) (ch : RxCh) (tune : Tune) :
    (ledger.rxSet params slot ch tune).Truthful := by
  obtain ⟨board, hput, hchip, hrxS⟩ := ledger.driver.rxSet_put params slot ch tune
  refine ⟨fun setting other hwriter => ?_, fun other hlpf => ?_⟩
  · dsimp only [Ledger.rxSet] at hwriter ⊢
    rw [hput, radio_put]
    obtain rfl | hne := eq_or_ne other slot
    · rw [if_pos rfl, hchip]
      -- what is not written was last written for the board it is said to be
      refine Driver.rxRadio_holds fun hnot => h.holds setting other ?_
      rwa [if_neg hnot] at hwriter
    · rw [if_neg hne]
      have hnot : ¬ (ledger.driver.rxReaches ch tune setting &&
          !ledger.driver.rxHits params slot ch setting) := by
        intro hprogrammed
        rw [if_pos hprogrammed] at hwriter
        -- what is written is this board's from now on
        exact hne (Option.some.inj hwriter).symm
      rw [if_neg hnot] at hwriter
      exact Driver.rxRadio_holds_other hnot (h.holds setting other hwriter)
  · dsimp only [Ledger.rxSet] at hlpf ⊢
    rw [hput]
    obtain rfl | hne := eq_or_ne other slot
    · rw [Driver.put_board_self, hchip, hrxS]
      refine Driver.rxRadio_rxLpf ch tune fun hnot => h.lpf other ?_
      simpa [hnot] using hlpf
    · rw [Driver.put_board_of_ne _ _ hne]
      exact h.lpf other (by simpa [hne] using hlpf)

/-- The TX apply. -/
theorem Truthful.txSet (h : ledger.Truthful) (ch : TxCh) (tune : Tune) :
    (ledger.txSet params slot ch tune).Truthful := by
  obtain ⟨hz, pred, board, hput, hrxS, hchip, hsxt⟩ := ledger.driver.txSet_put params slot ch tune
  refine ⟨fun setting other hwriter => ?_, fun other hlpf => ?_⟩
  · dsimp only [Ledger.txSet] at hwriter ⊢
    rw [hput, radio_put]
    by_cases hsetting : setting = .sxt
    · subst hsetting
      by_cases hhit : ch.enable ≠ .rfOff ∧ ledger.driver.cache.sxtLastHz = ch.freq
      · -- nothing is tuned and the variable stays
        rw [if_pos hhit] at hsxt
        have hholds := h.holds .sxt other (by simpa [hhit.1, hhit.2] using hwriter)
        obtain rfl | hne := eq_or_ne other slot
        · rw [if_pos rfl]
          simpa [Radio.Holds, Driver.radio, hsxt.1, hsxt.2] using hholds
        · rw [if_neg hne]
          simpa [Radio.Holds, Driver.radio, hsxt.1] using hholds
      · rw [if_neg hhit] at hsxt
        -- the frequency is this board's from now on
        rw [if_pos (by simpa [Classical.or_iff_not_imp_left] using hhit)] at hwriter
        obtain rfl := Option.some.inj hwriter
        rw [if_pos rfl]
        exact hsxt
    · have hholds := h.holds setting other (by simpa [hsetting] using hwriter)
      obtain rfl | hne := eq_or_ne other slot
      · rw [if_pos rfl, hchip]
        cases setting <;> first | exact absurd rfl hsetting | exact hholds
      · rw [if_neg hne]
        cases setting <;> first | exact absurd rfl hsetting | exact hholds
  · dsimp only [Ledger.txSet] at hlpf ⊢
    rw [hput]
    obtain rfl | hne := eq_or_ne other slot
    · rw [Driver.put_board_self, hchip, hrxS]
      exact h.lpf other hlpf
    · rw [Driver.put_board_of_ne _ _ hne]
      exact h.lpf other hlpf

/-- A wanted copy is not asked. -/
theorem Truthful.rxWant (h : ledger.Truthful) (ch : RxCh) :
    Truthful { ledger with driver := ledger.driver.rxWant slot ch } := by
  refine ⟨fun setting other hwriter => ?_, fun other hlpf => ?_⟩
  · dsimp only [Driver.rxWant]
    rw [radio_put]
    obtain rfl | hne := eq_or_ne other slot
    · rw [if_pos rfl]
      exact h.holds setting other hwriter
    · rw [if_neg hne]
      exact h.holds setting other hwriter
  · dsimp only [Driver.rxWant]
    obtain rfl | hne := eq_or_ne other slot
    · rw [Driver.put_board_self]
      exact h.lpf other hlpf
    · rw [Driver.put_board_of_ne _ _ hne]
      exact h.lpf other hlpf

/-- The MCU run: the variables say nothing any more. -/
theorem Truthful.calibrated (h : ledger.Truthful) (bwMhz : Nat) (left : Lms) :
    (ledger.calibrated bwMhz left).Truthful := by
  refine ⟨fun setting other _ => ?_, fun other hlpf => ?_⟩
  · dsimp only [Ledger.calibrated, Driver.calibrated]
    rw [radio_put]
    cases setting <;> simp [Radio.Holds, Radio.rxStageCacheDrop]
  · dsimp only [Ledger.calibrated, Driver.calibrated] at hlpf ⊢
    rw [Bool.and_eq_true] at hlpf
    obtain rfl | hne := eq_or_ne other .primary
    · -- the filter of this board is still set only if the MCU has not run
      have hruns : Driver.calRuns bwMhz = false := by simpa using hlpf.1
      rw [Driver.put_board_self, if_neg (by simp [hruns])]
      exact h.lpf .primary hlpf.2
    · rw [Driver.put_board_of_ne _ _ hne]
      exact h.lpf other hlpf.2

/-- Every event keeps the variables true. -/
theorem Truthful.step (h : ledger.Truthful) (event : Event) :
    (ledger.step params event).Truthful := by
  cases event with
  | txSet slot ch tune =>
      dsimp only [Ledger.step]
      split
      · exact h.txSet ch tune
      · exact h
  | rxSet slot ch tune => exact h.rxSet ch tune
  | rxWant slot ch => exact h.rxWant ch
  | lpfCal bwMhz left succeeds tune =>
      dsimp only [Ledger.step]
      split
      · exact (h.calibrated bwMhz left).rxSet _ tune
      · exact h.calibrated bwMhz left
  | reset => exact ⟨h.holds, h.lpf⟩

/-- An RX apply that meets the condition skips soundly. -/
theorem Truthful.rxSkipsSound (h : ledger.Truthful) {ch : RxCh} {tune : Tune}
    (hguard : ledger.RxAttributed params slot ch tune) :
    ledger.driver.RxSkipsSound params slot ch tune := by
  obtain ⟨hwriter, hfreq, hlpf⟩ := hguard
  refine Driver.rxSkipsSound_of_holds
    (fun setting hreaches hhits => h.holds setting slot (hwriter setting hreaches hhits)) hfreq
    fun haccept hhits => ?_
  have hbw : ch.rficLpfBw = (ledger.driver.board slot).rxS.rficLpfBw := of_decide_eq_true hhits
  rw [hbw]
  exact h.lpf slot (hlpf haccept hhits)

/-- An event that meets the condition skips soundly. -/
theorem Truthful.skipsSound (h : ledger.Truthful) {event : Event}
    (hguard : ledger.Attributed params event) : ledger.driver.SkipsSound params event := by
  cases event with
  | txSet slot ch tune =>
      intro hpresent hon hhit
      obtain ⟨hwriter, hfreq⟩ := hguard hpresent hon hhit
      have hchip := h.holds .sxt slot hwriter fun hzero => hfreq (hhit.symm.trans hzero)
      exact hchip.trans (congrArg some hhit)
  | rxSet slot ch tune => exact h.rxSkipsSound hguard
  | rxWant slot ch => trivial
  | lpfCal bwMhz left succeeds tune =>
      exact fun hruns => (h.calibrated bwMhz left).rxSkipsSound (hguard hruns)
  | reset => trivial

/-- In every run whose applies take values for known only on the boards they were written for,
every write that is left out is already on the chip of the board being applied. -/
theorem skips_sound_of_attributed (params : Params) (events : List Event)
    (h : Guarded (next params) (Attributed params) probed events) :
    EveryStep (Driver.next params) (fun driver event _ => driver.SkipsSound params event) .probed
      events := by
  have hsteps : EveryStep (next params)
      (fun ledger event _ => ledger.driver.SkipsSound params event) probed events :=
    everyStep_of_guarded
      (fun _ event _ htruth _ hstep => Option.some.inj hstep ▸ htruth.step event)
      (fun _ _ _ htruth hguard _ => htruth.skipsSound hguard) truthful_probed h
  show EveryStep _ _ probed.driver events
  refine EveryStep.project Ledger.driver (fun ledger event => ?_) hsteps
  exact congrArg some (ledger.step_driver params event).symm

/-- An RX channel at 2.4 GHz. -/
def sampleCh : RxCh := ⟨2400000000, 10, 20, 0, 0, .smaA, false, .auto, .rfOn⟩

/-- One board, applied, retuned, stepped in gain, calibrated and widened. -/
theorem skips_sound_of_attributed_oneBoard :
    let events := [.rxSet 0 sampleCh .locked, .rxSet 0 { sampleCh with gain := 12 } .locked,
      .rxSet 0 { sampleCh with freq := 900000000, gain := 12 } .locked,
      .lpfCal 30 .probed false .locked, .rxSet 0 { sampleCh with rficLpfBw := 40 } .locked]
    EveryStep (Driver.next .standard) (fun driver event _ => driver.SkipsSound .standard event)
      .probed events :=
  skips_sound_of_attributed .standard _ (by decide)

/-- The same channel on both boards, one after the other: the second apply takes the frequency, the
path and the gains of the first for its own and writes none of them. -/
theorem tune_skipped_on_other_board :
    ¬ EveryStep (Driver.next .standard)
      (fun driver event _ => driver.SkipsSound .standard event) .probed
      [.rxSet 0 sampleCh .locked, .rxSet 1 sampleCh .locked] := by
  decide

end Ledger

end RfnmDriver.Lime
