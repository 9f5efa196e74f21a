import Mathlib.Algebra.GroupWithZero.Nat
import RfnmDriver.Lime.FrontEnd
import RfnmDriver.Daughterboard.ChannelTypes

/-!
# Applies on the Lime boards

`rfnm_tx_ch_set` and `rfnm_rx_ch_set` of `rfnm_lime_m.c`, the filter calibration that re-applies
the RX channel, and what a session reset does to the channels. The driver serves up to two boards,
and its last-value caches are file-level variables: `Cache` is one for both, while each `Board` has
its latches, its channels and its LMS7002M. The LimeSuite calls are the fields of `Lms` they set.
-/

namespace RfnmDriver.Lime

open LatchBit RegisterFile

/-- What the driver reads of `struct rfnm_api_tx_ch`. -/
structure TxCh where
  freq : Nat
  power : Int
  path : RfPath
  biasTee : Bool
  enable : ChEnable
  deriving DecidableEq, Repr

/-- What the driver reads of `struct rfnm_api_rx_ch`. -/
structure RxCh where
  freq : Nat
  gain : Int
  rficLpfBw : Int
  rficDcI : Int
  rficDcQ : Int
  path : RfPath
  biasTee : Bool
  fmNotch : FmNotch
  enable : ChEnable
  deriving DecidableEq, Repr

/-- The inputs of the receiver front end of the chip. -/
inductive RfePath
  | lnaL
  | lnaW
  | lnaH
  | lb1
  | lb2
  deriving DecidableEq, Repr

/-- The settings of an LMS7002M that the driver writes; `none` is a value no call of the driver
has given. -/
structure Lms where
  /-- `lms7002m_enable_channel` of TX channel A. -/
  txEnabled : Bool
  sxr : Option Nat
  sxt : Option Nat
  pathRfe : Option RfePath
  rfeLna : Option Int
  rbbPga : Option Int
  /-- The bandwidth `lms7002m_set_rx_lpf` was called with, in MHz. -/
  rxLpf : Option Int
  /-- `G_RXLOOPB_RFE`. -/
  loopGain : Option Nat
  deriving DecidableEq, Repr

/-- The file-level variables. -/
structure Cache where
  /-- `sx_last_hz[0]`; 0 makes the next apply tune. -/
  sxrLastHz : Nat
  /-- `sx_last_hz[1]`. -/
  sxtLastHz : Nat
  rxLastPathRfe : Option RfePath
  rxLastLnaDb : Option Int
  rxLastPgaDb : Option Int
  rxDcTrimHz : Option Nat
  txdbmLastPred : Option Int
  deriving DecidableEq, Repr

/-- A choice of `rfnm_lime_txdbm_pick`. -/
structure TxdbmPick where
  mask : Nat
  pred : Int
  deriving DecidableEq, Repr

/-- The module parameters, and the calibrated power map of the board. -/
structure Params where
  txFeForce : Option Nat
  /-- By frequency in Hz and power in hundredths of a dBm. -/
  txdbmPick : Nat → Int → Option TxdbmPick
  dcBudgetCounts : Int
  dcUntrimmedCounts : Int
  dcTrimmedCounts : Int
  dcLoWindowMhz : Int

/-- `struct rfnm_dgb`. The TX channel is registered on the board of the first slot only, and its
pointers are null on the other. -/
structure Board where
  txCh : Option TxCh
  txS : Option TxCh
  rxCh : RxCh
  rxS : RxCh
  fe : Fe
  chip : Lms

abbrev Slot := Fin 2

/-- The slot of the board with a TX channel. -/
abbrev Slot.primary : Slot := ⟨0, Nat.zero_lt_two⟩

structure Driver where
  cache : Cache
  board : Slot → Board

/-- What a synthesizer search comes to, be it the fast tune or the full one. -/
inductive Tune
  | locked
  | refused
  deriving DecidableEq, Repr

def mhz (freq : Nat) : Nat := freq / 1000000

/-! ## Chip and caches -/

/-- The file-level variables and the chip an apply talks to. -/
structure Radio where
  cache : Cache
  chip : Lms
  deriving DecidableEq, Repr

namespace Radio

variable (radio : Radio)

/-- `rfnm_lime_rx_stage_cache_drop`. -/
def rxStageCacheDrop (cache : Cache) : Cache :=
  { cache with rxLastPathRfe := none, rxLastLnaDb := none, rxLastPgaDb := none }

/-- `rfnm_lime_tune_sx` of SXR, unless `rfnm_lime_sx_needs_tune` says no. -/
def tuneRx (freq : Nat) (tune : Tune) : Radio × Bool :=
  if radio.cache.sxrLastHz = freq then (radio, true)
  else match tune with
    | .locked =>
        ({ cache := { rxStageCacheDrop radio.cache with sxrLastHz := freq }
           chip := { radio.chip with sxr := some freq } }, true)
    | .refused =>
        ({ cache := { radio.cache with sxrLastHz := 0 }
           chip := { radio.chip with sxr := none } }, false)

/-- The same of SXT. -/
def tuneTx (freq : Nat) (tune : Tune) : Radio × Bool :=
  if radio.cache.sxtLastHz = freq then (radio, true)
  else match tune with
    | .locked =>
        ({ cache := { radio.cache with sxtLastHz := freq }
           chip := { radio.chip with sxt := some freq } }, true)
    | .refused =>
        ({ cache := { radio.cache with sxtLastHz := 0 }
           chip := { radio.chip with sxt := none } }, false)

/-- `lms7002m_set_path_rfe`, skipped when it was the last path programmed. -/
def setPathRfe (want : RfePath) : Radio :=
  if radio.cache.rxLastPathRfe = some want then radio
  else
    { cache := { radio.cache with rxLastPathRfe := some want }
      chip := { radio.chip with pathRfe := some want } }

/-- `lms7002m_set_rx_lpf`, skipped when the applied channel has the bandwidth. -/
def setRxLpf (applied want : Int) : Radio :=
  if want = applied then radio else { radio with chip := { radio.chip with rxLpf := some want } }

/-- `lms7002m_set_rfelna_db`, skipped when it was the last gain written. -/
def setRfeLna (lnaRaw : Int) : Radio :=
  if radio.cache.rxLastLnaDb = some lnaRaw then radio
  else
    { cache := { radio.cache with rxLastLnaDb := some lnaRaw }
      chip := { radio.chip with rfeLna := some lnaRaw } }

/-- `lms7002m_set_rbbpga_db`, skipped when it was the last gain written. -/
def setRbbPga (pgaDb : Int) : Radio :=
  if radio.cache.rxLastPgaDb = some pgaDb then radio
  else
    { cache := { radio.cache with rxLastPgaDb := some pgaDb }
      chip := { radio.chip with rbbPga := some pgaDb } }

/-- The loopback buffer follows the level the power map last predicted, in hundredths of a dBm. -/
def setLoopGain : Radio :=
  let gain : Nat := match radio.cache.txdbmLastPred with
    | none => 6
    | some pred =>
        if 1000 ≤ pred then 1
        else if 0 ≤ pred then 3
        else if -1000 ≤ pred then 6
        else if -2000 ≤ pred then 10
        else 13
  { radio with chip := { radio.chip with loopGain := some gain } }

end Radio

/-! ## What an RX apply decides -/

/-- Who switches the antenna port in `lime0_set_rx_gain`. -/
inductive PortStaging
  | txOwned
  | terminated
  | embed
  | attn24
  | attn12
  | through
  deriving DecidableEq, Repr

/-- What becomes of the power amplifiers. -/
inductive PaParking
  | full
  /-- The pairing of the loopback through the front end. -/
  | supplyOnly
  | untouched
  deriving DecidableEq, Repr

section RxApply

variable (params : Params) (owner : Option TxCh) (ch : RxCh)

/-- TX is RF-live on the board, in plain RF_ON. -/
def rfLive : Bool := owner.any fun tx => tx.enable = .rfOn

/-- `tx_live`. -/
def txLive : Bool := owner.any fun tx => tx.enable = .rfOn && tx.path ≠ .loopback

/-- `chip_lb`. -/
def chipLoopback : Bool := ch.path = .loopback && txLive owner

def portStaging : PortStaging :=
  if rfLive owner then .txOwned
  else if ch.path = .terminated then .terminated
  else if ch.path = .embedAnt then .embed
  else if ch.gain < -12 then .attn24
  else if ch.gain < 0 then .attn12
  else .through

def PortStaging.writes : PortStaging → List Srb
  | .txOwned => []
  | .terminated => lime0RxTerminated
  | .embed => lime0AntEmbed
  | .attn24 => lime0AntAttn24
  | .attn12 => lime0AntAttn12
  | .through => lime0AntThrough

/-- The gain that is left for the chip once the port is staged. -/
def PortStaging.dbm (gain : Int) : PortStaging → Int
  | .txOwned | .terminated => max gain 0
  | .embed | .through => gain
  | .attn24 => gain + 24
  | .attn12 => gain + 12

/-- `dbm`, capped where the LNA takes it. -/
def stagedDbm : Int := min ((portStaging owner ch).dbm ch.gain) 30

def lnaRaw : Int :=
  if 0 ≤ stagedDbm owner ch then stagedDbm owner ch * 65536 else 0

/-- `pga_db` before the guard. -/
def pgaWanted : Nat :=
  let pgaDb := if chipLoopback owner ch then (stagedDbm owner ch).tdiv 2
    else 12 - (stagedDbm owner ch).tdiv 2
  (min (max pgaDb 0) 12).toNat

/-- `pga_gain_q16`: 10^(p/20). -/
def pgaGainQ16 (pgaDb : Nat) : Int :=
  [65536, 73533, 82505, 92572, 103868, 116541, 130762, 146717, 164619, 184706, 207243, 232531,
    260904].getD pgaDb 0

/-- The PGA comes down until it cannot amplify the DC over the budget. -/
def dcGuard (resid : Int) : Nat → Nat
  | 0 => 0
  | pgaDb + 1 =>
      if params.dcBudgetCounts * 65536 < resid * pgaGainQ16 (pgaDb + 1) then dcGuard resid pgaDb
      else pgaDb + 1

/-- A trim written this boot holds near the frequency it was written at. -/
def dcFresh (trim : Option Nat) (freq : Nat) : Bool :=
  trim.any fun hz => ((freq : Int) - hz).natAbs ≤ params.dcLoWindowMhz * 1000000

/-- `pga_db`. -/
def pgaDb (trim : Option Nat) : Nat :=
  dcGuard params
    (if dcFresh params trim ch.freq then params.dcTrimmedCounts else params.dcUntrimmedCounts)
    (pgaWanted owner ch)

/-- `rx_dc_trim_hz`, after the apply has written the trim the channel carries. -/
def dcTrim (trim : Option Nat) : Option Nat :=
  if ch.rficDcQ ≠ 0 ∨ ch.rficDcI ≠ 0 then some ch.freq else trim

/-- `want_path`. -/
def wantPath : RfePath :=
  match owner.filter fun _ => chipLoopback owner ch with
  | some tx => if mhz tx.freq < 2350 then .lb2 else .lb1
  | none =>
      if mhz ch.freq ≤ 60 then .lnaL
      else if mhz ch.freq ≤ 1400 then .lnaW
      else .lnaH

def paParking : PaParking :=
  if ch.path = .loopback then if txLive owner then .untouched else .supplyOnly
  else if owner.all fun tx => tx.enable = .rfOff || ch.enable = .rfOnTdd then .full
  else .untouched

def PaParking.writes : PaParking → List Srb
  | .full => lime0TxPower (-100) ++ lime0DisableAllPa
  | .supplyOnly => lime0DisableAllPa
  | .untouched => []

/-- The filter bank and the FM notch. -/
def filterWrites : List Srb :=
  let freq := mhz ch.freq
  let auto (en : Bool) := if ch.fmNotch = .auto then lime0FmNotch en else []
  lime0FmNotch (ch.fmNotch ≠ .off) ++
    if freq ≤ 30 then lime0Filter0To70
    else if freq ≤ 60 then lime0Filter30To60
    else if freq ≤ 120 then lime0Filter60To120 ++ auto false
    else if freq ≤ 250 then
      lime0Filter120To250 ++ if freq ≤ 150 then auto false else []
    else if freq ≤ 480 then lime0Filter250To480
    else if freq ≤ 1000 then lime0Filter480To1000
    else if 1166 ≤ freq ∧ freq ≤ 1229 then lime0Filter1166To1229
    else if 1574 ≤ freq ∧ freq ≤ 1605 then lime0Filter1574To1605
    else if 1805 ≤ freq ∧ freq ≤ 2250 then lime0Filter1805To2200
    else if 2250 ≤ freq ∧ freq ≤ 2700 then lime0Filter2300To2690
    else lime0Filter950To4000

/-- The bits written before the synthesizer is tuned. In the chip-internal loopback the front end
is the transmitter's. -/
def bandWrites : List Srb :=
  if chipLoopback owner ch then []
  else
    filterWrites ch ++
      if mhz ch.freq ≤ 60 then [] else [(lrim, decide (1400 < mhz ch.freq))]

/-- The bits written after it. -/
def portWrites : List Srb :=
  (portStaging owner ch).writes ++ (paParking owner ch).writes ++
    if chipLoopback owner ch then [] else setBiasT ch.biasTee

end RxApply

/-- The bits a TX apply writes, and the level the power map predicts for them. -/
def txChainWrites (params : Params) (ch : TxCh) : List Srb × Option Int :=
  match params.txFeForce with
  | some mask => (lime0TxForce mask, none)
  | none =>
      match params.txdbmPick ch.freq (ch.power * 100) with
      | some pick => (lime0TxForce pick.mask, some pick.pred)
      | none => (lime0TxPower ch.power, none)

def txWrites (params : Params) (ch : TxCh) : List Srb :=
  lime0TxBand (2350 ≤ mhz ch.freq) ++ (txChainWrites params ch).1 ++ lime0TxLpf (mhz ch.freq) ++
    (if ch.path ≠ .loopback then lime0AntTx ++ lime0DisableAllLna else lime0Loopback) ++
    setBiasT ch.biasTee

/-! ## Applies -/

namespace Driver

variable (params : Params) (driver : Driver) (slot : Slot)

/-- The driver once an apply has left the variables and the board. -/
def put (cache : Cache) (board : Board) : Driver :=
  ⟨cache, Function.update driver.board slot board⟩

/-- The chip of the board, with the variables. -/
def radio : Radio := ⟨driver.cache, (driver.board slot).chip⟩

/-- The wanted copy is written and `rfnm_tx_ch_set` is called with it; whether it succeeds. -/
def txSet (ch : TxCh) (tune : Tune) : Driver × Bool :=
  let board := { driver.board slot with txCh := some ch }
  if ch.enable = .rfOff then
    (driver.put slot { driver.cache with sxtLastHz := 0 }
      { board with chip := { board.chip with txEnabled := false }, txS := some ch }, true)
  else
    let chip := { board.chip with txEnabled := true }
    match Radio.tuneTx ⟨driver.cache, chip⟩ ch.freq tune with
    | (radio, false) => (driver.put slot radio.cache { board with chip := radio.chip }, false)
    | (radio, true) =>
        let pred := (txChainWrites params ch).2.or radio.cache.txdbmLastPred
        (driver.put slot { radio.cache with txdbmLastPred := pred }
          { board with
            chip := radio.chip
            fe := store board.fe (txWrites params ch)
            txS := some ch }, true)

/-- The part of `rfnm_rx_ch_set` before the synthesizer. -/
def rxPath (ch : RxCh) : Radio :=
  let owner := (driver.board slot).txS
  let radio := (driver.radio slot).setPathRfe (wantPath owner ch)
  if chipLoopback owner ch then radio.setLoopGain else radio

/-- The chip settings that `rfnm_rx_ch_set` writes after the synthesizer is tuned. -/
def rxStages (ch : RxCh) (radio : Radio) : Radio :=
  let board := driver.board slot
  let radio := radio.setRxLpf board.rxS.rficLpfBw ch.rficLpfBw
  let trim := dcTrim ch radio.cache.rxDcTrimHz
  let radio := { radio with cache := { radio.cache with rxDcTrimHz := trim } }
  (radio.setRfeLna (lnaRaw board.txS ch)).setRbbPga (pgaDb params board.txS ch trim)

/-- The wanted copy is written and `rfnm_rx_ch_set` is called with it. -/
def rxSet (ch : RxCh) (tune : Tune) : Driver × Bool :=
  let board := driver.board slot
  let fe := store board.fe (bandWrites board.txS ch)
  match (driver.rxPath slot ch).tuneRx ch.freq tune with
  | (radio, false) =>
      (driver.put slot radio.cache { board with rxCh := ch, fe := fe, chip := radio.chip }, false)
  | (radio, true) =>
      let radio := driver.rxStages params slot ch radio
      (driver.put slot radio.cache
        { board with
          rxCh := ch
          rxS := ch
          fe := store fe (portWrites board.txS ch)
          chip := radio.chip }, true)

/-- `rfnm_lime_mcu_rx_lpf_cal` looks at the bandwidth before it starts the MCU. -/
def calRuns (bwMhz : Nat) : Bool :=
  let bwHz := bwMhz * 1000000 % 2 ^ 32
  1400000 ≤ bwHz && bwHz ≤ 130000000

/-- The MCU owns the chip of the first slot while it runs and leaves it as `left`; the driver then
trusts none of its file-level values. -/
def calibrated (bwMhz : Nat) (left : Lms) : Driver :=
  let chip := (driver.board .primary).chip
  driver.put .primary { Radio.rxStageCacheDrop driver.cache with sxrLastHz := 0, sxtLastHz := 0 }
    { driver.board .primary with
      chip := if calRuns bwMhz then { left with txEnabled := chip.txEnabled } else chip }

/-- `rfnm_lime_rx_lpf_cal_run`: a calibration that succeeds re-applies the RX channel. -/
def lpfCal (bwMhz : Nat) (left : Lms) (succeeds : Bool) (tune : Tune) : Driver :=
  if calRuns bwMhz && succeeds then
    ((driver.calibrated bwMhz left).rxSet params .primary (driver.board .primary).rxCh tune).1
  else driver.calibrated bwMhz left

/-- A channel list that does not apply a channel writes its wanted copy all the same. -/
def rxWant (ch : RxCh) : Driver :=
  driver.put slot driver.cache { driver.board slot with rxCh := ch }

/-- `rfnm_dgb_reset_sm` marks every channel off. -/
def resetSm : Driver :=
  { driver with
    board := fun slot =>
      { driver.board slot with
        txCh := (driver.board slot).txCh.map fun ch => { ch with enable := .rfOff }
        rxCh := { (driver.board slot).rxCh with enable := .rfOff } } }

end Driver

/-- What happens to the boards: an apply with the channel it is given, a wanted copy that is only
written, a filter calibration, or the reset between two sessions. -/
inductive Event
  | txSet (slot : Slot) (ch : TxCh) (tune : Tune)
  | rxSet (slot : Slot) (ch : RxCh) (tune : Tune)
  | rxWant (slot : Slot) (ch : RxCh)
  | lpfCal (bwMhz : Nat) (left : Lms) (succeeds : Bool) (tune : Tune)
  | reset

/-- One of them. A TX apply reaches only a board with a TX channel. -/
def Driver.step (params : Params) (driver : Driver) : Event → Driver
  | .txSet slot ch tune =>
      if (driver.board slot).txS.isSome then (driver.txSet params slot ch tune).1 else driver
  | .rxSet slot ch tune => (driver.rxSet params slot ch tune).1
  | .rxWant slot ch => driver.rxWant slot ch
  | .lpfCal bwMhz left succeeds tune => driver.lpfCal params bwMhz left succeeds tune
  | .reset => driver.resetSm

/-- Every event is enabled. -/
def Driver.next (params : Params) (driver : Driver) (event : Event) : Option Driver :=
  some (driver.step params event)

/-! ## What an apply leaves alone -/

namespace Radio

variable (radio : Radio)

@[simp] theorem setPathRfe_sxrLastHz (want : RfePath) :
    (radio.setPathRfe want).cache.sxrLastHz = radio.cache.sxrLastHz := by
  unfold setPathRfe
  split <;> rfl

@[simp] theorem setPathRfe_rxDcTrimHz (want : RfePath) :
    (radio.setPathRfe want).cache.rxDcTrimHz = radio.cache.rxDcTrimHz := by
  unfold setPathRfe
  split <;> rfl

@[simp] theorem setLoopGain_cache : radio.setLoopGain.cache = radio.cache := rfl

@[simp] theorem setRxLpf_cache (applied want : Int) :
    (radio.setRxLpf applied want).cache = radio.cache := by
  unfold setRxLpf
  split <;> rfl

@[simp] theorem setRfeLna_sxrLastHz (lnaRaw : Int) :
    (radio.setRfeLna lnaRaw).cache.sxrLastHz = radio.cache.sxrLastHz := by
  unfold setRfeLna
  split <;> rfl

@[simp] theorem setRfeLna_rxDcTrimHz (lnaRaw : Int) :
    (radio.setRfeLna lnaRaw).cache.rxDcTrimHz = radio.cache.rxDcTrimHz := by
  unfold setRfeLna
  split <;> rfl

@[simp] theorem setRbbPga_sxrLastHz (pgaDb : Int) :
    (radio.setRbbPga pgaDb).cache.sxrLastHz = radio.cache.sxrLastHz := by
  unfold setRbbPga
  split <;> rfl

@[simp] theorem setRbbPga_rxDcTrimHz (pgaDb : Int) :
    (radio.setRbbPga pgaDb).cache.rxDcTrimHz = radio.cache.rxDcTrimHz := by
  unfold setRbbPga
  split <;> rfl

/-- The tune is skipped, or it locks, or it is refused. -/
theorem tuneRx_snd (freq : Nat) (tune : Tune) :
    (radio.tuneRx freq tune).2 = decide (radio.cache.sxrLastHz = freq ∨ tune = .locked) := by
  unfold tuneRx
  split
  case isTrue h => simp [h]
  case isFalse h => cases tune <;> simp [h]

theorem tuneRx_sxrLastHz (freq : Nat) (tune : Tune) :
    (radio.tuneRx freq tune).1.cache.sxrLastHz =
      if (radio.tuneRx freq tune).2 then freq else 0 := by
  unfold tuneRx
  split
  case isTrue h => exact h
  case isFalse => cases tune <;> rfl

@[simp] theorem tuneRx_rxDcTrimHz (freq : Nat) (tune : Tune) :
    (radio.tuneRx freq tune).1.cache.rxDcTrimHz = radio.cache.rxDcTrimHz := by
  unfold tuneRx
  split
  · rfl
  · cases tune <;> rfl

/-- Of the variables the tune of SXT moves one. -/
theorem tuneTx_cache (freq : Nat) (tune : Tune) :
    (radio.tuneTx freq tune).1.cache =
      { radio.cache with sxtLastHz := if (radio.tuneTx freq tune).2 then freq else 0 } := by
  unfold tuneTx
  split
  case isTrue h => rw [← h]; rfl
  case isFalse => cases tune <;> rfl

@[simp] theorem tuneTx_txEnabled (freq : Nat) (tune : Tune) :
    (radio.tuneTx freq tune).1.chip.txEnabled = radio.chip.txEnabled := by
  unfold tuneTx
  split
  · rfl
  · cases tune <;> rfl

end Radio

namespace Driver

variable (params : Params) (driver : Driver) (slot : Slot)

@[simp] theorem put_cache (cache : Cache) (board : Board) :
    (driver.put slot cache board).cache = cache := rfl

@[simp] theorem put_board_self (cache : Cache) (board : Board) :
    (driver.put slot cache board).board slot = board := by
  simp [put]

theorem put_board_of_ne {other : Slot} (h : other ≠ slot) (cache : Cache) (board : Board) :
    (driver.put slot cache board).board other = driver.board other := by
  simp [put, h]

@[simp] theorem rxPath_sxrLastHz (ch : RxCh) :
    (driver.rxPath slot ch).cache.sxrLastHz = driver.cache.sxrLastHz := by
  dsimp only [rxPath]
  split <;> exact Radio.setPathRfe_sxrLastHz _ _

@[simp] theorem rxPath_rxDcTrimHz (ch : RxCh) :
    (driver.rxPath slot ch).cache.rxDcTrimHz = driver.cache.rxDcTrimHz := by
  dsimp only [rxPath]
  split <;> exact Radio.setPathRfe_rxDcTrimHz _ _

@[simp] theorem rxStages_sxrLastHz (ch : RxCh) (radio : Radio) :
    (driver.rxStages params slot ch radio).cache.sxrLastHz = radio.cache.sxrLastHz := by
  simp [rxStages]

@[simp] theorem rxStages_rxDcTrimHz (ch : RxCh) (radio : Radio) :
    (driver.rxStages params slot ch radio).cache.rxDcTrimHz =
      dcTrim ch radio.cache.rxDcTrimHz := by
  simp [rxStages]

/-- The radio of a TX apply once TX is powered and the synthesizer is tuned. -/
def txTuned (ch : TxCh) (tune : Tune) : Radio × Bool :=
  Radio.tuneTx ⟨driver.cache, { (driver.board slot).chip with txEnabled := true }⟩ ch.freq tune

/-- A TX apply in one equation: what it makes of the variables and of the board. -/
theorem txSet_eq (ch : TxCh) (tune : Tune) :
    driver.txSet params slot ch tune =
      let board := { driver.board slot with txCh := some ch }
      let tuned := driver.txTuned slot ch tune
      if ch.enable = .rfOff then
        (driver.put slot { driver.cache with sxtLastHz := 0 }
          { board with chip := { board.chip with txEnabled := false }, txS := some ch }, true)
      else if tuned.2 then
        (driver.put slot
          { tuned.1.cache with
            txdbmLastPred := (txChainWrites params ch).2.or tuned.1.cache.txdbmLastPred }
          { board with
            chip := tuned.1.chip
            fe := store board.fe (txWrites params ch)
            txS := some ch }, true)
      else (driver.put slot tuned.1.cache { board with chip := tuned.1.chip }, false) := by
  unfold txSet txTuned
  dsimp only
  split
  · rfl
  · rcases Radio.tuneTx ⟨driver.cache, { (driver.board slot).chip with txEnabled := true }⟩ ch.freq
      tune with ⟨radio, _ | _⟩ <;> rfl

/-- A TX apply leaves the RX variables and the RX channels. -/
theorem txSet_rx (ch : TxCh) (tune : Tune) :
    let set := (driver.txSet params slot ch tune).1
    set.cache.sxrLastHz = driver.cache.sxrLastHz ∧
      set.cache.rxDcTrimHz = driver.cache.rxDcTrimHz ∧
      ∀ other, (set.board other).rxCh = (driver.board other).rxCh := by
  have hput : ∀ cache board, board.rxCh = (driver.board slot).rxCh → ∀ other,
      ((driver.put slot cache board).board other).rxCh = (driver.board other).rxCh := by
    intro cache board hboard other
    obtain rfl | hne := eq_or_ne other slot
    · rw [put_board_self, hboard]
    · rw [put_board_of_ne _ _ hne]
  have hcache := Radio.tuneTx_cache
    ⟨driver.cache, { (driver.board slot).chip with txEnabled := true }⟩ ch.freq tune
  dsimp only
  rw [txSet_eq]
  dsimp only [txTuned]
  split_ifs
  · exact ⟨rfl, rfl, hput _ _ rfl⟩
  · exact ⟨by rw [put_cache, hcache], by rw [put_cache, hcache], hput _ _ rfl⟩
  · exact ⟨by rw [put_cache, hcache], by rw [put_cache, hcache], hput _ _ rfl⟩

/-- The apply succeeds unless the synthesizer has to be tuned and refuses. -/
def rxAccepts (ch : RxCh) (tune : Tune) : Bool :=
  driver.cache.sxrLastHz = ch.freq || tune = .locked

/-- The radio once the synthesizer is tuned. -/
def rxTuned (ch : RxCh) (tune : Tune) : Radio :=
  ((driver.rxPath slot ch).tuneRx ch.freq tune).1

/-- An RX apply in one equation: what it makes of the variables and of the board. -/
theorem rxSet_eq (ch : RxCh) (tune : Tune) :
    driver.rxSet params slot ch tune =
      let board := driver.board slot
      let tuned := driver.rxTuned slot ch tune
      let fe := store board.fe (bandWrites board.txS ch)
      if driver.rxAccepts ch tune then
        (driver.put slot (driver.rxStages params slot ch tuned).cache
          { board with
            rxCh := ch
            rxS := ch
            fe := store fe (portWrites board.txS ch)
            chip := (driver.rxStages params slot ch tuned).chip }, true)
      else
        (driver.put slot tuned.cache
          { board with rxCh := ch, fe := fe, chip := tuned.chip }, false) := by
  have hsnd : ((driver.rxPath slot ch).tuneRx ch.freq tune).2 = driver.rxAccepts ch tune := by
    rw [Radio.tuneRx_snd, rxPath_sxrLastHz, rxAccepts, Bool.decide_or]
  unfold rxSet rxTuned
  rw [← hsnd]
  rcases (driver.rxPath slot ch).tuneRx ch.freq tune with ⟨radio, _ | _⟩ <;> rfl

@[simp] theorem rxSet_snd (ch : RxCh) (tune : Tune) :
    (driver.rxSet params slot ch tune).2 = driver.rxAccepts ch tune := by
  rw [rxSet_eq]
  cases h : driver.rxAccepts ch tune <;> simp

/-- The synthesizer's last frequency after an RX apply. -/
theorem rxSet_sxrLastHz (ch : RxCh) (tune : Tune) :
    (driver.rxSet params slot ch tune).1.cache.sxrLastHz =
      if driver.rxAccepts ch tune then ch.freq else 0 := by
  have htuned : (driver.rxTuned slot ch tune).cache.sxrLastHz =
      if driver.rxAccepts ch tune then ch.freq else 0 := by
    rw [rxTuned, Radio.tuneRx_sxrLastHz, Radio.tuneRx_snd, rxPath_sxrLastHz, rxAccepts,
      Bool.decide_or]
  rw [rxSet_eq]
  cases h : driver.rxAccepts ch tune <;> simpa [h] using htuned

/-- The frequency of the last DC trim after an RX apply. -/
theorem rxSet_rxDcTrimHz (ch : RxCh) (tune : Tune) :
    (driver.rxSet params slot ch tune).1.cache.rxDcTrimHz =
      if driver.rxAccepts ch tune then dcTrim ch driver.cache.rxDcTrimHz
      else driver.cache.rxDcTrimHz := by
  rw [rxSet_eq]
  cases h : driver.rxAccepts ch tune <;> simp [rxTuned]

/-- An RX apply leaves the transmitter's channel. -/
theorem rxSet_txS (ch : RxCh) (tune : Tune) (other : Slot) :
    ((driver.rxSet params slot ch tune).1.board other).txS = (driver.board other).txS := by
  rw [rxSet_eq]
  obtain rfl | hne := eq_or_ne other slot
  · cases driver.rxAccepts ch tune <;> simp
  · cases driver.rxAccepts ch tune <;> simp [put_board_of_ne _ _ hne]

/-- It writes the wanted copy of its own board, whether it succeeds or not. -/
theorem rxSet_rxCh (ch : RxCh) (tune : Tune) (other : Slot) :
    ((driver.rxSet params slot ch tune).1.board other).rxCh =
      if other = slot then ch else (driver.board other).rxCh := by
  rw [rxSet_eq]
  obtain rfl | hne := eq_or_ne other slot
  · cases driver.rxAccepts ch tune <;> simp
  · cases driver.rxAccepts ch tune <;> simp [put_board_of_ne _ _ hne, hne]

end Driver

/-! ## Probe -/

/-- The parameters as the module is loaded, with no power map. -/
def Params.standard : Params :=
  { txFeForce := none
    txdbmPick := fun _ _ => none
    dcBudgetCounts := 1024
    dcUntrimmedCounts := 700
    dcTrimmedCounts := 160
    dcLoWindowMhz := 300 }

/-- What `devm_kzalloc` gives for a TX channel. -/
def TxCh.zeroed : TxCh := ⟨0, 0, .null, false, .rfOff⟩

/-- What `devm_kzalloc` gives for an RX channel. -/
def RxCh.zeroed : RxCh := ⟨0, 0, 0, 0, 0, .null, false, .auto, .rfOff⟩

/-- The chip once the probe has tuned SXT out of the way and switched TX off again. -/
def Lms.probed : Lms :=
  { txEnabled := false
    sxr := none
    sxt := some 3000000000
    pathRfe := none
    rfeLna := none
    rbbPga := none
    rxLpf := none
    loopGain := none }

/-- A board after `rfnm_lime_probe`. -/
def Board.probed (slot : Slot) : Board :=
  let tx := if slot = .primary then some TxCh.zeroed else none
  { txCh := tx
    txS := tx
    rxCh := .zeroed
    rxS := .zeroed
    fe := store (fun _ => false) (setBiasT false)
    chip := .probed }

/-- The driver with both boards bound. -/
def Driver.probed : Driver :=
  { cache := ⟨0, 0, none, none, none, none, none⟩
    board := Board.probed }

end RfnmDriver.Lime
