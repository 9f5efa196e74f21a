import Mathlib.Algebra.GroupWithZero.Nat
import RfnmDriver.Library.RefusableCalls
import RfnmDriver.Daughterboard.ChannelTypes

/-!
# Applies on the Yucca board

`rfnm_tx_ch_set` and `rfnm_rx_ch_set` of `rfnm_yucca_m.c`. One MT3812 with one TRX PLL serves two RX
lanes and a TX lane, so every apply computes a target for the whole chip and remounts it where the
target differs from `Mirror`, what the driver believes the chip to be. `Mt3812` is the chip as the
state machine that the driver walks; each of its calls may be refused.
-/

namespace RfnmDriver.Yucca

open RefusableCalls Proc

/-- A lane of the receiver, `dgb_ch_id` of its channel. -/
abbrev Lane := Fin 2

abbrev Lane.rx1 : Lane := ⟨0, Nat.zero_lt_two⟩

abbrev Lane.rx2 : Lane := ⟨1, Nat.one_lt_two⟩

theorem Lane.cases (lane : Lane) : lane = .rx1 ∨ lane = .rx2 := by
  revert lane
  decide

theorem Lane.cases_ne {lane other : Lane} (h : other ≠ lane) :
    lane = .rx1 ∧ other = .rx2 ∨ lane = .rx2 ∧ other = .rx1 := by
  revert lane other
  decide

/-- What the driver reads of `struct rfnm_api_tx_ch`. -/
structure TxCh where
  freq : Nat
  power : Int
  rficLpfBw : Int
  enable : ChEnable
  deriving DecidableEq, Repr

/-- What the driver reads of `struct rfnm_api_rx_ch`. -/
structure RxCh where
  freq : Nat
  gain : Int
  rficLpfBw : Int
  enable : ChEnable
  deriving DecidableEq, Repr

def TxCh.on (ch : TxCh) : Bool := ch.enable ≠ .rfOff

def RxCh.on (ch : RxCh) : Bool := ch.enable ≠ .rfOff

/-! ## The chip -/

/-- `path_t`, a mask of lanes. -/
structure Path where
  rx1 : Bool
  rx2 : Bool
  tx1 : Bool
  deriving DecidableEq, Repr

/-- `PATH_NONE`. -/
def Path.none : Path := ⟨false, false, false⟩

/-- The mask has the RX lane. -/
def Path.rx (path : Path) (lane : Lane) : Bool := if lane = .rx1 then path.rx1 else path.rx2

/-- `band_t`. -/
inductive Band
  | lb
  | mb
  | hb
  deriving DecidableEq, Repr

/-- `activation_mode_t`. -/
inductive Activation
  | off
  | fddRx
  | fddTx
  | tdd
  deriving DecidableEq, Repr

/-- What SetPath mounts; the bandwidths are numbers in the tables of `rxbw_t` and `txbw_t`. -/
structure Mount where
  path : Path
  band : Band
  rxbw : Nat
  txbw : Nat
  deriving DecidableEq, Repr

/-- The states the driver takes the chip through. The frequency is a word in steps of 500 Hz, and
the PLL is complete once the lock loop and the MMD program have run. -/
inductive MtState
  | standby
  | trxPllOn (word : Nat) (complete : Bool)
  /-- `activated` when it was entered from ACTIVE. -/
  | prepared (word : Nat) (mount : Mount) (activated : Bool)
  | active (word : Nat) (mount : Mount) (mode : Activation)
  deriving DecidableEq, Repr

/-- The chip: its state and the gain words written last. -/
structure Mt3812 where
  state : MtState
  rxGain : Lane → Option Nat
  txGain : Option Nat

namespace Mt3812

variable (chip : Mt3812)

/-- The transmit path: mounted, and activated since. -/
def txOn : Bool :=
  match chip.state with
  | .active _ mount _ => mount.path.tx1
  | .prepared _ mount activated => activated && mount.path.tx1
  | _ => false

/-- TRX_SetTrxPll with mode ON. -/
def setTrxPll (word : Nat) : Option Mt3812 :=
  match chip.state with
  | .standby => some { chip with state := .trxPllOn word false }
  | _ => none

/-- TRX_SetTrxPll with mode OFF. -/
def setTrxPllOff : Option Mt3812 :=
  match chip.state with
  | .trxPllOn .. => some { chip with state := .standby }
  | _ => none

/-- REG_CalTrxPll; an unlocked PLL counts as a refusal. -/
def calTrxPll : Option Mt3812 :=
  match chip.state with
  | .trxPllOn .. => some chip
  | _ => none

/-- AccPLL. -/
def accPll (word : Nat) : Option Mt3812 :=
  match chip.state with
  | .trxPllOn old _ => some { chip with state := .trxPllOn old (old = word) }
  | _ => none

/-- TRX_SetPath. An unmount has to carry the band and the bandwidths that are live. -/
def setPath (mount : Mount) : Option Mt3812 :=
  match chip.state with
  | .trxPllOn word true =>
      if mount.path ≠ .none then some { chip with state := .prepared word mount false } else none
  | .prepared word live _ =>
      if mount = { live with path := .none } then
        some { chip with state := .trxPllOn word true }
      else none
  | _ => none

/-- TRX_GetPath. -/
def getPath : Mount :=
  match chip.state with
  | .prepared _ mount _ | .active _ mount _ => mount
  | _ => ⟨.none, .lb, 0, 0⟩

/-- TRX_SetRxBw. -/
def setRxBw (bw : Nat) : Option Mt3812 :=
  match chip.state with
  | .prepared word mount activated =>
      some { chip with state := .prepared word { mount with rxbw := bw } activated }
  | _ => none

/-- A path is mounted, which is when TRX_SetGain is legal. -/
def mounted : Bool :=
  match chip.state with
  | .prepared .. | .active .. => true
  | _ => false

/-- TRX_SetGain of an RX lane. -/
def setRxGain (lane : Lane) (code : Nat) : Option Mt3812 :=
  if chip.mounted then
    some { chip with rxGain := fun other => if other = lane then some code else chip.rxGain other }
  else none

/-- TRX_SetGain of the TX lane. -/
def setTxGain (code : Nat) : Option Mt3812 :=
  if chip.mounted then some { chip with txGain := some code } else none

/-- TRX_SetActive. -/
def setActive (mode : Activation) : Option Mt3812 :=
  match chip.state with
  | .prepared word mount _ =>
      if mode ≠ .off then some { chip with state := .active word mount mode } else none
  | .active word mount _ =>
      if mode = .off then some { chip with state := .prepared word mount true } else none
  | _ => none

end Mt3812

/-! ## The driver's procedures -/

/-- `struct rfnm_yucca_priv`. -/
@[ext]
structure Mirror where
  /-- 0 when the PLL is off. -/
  loHz : Nat
  path : Path
  rxbw : Nat
  txbw : Nat
  act : Activation
  /-- `none` for -1, unknown. -/
  rxGainCode : Lane → Option Nat
  txGainCode : Option Nat

/-- The chip and the mirror. -/
structure Mt where
  chip : Mt3812
  mirror : Mirror

/-- `enum sys_state`, as GetSysStatus reports it. -/
inductive SysState
  | standby
  | trxPllOn
  | prepared
  | active
  deriving DecidableEq, Repr

def Mt.sysState (mt : Mt) : SysState :=
  match mt.chip.state with
  | .standby => .standby
  | .trxPllOn .. => .trxPllOn
  | .prepared .. => .prepared
  | .active .. => .active

/-- A call of the chip's library. -/
def api (effect : Mt3812 → Option Mt3812) : Proc Mt Unit :=
  call fun mt => (effect mt.chip).map fun chip => { mt with chip := chip }

/-- What the driver writes in the mirror. -/
def keep (change : Mirror → Mirror) : Proc Mt Unit :=
  modify fun mt => { mt with mirror := change mt.mirror }

/-- `yucca_rxbw_from_mhz`. -/
def rxbwFromMhz (mhz : Int) : Nat :=
  (([20, 25, 30, 40, 50, 60, 70, 80, 90, 100, 200, 400] : List Int).findIdx? (mhz ≤ ·)).getD 11

/-- `yucca_txbw_from_mhz`. -/
def txbwFromMhz (mhz : Int) : Nat :=
  (([50, 100, 200, 400] : List Int).findIdx? (mhz ≤ ·)).getD 3

/-- `yucca_rx_gain_code`. -/
def rxGainCode (gain : Int) : Nat := (min (max gain 0) 77).toNat

/-- `yucca_tx_gain_code`. -/
def txGainCode (power : Int) : Nat := (min (max (power + 10) 0) 31).toNat

/-- `yucca_band_for`. -/
def bandFor (freq : Nat) : Band :=
  if freq < 3150000000 then .lb else if freq ≤ 4000000000 then .mb else .hb

/-- The 24 bits of the frequency that SetTrxPll takes. -/
def loWord (loHz : Nat) : Nat := loHz / 500 % 2 ^ 24

/-- `yucca_mt_pll_mount`. -/
def pllMount (loHz : Nat) : Proc Mt Unit := do
  api (·.setTrxPll (loWord loHz))
  api (·.calTrxPll)
  api (·.accPll (loWord loHz))
  keep fun mirror => { mirror with loHz := loHz }

/-- `yucca_mt_to_standby`, with the tries it has left. -/
def toStandby : Nat → Proc Mt Unit
  | 0 => fail
  | tries + 1 => do
      match ← query Mt.sysState with
      | .standby => keep fun mirror => { mirror with loHz := 0, path := .none, act := .off }
      | .active => do
          api (·.setActive .off)
          toStandby tries
      | .prepared => do
          let live ← query fun mt => mt.chip.getPath
          api (·.setPath { live with path := .none })
          toStandby tries
      | .trxPllOn => do
          api (·.setTrxPllOff)
          toStandby tries

/-- `yucca_mt_set_rx_gain`. -/
def setRxGain (lane : Lane) (code : Nat) : Proc Mt Unit := do
  let known ← read fun mt => decide (mt.mirror.rxGainCode lane = some code)
  onlyIf (!known) do
    api (·.setRxGain lane code)
    keep fun mirror =>
      { mirror with
        rxGainCode := fun other => if other = lane then some code else mirror.rxGainCode other }

/-- `yucca_mt_set_tx_gain`. -/
def setTxGain (code : Nat) : Proc Mt Unit := do
  let known ← read fun mt => decide (mt.mirror.txGainCode = some code)
  onlyIf (!known) do
    api (·.setTxGain code)
    keep fun mirror => { mirror with txGainCode := some code }

/-- A SetActive, and its note in the mirror. -/
def setActive (mode : Activation) : Proc Mt Unit := do
  api (·.setActive mode)
  keep fun mirror => { mirror with act := mode }

/-- `yucca_mt_activate`: from one mode to another it goes through ACT_OFF. -/
def activate (mode : Activation) : Proc Mt Unit := do
  let act ← read fun mt => mt.mirror.act
  onlyIf (act ≠ mode) do
    onlyIf (act ≠ .off ∧ mode ≠ .off) (setActive .off)
    setActive mode

/-! ## Targets -/

/-- `struct yucca_target`. -/
structure Target where
  loHz : Nat
  path : Path
  rxbw : Nat
  txbw : Nat
  act : Activation
  deriving DecidableEq, Repr

/-- The channels an apply builds its target from: the one being applied, and the applied ones of
the others. -/
structure Wanted where
  rx : Lane → RxCh
  tx : Option TxCh
  /-- The frequency of the channel being applied, when it is on. -/
  owner : Option Nat

namespace Wanted

variable (wanted : Wanted)

def path : Path := ⟨(wanted.rx .rx1).on, (wanted.rx .rx2).on, wanted.tx.any TxCh.on⟩

/-- The channel being applied owns the LO; after it come TX and the second and the first lane. -/
def loHz : Nat :=
  match wanted.owner, wanted.tx.filter TxCh.on with
  | some freq, _ => freq
  | none, some tx => tx.freq
  | none, none =>
      if (wanted.rx .rx2).on then (wanted.rx .rx2).freq
      else if (wanted.rx .rx1).on then (wanted.rx .rx1).freq
      else 0

/-- `yucca_compute_target`. -/
def computeTarget : Target :=
  let rxbwMhz (lane : Lane) := if (wanted.rx lane).on then (wanted.rx lane).rficLpfBw else 0
  let path := wanted.path
  { loHz := wanted.loHz
    path := path
    rxbw := rxbwFromMhz (max (max 0 (rxbwMhz .rx1)) (rxbwMhz .rx2))
    txbw := ((wanted.tx.filter TxCh.on).map fun tx => txbwFromMhz tx.rficLpfBw).getD 0
    act :=
      if path.tx1 && (path.rx1 || path.rx2) then .tdd
      else if path.tx1 then .fddTx
      else if path ≠ .none then .fddRx
      else .off }

end Wanted

/-- `yucca_needs_restructure`. -/
def needsRestructure (mirror : Mirror) (target : Target) : Bool :=
  target.path ≠ mirror.path || target.act ≠ mirror.act ||
    target.path ≠ .none &&
      (target.loHz ≠ mirror.loHz || target.rxbw ≠ mirror.rxbw || target.txbw ≠ mirror.txbw)

/-- The gain words are unknown. -/
def Mirror.forgetGains (mirror : Mirror) : Mirror :=
  { mirror with rxGainCode := fun _ => none, txGainCode := none }

/-- The mount of a target. -/
def Target.mount (target : Target) : Mount :=
  ⟨target.path, bandFor target.loHz, target.rxbw, target.txbw⟩

/-- The ladder of `yucca_restructure` above STANDBY. -/
def remount (wanted : Wanted) : Proc Mt Unit := do
  let target := wanted.computeTarget
  pllMount target.loHz
  api (·.setPath target.mount)
  keep fun mirror =>
    { mirror with path := target.path, rxbw := target.rxbw, txbw := target.txbw }
  onlyIf (target.path.rx1 || target.path.rx2) (api (·.setRxBw target.rxbw))
  onlyIf target.path.rx1 (setRxGain .rx1 (rxGainCode (wanted.rx .rx1).gain))
  onlyIf target.path.rx2 (setRxGain .rx2 (rxGainCode (wanted.rx .rx2).gain))
  onlyIf target.path.tx1 (setTxGain (txGainCode (wanted.tx.elim 0 TxCh.power)))
  activate target.act

/-- `yucca_restructure`. -/
def restructure (wanted : Wanted) : Proc Mt Unit := do
  toStandby 5
  keep Mirror.forgetGains
  onlyIf (wanted.computeTarget.path ≠ .none) (remount wanted)

/-- `yucca_fail_safe`, for the chip: the mirror is cleared whatever the walk came to. -/
def failSafe : Proc Mt Unit := do
  let _ ← attempt (toStandby 5)
  keep fun mirror => { mirror with loHz := 0, path := .none, act := .off }.forgetGains

/-- A procedure of an apply; a refusal ends in the fail-safe. -/
def guarded (first : Proc Mt Unit) : Proc Mt Bool := do
  let succeeds ← attempt first
  onlyIf (!succeeds) failSafe
  pure succeeds

/-! ## Applies -/

/-- `YUCCA_FREQ_MIN` and `YUCCA_FREQ_MAX`. -/
def inEnvelope (freq : Nat) : Bool := 2496000000 ≤ freq && freq ≤ 5000000000

/-- `struct rfnm_dgb`: the chip with its mirror, and the applied channels. -/
structure Board where
  mt : Mt
  txS : Option TxCh
  rxS : Lane → RxCh

/-- One apply, with the chip's answers to its calls. -/
inductive Event
  | txSet (ch : TxCh) (answers : List Bool)
  | rxSet (lane : Lane) (ch : RxCh) (answers : List Bool)

namespace Board

variable (board : Board)

/-- The channels as a TX apply sees them. -/
def txWanted (ch : TxCh) : Wanted :=
  { rx := board.rxS, tx := some ch, owner := if ch.on then some ch.freq else none }

/-- The channels as an RX apply sees them. -/
def rxWanted (lane : Lane) (ch : RxCh) : Wanted :=
  { rx := fun other => if other = lane then ch else board.rxS other
    tx := board.txS
    owner := if ch.on then some ch.freq else none }

/-- What an apply does with the chip: it remounts it, or it writes a gain if its lane is on. -/
def applyProc (wanted : Wanted) (on : Bool) (gain : Proc Mt Unit) : Proc Mt Unit := do
  let needs ← read fun mt => needsRestructure mt.mirror wanted.computeTarget
  if needs then restructure wanted else onlyIf on gain

/-- `rfnm_tx_ch_set`; whether it succeeds. -/
def txSet (ch : TxCh) (answers : List Bool) : Board × Bool :=
  if ch.on && !inEnvelope ch.freq then (board, false)
  else
    let proc := applyProc (board.txWanted ch) ch.on (setTxGain (txGainCode ch.power))
    let (succeeds, mt, _) := guarded proc board.mt answers
    if succeeds = some true then ({ board with mt := mt, txS := some ch }, true)
    else ({ board with mt := mt }, false)

/-- `rfnm_rx_ch_set`. -/
def rxSet (lane : Lane) (ch : RxCh) (answers : List Bool) : Board × Bool :=
  if ch.on && !inEnvelope ch.freq then (board, false)
  else
    let proc := applyProc (board.rxWanted lane ch) ch.on (setRxGain lane (rxGainCode ch.gain))
    let (succeeds, mt, _) := guarded proc board.mt answers
    if succeeds = some true then
      ({ board with
          mt := mt
          rxS := fun other => if other = lane then ch else board.rxS other }, true)
    else ({ board with mt := mt }, false)

/-- A board without a TX channel gets no TX apply. -/
def offers : Event → Bool
  | .txSet .. => board.txS.isSome
  | .rxSet .. => true

/-- One apply. -/
def apply : Event → Board × Bool
  | .txSet ch answers => board.txSet ch answers
  | .rxSet lane ch answers => board.rxSet lane ch answers

def next (board : Board) (event : Event) : Option Board :=
  if board.offers event then some (board.apply event).1 else none

/-- After `rfnm_yucca_probe`, with or without a TX channel. -/
def probed (hasTx : Bool) : Board :=
  { mt :=
      { chip := ⟨.standby, fun _ => none, none⟩
        mirror := ⟨0, .none, 0, 0, .off, fun _ => none, none⟩ }
    txS := if hasTx then some ⟨0, 0, 0, .rfOff⟩ else none
    rxS := fun _ => ⟨0, 0, 0, .rfOff⟩ }

end Board

end RfnmDriver.Yucca
