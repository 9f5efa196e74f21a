import RfnmDriver.Library.RefusableCalls
import RfnmDriver.Daughterboard.ChannelTypes

/-!
# Applies on the Granita board

`rfnm_tx_ch_set` and `rfnm_rx_ch_set` of `rfnm_granita_m.c`, as sequences of calls of the chip's
library. The driver keeps no copy of what the chip is set to, so `SiCore` is the calls that the chip
accepted.
-/

namespace RfnmDriver.Granita

open RefusableCalls Proc

/-- A receiver of the board, `dgb_ch_id` of its channel. -/
abbrev Lane := Fin 2

/-- The receiver of SMA A. -/
abbrev Lane.a : Lane := ⟨0, Nat.zero_lt_two⟩

/-- The receiver of SMA B. -/
abbrev Lane.b : Lane := ⟨1, Nat.one_lt_two⟩

/-- What the chip calls of `rfnm_tx_ch_set` depend on in `struct rfnm_api_tx_ch`. -/
structure TxCh where
  freq : Nat
  power : Int
  rficLpfBw : Int
  path : RfPath
  enable : ChEnable
  deriving DecidableEq, Repr

/-- What the chip calls of `rfnm_rx_ch_set` depend on in `struct rfnm_api_rx_ch`. -/
structure RxCh where
  freq : Nat
  gain : Int
  rficLpfBw : Int
  path : RfPath
  enable : ChEnable
  deriving DecidableEq, Repr

/-! ## The chip's library -/

/-- `SIAPI_PATH_A`. -/
def siapiPathA : Nat := 8

/-- `SIAPI_PATH_B`. -/
def siapiPathB : Nat := 2

/-- `SIAPI_PATH_ALL`. -/
def siapiPathAll : Nat := siapiPathB ||| siapiPathA

/-- The calls, with the path mask, frequencies in kHz and the bandwidth of the filter in kHz. -/
inductive SiCall
  | powerUpTx (mask khz lpf : Nat)
  | powerUpRx (mask khz lpf : Nat)
  | loopback (mask txKhz rxKhz : Nat)
  | txGain (mask : Nat) (gain : Int)
  | rxGain (mask : Nat) (gain : Int)
  deriving DecidableEq, Repr

/-- The calls that switch the transmit path on. There is none here that switches it off. -/
def SiCall.switchesTxOn : SiCall → Bool
  | .powerUpTx .. | .loopback .. => true
  | _ => false

/-- The chip: the calls it has accepted, the last one first. -/
structure SiCore where
  calls : List SiCall
  deriving DecidableEq, Repr

/-- The transmit path. -/
def SiCore.txOn (core : SiCore) : Bool := core.calls.any SiCall.switchesTxOn

/-- A call; the chip may refuse it. -/
def si (made : SiCall) : Proc SiCore Unit := call fun core => some ⟨made :: core.calls⟩

def khz (freq : Nat) : Nat := freq / 1000

/-- `parse_granita_iq_lpf`. -/
def iqLpf (mhz : Int) : Nat :=
  if 400 ≤ mhz then 400000
  else if 320 ≤ mhz then 320000
  else if 200 ≤ mhz then 200000
  else if 160 ≤ mhz then 160000
  else if 100 ≤ mhz then 100000
  else if 80 ≤ mhz then 80000
  else if 60 ≤ mhz then 60000
  else if 40 ≤ mhz then 40000
  else if 1 ≤ mhz then 20000
  else 100000

/-- `rfnm_granita_tdd`. -/
def tdd (tx : TxCh) (rx : RxCh) : Proc SiCore Unit := do
  si (.loopback siapiPathAll (khz tx.freq) (khz rx.freq))
  si (.rxGain siapiPathAll rx.gain)
  si (.txGain siapiPathB 48)

/-! ## Applies -/

/-- The chip, and the wanted and the applied channels. Only the board of the first slot has a TX
channel; the pointers to it are null on the other. -/
structure Board where
  core : SiCore
  txS : Option TxCh
  rxCh : Lane → RxCh
  rxS : Lane → RxCh

/-- An apply with the chip's answers to its calls, or a wanted copy that is only written. -/
inductive Event
  | txSet (ch : TxCh) (answers : List Bool)
  | rxSet (lane : Lane) (ch : RxCh) (answers : List Bool)
  | rxWant (lane : Lane) (ch : RxCh)

namespace Board

variable (board : Board)

/-- The frequency of the first RX channel whose wanted path is the loopback. With no such channel
the search goes on to the null pointers behind them, and does not come back. -/
def loopbackFreq : Option Nat :=
  if (board.rxCh .a).path = .loopback then some (board.rxCh .a).freq
  else if (board.rxCh .b).path = .loopback then some (board.rxCh .b).freq
  else none

/-- The loopback calls of `rfnm_tx_ch_set`. -/
def txLoopback (ch : TxCh) : Proc SiCore Unit :=
  match board.loopbackFreq with
  | none | some 0 => fail
  | some rxFreq => do
      si (.loopback siapiPathAll (khz ch.freq) (khz rxFreq))
      si (.rxGain siapiPathAll 0)
      si (.txGain siapiPathB ch.power)

/-- The first RX channel applied in TDD. -/
def tddRx : Option RxCh :=
  if (board.rxS .a).enable = .rfOnTdd then some (board.rxS .a)
  else if (board.rxS .b).enable = .rfOnTdd then some (board.rxS .b)
  else none

/-- The TDD calls of `rfnm_tx_ch_set`. What becomes of them is not looked at. -/
def txTdd (ch : TxCh) : Proc SiCore Unit :=
  match board.tddRx with
  | none => pure ()
  | some rx => do
      let _ ← attempt (tdd ch rx)
      pure ()

/-- The chip calls of `rfnm_tx_ch_set`. -/
def txCalls (ch : TxCh) : Proc SiCore Unit := do
  onlyIf (ch.path ≠ .loopback && ch.enable ≠ .rfOnTdd) do
    si (.powerUpTx siapiPathB (khz ch.freq) (iqLpf ch.rficLpfBw))
    si (.txGain siapiPathB 48)
  onlyIf (ch.path = .loopback && ch.enable ≠ .rfOnTdd) (board.txLoopback ch)
  onlyIf (ch.enable = .rfOnTdd) (board.txTdd ch)

/-- `dbm`, once the port's attenuator has its share. -/
def stagedDbm (lane : Lane) (ch : RxCh) : Int :=
  if ch.path = (if lane = .a then .smaA else .smaB) then
    if ch.gain < -12 then ch.gain + 24 else if ch.gain < 0 then ch.gain + 12 else ch.gain
  else ch.gain

/-- `gr_api_id`: with the lane the other one, if it is on. -/
def apiId (lane : Lane) : Nat :=
  let own := if lane = .a then siapiPathA else siapiPathB
  if (board.rxS lane.rev).enable = .rfOn then siapiPathAll else own

/-- The frequency the chip is tuned to; below 600 MHz the mixer in front of it moves the band. -/
def chipFreq (ch : RxCh) : Nat :=
  if ch.freq < 600000000 then
    if ch.rficLpfBw ≠ 0 ∧ ch.rficLpfBw ≤ 30 then 1615000000 else 1198000000
  else ch.freq

/-- The chip calls of `rfnm_rx_ch_set`. In TDD it looks at the TX channel, which has to be there. -/
def rxCalls (lane : Lane) (ch : RxCh) : Proc SiCore Unit := do
  onlyIf (ch.path ≠ .loopback && ch.enable ≠ .rfOnTdd) do
    si (.powerUpRx (board.apiId lane) (khz (chipFreq ch)) (iqLpf ch.rficLpfBw))
    onlyIf (0 < stagedDbm lane ch)
      (si (.rxGain (board.apiId lane) (min (stagedDbm lane ch) 64)))
  onlyIf (ch.enable = .rfOnTdd) do
    match board.txS with
    | none => fail
    | some tx => onlyIf (tx.enable = .rfOnTdd) do
        let _ ← attempt (tdd tx ch)
        pure ()

/-- `rfnm_tx_ch_set`; whether it succeeds. -/
def txSet (ch : TxCh) (answers : List Bool) : Board × Bool :=
  match board.txCalls ch board.core answers with
  | (some _, core, _) => ({ board with core := core, txS := some ch }, true)
  | (none, core, _) => ({ board with core := core }, false)

/-- The wanted copy is written, whatever becomes of it. -/
def rxWant (lane : Lane) (ch : RxCh) : Board :=
  { board with rxCh := fun other => if other = lane then ch else board.rxCh other }

/-- `rfnm_rx_ch_set`. -/
def rxSet (lane : Lane) (ch : RxCh) (answers : List Bool) : Board × Bool :=
  match board.rxCalls lane ch board.core answers with
  | (some _, core, _) =>
      ({ board.rxWant lane ch with
          core := core
          rxS := fun other => if other = lane then ch else board.rxS other }, true)
  | (none, core, _) => ({ board.rxWant lane ch with core := core }, false)

/-- A board without a TX channel gets no TX apply. -/
def offers : Event → Bool
  | .txSet .. => board.txS.isSome
  | _ => true

def apply : Event → Board × Bool
  | .txSet ch answers => board.txSet ch answers
  | .rxSet lane ch answers => board.rxSet lane ch answers
  | .rxWant lane ch => (board.rxWant lane ch, true)

def next (board : Board) (event : Event) : Option Board :=
  if board.offers event then some (board.apply event).1 else none

/-- After `rfnm_granita_probe`, in the first slot or in the other. -/
def probed (hasTx : Bool) : Board :=
  { core := ⟨[]⟩
    txS := if hasTx then some ⟨0, 0, 0, .null, .rfOff⟩ else none
    rxCh := fun _ => ⟨0, 0, 0, .null, .rfOff⟩
    rxS := fun _ => ⟨0, 0, 0, .null, .rfOff⟩ }

end Board

end RfnmDriver.Granita
