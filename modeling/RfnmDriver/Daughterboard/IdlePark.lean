import RfnmDriver.Lime.Board
import RfnmDriver.Granita.Board
import RfnmDriver.Yucca.Board

/-!
# The TX idle park

Three contexts work on the TX channels of `rfnm_daughterboard.c`: the worker of the client's channel
lists, under `rfnm_chlist_apply_lock`; the park work that the RX producer's stand-down edge
schedules, outside of it; and the session reset. `System.next` interleaves them, one access to a
channel or one call of a board's `tx_ch_set` at a time.
-/

namespace RfnmDriver.IdlePark

/-- `enum rfnm_ch_stream`. -/
inductive ChStream
  | auto
  | off
  | on
  deriving DecidableEq, Repr

/-- What the board drivers and `rfnm_dgb_tx_set` read of `struct rfnm_api_tx_ch`. -/
structure TxCh where
  freq : Nat
  power : Int
  rficLpfBw : Int
  path : RfPath
  biasTee : Bool
  enable : ChEnable
  stream : ChStream
  deriving DecidableEq, Repr

namespace TxCh

variable (ch : TxCh)

/-- As the Lime driver sees it. -/
def lime : Lime.TxCh := ⟨ch.freq, ch.power, ch.path, ch.biasTee, ch.enable⟩

/-- As the Granita driver sees it. -/
def granita : Granita.TxCh := ⟨ch.freq, ch.power, ch.rficLpfBw, ch.path, ch.enable⟩

/-- As the Yucca driver sees it. -/
def yucca : Yucca.TxCh := ⟨ch.freq, ch.power, ch.rficLpfBw, ch.enable⟩

end TxCh

/-- What a chip answers to the calls of one apply. -/
structure Answers where
  tune : Lime.Tune
  calls : List Bool

/-- The board behind a TX channel. The Lime driver registers one for its first slot only. -/
inductive TxBoard
  | lime (driver : Lime.Driver)
  | granita (board : Granita.Board)
  | yucca (board : Yucca.Board)

/-- The module parameters, and the number of TX channels. -/
structure Params where
  lime : Lime.Params
  txIdlePark : Bool
  count : Nat

namespace TxBoard

/-- The `tx_ch_set` of the board; whether it succeeds. -/
def txSet (params : Params) (board : TxBoard) (ch : TxCh) (answers : Answers) : TxBoard × Bool :=
  match board with
  | .lime driver =>
      ((driver.txSet params.lime .primary ch.lime answers.tune).map TxBoard.lime id)
  | .granita board => (board.txSet ch.granita answers.calls).map TxBoard.granita id
  | .yucca board => (board.txSet ch.yucca answers.calls).map TxBoard.yucca id

/-- `tx_s->enable`. -/
def applied : TxBoard → ChEnable
  | .lime driver => (driver.board .primary).txS.elim .rfOff Lime.TxCh.enable
  | .granita board => board.txS.elim .rfOff Granita.TxCh.enable
  | .yucca board => board.txS.elim .rfOff Yucca.TxCh.enable

/-- The transmit path of the chip. -/
def txOn : TxBoard → Bool
  | .lime driver => (driver.board .primary).chip.txEnabled
  | .granita board => board.core.txOn
  | .yucca board => board.mt.chip.txOn

end TxBoard

/-- A registered TX channel: its wanted copy, and the board with the applied one. -/
structure Port where
  board : TxBoard
  txCh : TxCh

/-! ## The contexts -/

/-- Where the park work is; it has not looked at the channels from here on. -/
inductive ParkPhase
  | idle
  /-- Before the test of `enable`. -/
  | check (i : Nat)
  /-- Before the store to `enable`. -/
  | clear (i : Nat)
  /-- Before `rfnm_dgb_tx_set`. -/
  | call (i : Nat)
  deriving DecidableEq, Repr

/-- What a channel list does with a channel: its validation refuses it, its mask leaves it at the
wanted copy, or it is applied. -/
inductive Part
  | refused
  | copied (ch : TxCh)
  | applied (ch : TxCh)

/-- Where the work of a channel list is. -/
inductive ApplyPhase
  | idle
  /-- Before the copy of a channel. -/
  | copy (list : Nat → Part) (i : Nat)
  /-- Before `rfnm_dgb_tx_set`. -/
  | call (list : Nat → Part) (i : Nat)

structure System where
  /-- The TX channels, in the order of the loops over slots and channels. -/
  ports : Nat → Port
  /-- `rfnm_tx_dac_s`. -/
  txDacS : Bool
  /-- `rfnm_rx_standdown_active`. -/
  standdownActive : Bool
  /-- `rfnm_dgb_tx_idle_park_w` is queued. -/
  parkPending : Bool
  park : ParkPhase
  apply : ApplyPhase

inductive Event
  /-- A producer pass that finds no live consumer. -/
  | standDown
  /-- A producer pass that finds one again. -/
  | resume
  | parkStart
  /-- The next access of the park work, with the chip's answers if it is a call. -/
  | park (answers : Answers)
  | applyStart (list : Nat → Part)
  /-- The next access of the channel list's work. -/
  | apply (answers : Answers)
  /-- `rfnm_dgb_reset_sm` comes to a channel. -/
  | reset (i : Nat)

namespace System

variable (params : Params) (system : System)

def putPort (i : Nat) (port : Port) : System :=
  { system with ports := Function.update system.ports i port }

/-- A write of the wanted copy. -/
def putCh (i : Nat) (ch : TxCh) : System :=
  system.putPort i { system.ports i with txCh := ch }

/-- The board of the channel once `tx_ch_set` is called with the wanted copy. -/
def called (i : Nat) (answers : Answers) : TxBoard × Bool :=
  (system.ports i).board.txSet params (system.ports i).txCh answers

/-- `rfnm_dgb_tx_set`. -/
def dgbTxSet (i : Nat) (answers : Answers) : System :=
  let ch := (system.ports i).txCh
  let dacS : Bool := match ch.stream with
    | .auto => ch.enable ≠ .rfOff
    | .on => true
    | .off => false
  { system.putPort i { system.ports i with board := (system.called params i answers).1 } with
    txDacS := if (system.called params i answers).2 then dacS else system.txDacS }

/-- `rfnm_dgb_tx_idle_park_work`, one access. -/
def parkStep (answers : Answers) : Option System :=
  match system.park with
  | .idle => none
  | .check i =>
      if params.count ≤ i then some { system with park := .idle }
      else if (system.ports i).txCh.enable = .rfOff then some { system with park := .check (i + 1) }
      else some { system with park := .clear i }
  | .clear i =>
      some { system.putCh i { (system.ports i).txCh with enable := .rfOff } with park := .call i }
  | .call i => some { system.dgbTxSet params i answers with park := .check (i + 1) }

/-- `rfnm_apply_dev_tx_chlist_work_locked`, one access. -/
def applyStep (answers : Answers) : Option System :=
  match system.apply with
  | .idle => none
  | .copy list i =>
      if params.count ≤ i then some { system with apply := .idle }
      else match list i with
        | .refused => some { system with apply := .copy list (i + 1) }
        | .copied ch => some { system.putCh i ch with apply := .copy list (i + 1) }
        | .applied ch => some { system.putCh i ch with apply := .call list i }
  | .call list i => some { system.dgbTxSet params i answers with apply := .copy list (i + 1) }

/-- One event. A work item does not run beside itself. -/
def next : Event → Option System
  | .standDown =>
      if system.standdownActive then none
      else some { system with
        standdownActive := true
        parkPending := system.parkPending || params.txIdlePark }
  | .resume => if system.standdownActive then some { system with standdownActive := false } else none
  | .parkStart =>
      if system.parkPending && system.park = .idle then
        some { system with parkPending := false, park := .check 0 }
      else none
  | .park answers => system.parkStep params answers
  | .applyStart list =>
      match system.apply with
      | .idle => some { system with apply := .copy list 0 }
      | _ => none
  | .apply answers => system.applyStep params answers
  | .reset i =>
      some { system.putCh i { (system.ports i).txCh with enable := .rfOff, stream := .off } with
        txDacS := false }

end System

/-! ## Probe -/

inductive BoardKind
  | lime
  | granita
  | yucca
  deriving DecidableEq, Repr

/-- A board after its probe. -/
def BoardKind.probed : BoardKind → TxBoard
  | .lime => .lime .probed
  | .granita => .granita (.probed true)
  | .yucca => .yucca (.probed true)

/-- The channels of freshly probed boards, and nothing under way. -/
def System.probed (kinds : Nat → BoardKind) : System :=
  { ports := fun i => ⟨(kinds i).probed, ⟨0, 0, 0, .null, false, .rfOff, .auto⟩⟩
    txDacS := false
    standdownActive := false
    parkPending := false
    park := .idle
    apply := .idle }

end RfnmDriver.IdlePark
