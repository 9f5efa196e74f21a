import Mathlib.Algebra.Group.Int.Defs
import RfnmDriver.Library.StepSystem

/-!
# The pump of the virtual TX windows

The queue between `rfnm_la9310_tx_window` and the VSPA mailbox: a window is taken into it, and
`rfnm_vwin_pump` sends the head once its predecessor has closed, drops it when its send slot is
gone, or waits. An event is one round of the pump loop, or what its callers do around it. The code
keeps 32-bit ticks; the ghost fields are the 64-bit ones, and a log of what became of each window.
-/

namespace RfnmDriver.LaLib

/-- `RFNM_VWIN_QLEN`. -/
def vwinQlen : Nat :=
  512

/-- `RFNM_VWIN_SETUP_MARGIN_TICKS`. -/
def vwinSetupMarginTicks : Nat :=
  6144

/-- `RFNM_VWIN_CLOSE_MARGIN_TICKS`. -/
def vwinCloseMarginTicks : Nat :=
  64

/-- `struct rfnm_vwin`, with the 64-bit ticks it opens and closes at. -/
structure Vwin where
  openTick : BitVec 32
  closeTick : BitVec 32
  srcSlot : BitVec 32
  lenSlots : BitVec 32
  openAir : Int
  closeAir : Int
  deriving DecidableEq, Repr

/-- `rfnm_vwin_stats`. -/
structure VwinStats where
  sent : Nat
  late : Nat
  qfull : Nat
  mboxBusy : Nat
  noLatch : Nat
  rtcErr : Nat
  deriving DecidableEq, Repr

/-- What the pump, or a reset, did about the window at the head. -/
inductive Note
  /-- `predecessor` had not closed. -/
  | deferred (window : Vwin) (now64 predecessor : Int)
  | sent (window : Vwin)
  | late (window : Vwin) (now64 : Int) (mboxBusy : Bool)
  | dropped (window : Vwin)
  deriving DecidableEq, Repr

/-- The queue and its pacing state. -/
structure Pump where
  now64 : Int
  /-- `rfnm_vwin_q`, from `cons` to `prod`. -/
  queue : List Vwin
  busyUntil : BitVec 32
  busyValid : Bool
  nextNs : Nat
  stats : VwinStats
  /-- The 64-bit tick of `busyUntil`. -/
  busyAir : Int
  /-- The windows taken into the queue, in order. -/
  accepted : List Vwin
  /-- What became of them, the latest first. -/
  log : List Note
  deriving DecidableEq, Repr

/-- What happens around the pump. -/
inductive PumpEvent
  | elapse (ticks : Nat)
  /-- `rfnm_la9310_tx_window`, past its checks of the device: the window opens at this 64-bit tick.
  `latched` is bit 5 of `tx_state`, `rtcOk` is whether `rfnm_rtc_push` succeeds. -/
  | txWindow (openAir : Int) (srcSlot lenSlots rShift : Nat) (latched rtcOk : Bool)
  /-- `rfnm_vwin_timer_fn`, up to its call of the pump. -/
  | timer
  /-- A round of the loop of `rfnm_vwin_pump`: whether the device is out of reach, and bit 0 of the
  mailbox status. -/
  | pump (fenced mboxBusy : Bool)
  /-- `rfnm_vwin_reset`. -/
  | reset
  deriving DecidableEq, Repr

/-- `rfnm_la9310_phytimer_now`. -/
def Pump.now (pump : Pump) : BitVec 32 :=
  BitVec.ofInt 32 pump.now64

/-- `rfnm_ticks_to_ns`. -/
def ticksToNs (ticks : BitVec 32) : Nat :=
  ticks.toNat * 3125 / 192

/-- The predecessor is still open, as far as the pump can see. -/
def Pump.PredecessorOpen (pump : Pump) : Prop :=
  pump.busyValid = true ∧ 0 < (pump.busyUntil - pump.now).toInt

/-- The send slot of the window is gone, as far as the pump can see. -/
def Pump.SlotGone (pump : Pump) (window : Vwin) : Prop :=
  0 < (pump.now - (window.openTick - BitVec.ofNat 32 vwinSetupMarginTicks)).toInt

instance (pump : Pump) : Decidable pump.PredecessorOpen :=
  inferInstanceAs (Decidable (_ ∧ _))

instance (pump : Pump) (window : Vwin) : Decidable (pump.SlotGone window) :=
  inferInstanceAs (Decidable (_ < _))

/-- The window that `rfnm_la9310_tx_window` takes into the queue. -/
def Vwin.make (openAir : Int) (srcSlot lenSlots rShift : Nat) : Vwin :=
  let openTick := BitVec.ofInt 32 openAir
  let tps := 128#32 <<< rShift
  let lenTicks := BitVec.ofNat 32 lenSlots * tps - tps / 4
  { openTick := openTick
    closeTick := openTick + lenTicks
    srcSlot := BitVec.ofNat 32 srcSlot
    lenSlots := BitVec.ofNat 32 lenSlots
    openAir := openAir
    closeAir := openAir + lenSlots * tps.toNat - (tps.toNat / 4 : Nat) }

/-- `rfnm_la9310_tx_window`, up to its call of the pump. -/
def Pump.txWindow (pump : Pump) (window : Vwin) (latched rtcOk : Bool) : Pump :=
  if ¬ latched then { pump with stats := { pump.stats with noLatch := pump.stats.noLatch + 1 } }
  else if vwinQlen ≤ pump.queue.length then
    { pump with stats := { pump.stats with qfull := pump.stats.qfull + 1 } }
  else if ¬ rtcOk then { pump with stats := { pump.stats with rtcErr := pump.stats.rtcErr + 1 } }
  else
    { pump with
      queue := pump.queue ++ [window]
      nextNs := 0
      accepted := pump.accepted ++ [window] }

/-- A round of the pump loop with the window at the head. -/
def Pump.round (pump : Pump) (window : Vwin) (rest : List Vwin) (mboxBusy : Bool) : Pump :=
  if pump.PredecessorOpen then
    { pump with
      nextNs := ticksToNs (pump.busyUntil - pump.now)
      log := .deferred window pump.now64 pump.busyAir :: pump.log }
  else if pump.SlotGone window then
    { pump with
      queue := rest
      stats := { pump.stats with late := pump.stats.late + 1 }
      log := .late window pump.now64 mboxBusy :: pump.log }
  else if mboxBusy then
    { pump with
      nextNs := 20000
      stats := { pump.stats with mboxBusy := pump.stats.mboxBusy + 1 } }
  else
    { pump with
      queue := rest
      busyUntil := window.closeTick + BitVec.ofNat 32 vwinCloseMarginTicks
      busyValid := true
      stats := { pump.stats with sent := pump.stats.sent + 1 }
      busyAir := window.closeAir + vwinCloseMarginTicks
      log := .sent window :: pump.log }

/-- One step; the loop has no round when the queue is empty. -/
def Pump.next (pump : Pump) : PumpEvent → Option Pump
  | .elapse ticks => some { pump with now64 := pump.now64 + ticks }
  | .txWindow openAir srcSlot lenSlots rShift latched rtcOk =>
      some (pump.txWindow (.make openAir srcSlot lenSlots rShift) latched rtcOk)
  | .timer => some { pump with nextNs := 0 }
  | .pump fenced mboxBusy =>
      match pump.queue with
      | [] => none
      | window :: rest => some (if fenced then pump else pump.round window rest mboxBusy)
  | .reset =>
      some { pump with
        queue := []
        busyValid := false
        nextNs := 0
        log := pump.queue.reverse.map .dropped ++ pump.log }

/-- The module is loaded at this tick. -/
def Pump.init (now64 : Int) : Pump where
  now64 := now64
  queue := []
  busyUntil := 0
  busyValid := false
  nextNs := 0
  stats := { sent := 0, late := 0, qfull := 0, mboxBusy := 0, noLatch := 0, rtcErr := 0 }
  busyAir := 0
  accepted := []
  log := []

/-! ## Pacing -/

/-- The window a note says is done with. -/
def Note.settled : Note → Option Vwin
  | .deferred _ _ _ => none
  | .sent window => some window
  | .late window _ _ => some window
  | .dropped window => some window

/-- By the 64-bit clock a window waits only for a predecessor that is still open, and is late, with
the mailbox free, only when its send slot is gone. -/
def Note.Honest : Note → Prop
  | .deferred _ now64 predecessor => now64 < predecessor
  | .late window now64 mboxBusy =>
      mboxBusy = false → window.openAir - now64 ≤ vwinSetupMarginTicks
  | .sent _ => True
  | .dropped _ => True

instance : DecidablePred Note.Honest
  | .deferred _ _ _ => inferInstanceAs (Decidable (_ < _))
  | .late _ _ _ => inferInstanceAs (Decidable (_ → _))
  | .sent _ => inferInstanceAs (Decidable True)
  | .dropped _ => inferInstanceAs (Decidable True)

/-- Windows leave the queue in the order they came, each once, and the counters count them. -/
structure Pump.Kept (pump : Pump) : Prop where
  fifo : (pump.log.filterMap Note.settled).reverse ++ pump.queue = pump.accepted
  sent : pump.stats.sent = (pump.log.filter (· matches .sent _)).length
  late : pump.stats.late = (pump.log.filter (· matches .late _ _ _)).length

/-- The windows are kept account of, and the log of the pump is honest. -/
structure Pump.Paced (pump : Pump) : Prop where
  kept : pump.Kept
  honest : ∀ note ∈ pump.log, note.Honest

/-- The 32-bit clock is near enough to what it is compared with. When the predecessor has closed,
that is half a wrap ago at most, whole wraps apart; and when the pump looks at the send slot of a
window, with the mailbox free and the window still further off than the lead, the rest is half a
wrap at most, whole wraps apart. -/
def Pump.Near (pump : Pump) : PumpEvent → Prop
  | .pump fenced mboxBusy => fenced = false → ∀ window ∈ pump.queue.head?,
      (pump.busyValid = true → pump.busyAir ≤ pump.now64 →
        (pump.now64 - pump.busyAir) % 2 ^ 32 ≤ 2 ^ 31) ∧
      (¬ pump.PredecessorOpen → mboxBusy = false →
        vwinSetupMarginTicks < window.openAir - pump.now64 →
        (window.openAir - vwinSetupMarginTicks - pump.now64) % 2 ^ 32 ≤ 2 ^ 31)
  | _ => True

end RfnmDriver.LaLib
