import RfnmDriver.LaLib.WindowPump
import RfnmDriver.Library.CounterRing

/-!
# The admission of TX windows

`rfnm_la9310_tx_window` puts a window into two rings, one after the other and under different
locks: its gate edge into the rtc ring, which the firmware empties, and the window itself into the
queue that the pump empties. What the pump wants of the timer it leaves in `rfnm_vwin_next_ns`; the
caller starts the timer under the lock, the callback of the timer reads the request after its
unlock. A step is a stretch of one of these that nothing else can look into: a locked section
without the pump, one round of the pump, one access of the rtc ring. The code of `rfnm_rtc_ring.h`
is not here, only what it has to promise.
-/

namespace RfnmDriver.LaLib

open CounterRing

/-- What the driver takes from `rfnm_rtc_ring.h`. -/
structure RtcContract where
  /-- `RFNM_RTC_RING_MAGIC`. -/
  magic : BitVec 32
  /-- `RFNM_RTC_ARM_TX_WINDOW`. -/
  armTxWindow : BitVec 32
  /-- `RFNM_RTC_RING_ENTRIES`. -/
  entries : Nat
  entries_dvd : entries ∣ 2 ^ 32
  entries_lt : entries < 2 ^ 32

theorem vwinQlen_dvd : vwinQlen ∣ 2 ^ 32 := ⟨8388608, rfl⟩

theorem vwinQlen_lt : vwinQlen < 2 ^ 32 := by decide

/-- `struct rfnm_rtc_cmd`, a word each. -/
structure RtcCmd where
  tick : BitVec 32
  kind : BitVec 32
  lenTicks : BitVec 32
  bind : BitVec 32
  deriving DecidableEq, Repr

/-- The errors of `rfnm_la9310_tx_window`. -/
inductive Errno
  | enodev
  | epipe
  | enospc
  deriving DecidableEq, Repr

/-- The fields of `rfnm_la9310_status` that `rfnm_la9310_tx_window` reads. -/
structure TxStatus where
  txState : BitVec 32
  txRShift : Nat
  deriving DecidableEq, Repr

/-- A call of `rfnm_la9310_tx_window`, with its number among all calls. -/
structure WindowCall where
  number : Nat
  openAir : Int
  srcSlot : Nat
  lenSlots : Nat
  txRShift : Nat
  deriving DecidableEq, Repr

/-- `len_ticks`. -/
def lenTicks (lenSlots txRShift : Nat) : BitVec 32 :=
  let tps := 128#32 <<< txRShift
  BitVec.ofNat 32 lenSlots * tps - tps / 4

/-- The window that the call takes into the queue. -/
def WindowCall.window (call : WindowCall) : Vwin :=
  .make call.openAir call.srcSlot call.lenSlots call.txRShift

/-- The gate edge that the call puts into the rtc ring. -/
def WindowCall.cmd (call : WindowCall) (contract : RtcContract) : RtcCmd where
  tick := BitVec.ofInt 32 call.openAir
  kind := contract.armTxWindow
  lenTicks := lenTicks call.lenSlots call.txRShift
  bind := 0

/-- What a call still has to do first. -/
inductive Stage
  /-- The capacity of the queue, under its lock. -/
  | capacity
  /-- `rfnm_rtc_push`, before it takes the producer lock. -/
  | reach
  /-- `rfnm_rtc_push`, its checks under the producer lock. -/
  | room
  | slot
  | publish
  /-- Its own window, under the lock of the queue, up to the pump. -/
  | queue
  | pump
  /-- The start of the timer and the unlock. -/
  | timer
  deriving DecidableEq, Repr

/-- A call that has passed its checks of the device. -/
structure Running where
  call : WindowCall
  stage : Stage
  deriving DecidableEq, Repr

/-- A call that has returned. -/
structure Return where
  call : WindowCall
  error : Option Errno
  deriving DecidableEq, Repr

/-- `rfnm_vwin_timer_fn`, on the processor that runs timers. -/
inductive Callback
  | idle
  | fired
  /-- It holds the lock of the queue. -/
  | pumping
  /-- It has unlocked and is about to read `rfnm_vwin_next_ns`. -/
  | returning
  /-- It is about to return `HRTIMER_RESTART`. -/
  | restarting
  deriving DecidableEq, Repr

/-- The two rings and the calls that fill them. -/
structure Books (contract : RtcContract) where
  rtc : Ledger RtcCmd Nat 32 contract.entries
  /-- `rfnm_vwin_q`, with its counters. -/
  queue : Ledger Vwin Nat 32 vwinQlen
  /-- There is one consume thread, so at most one call runs. -/
  caller : Option Running
  /-- How many calls there have been. -/
  calls : Nat
  returns : List Return

/-- The books, and what the pump and the timer keep. -/
structure Admission (contract : RtcContract) extends Books contract where
  busyUntil : BitVec 32
  busyValid : Bool
  nextNs : Nat
  stats : VwinStats
  /-- `rfnm_vwin_timer` is enqueued. -/
  armed : Bool
  callback : Callback
  /-- `rfnm_la9310_mmio_fenced`. -/
  fenced : Bool
  /-- `rfnm_rtc_p` is set. -/
  rtcMapped : Bool

/-- What a step reads of the device. -/
structure Look where
  magic : BitVec 32
  now : BitVec 32
  /-- Bit 0 of the mailbox status. -/
  mboxBusy : Bool
  deriving DecidableEq, Repr

inductive AdmissionEvent
  /-- `rfnm_la9310_tx_window` is called; without a status block it cannot go on. -/
  | txWindow (openAir : Int) (srcSlot lenSlots : Nat) (status : Option TxStatus)
  /-- The call that runs takes its next step. -/
  | caller (look : Look)
  /-- The timer expires. -/
  | expire
  /-- The callback of the timer takes its next step. -/
  | callback (look : Look)
  /-- The firmware is done with an entry of the rtc ring. -/
  | consume
  /-- The fence around the device goes up or down. -/
  | fence (up : Bool)
  deriving DecidableEq, Repr

variable {contract : RtcContract}

/-- The call is over. -/
def Books.finish (books : Books contract) (call : WindowCall) (error : Option Errno) :
    Books contract :=
  { books with caller := none, returns := { call := call, error := error } :: books.returns }

/-- The call goes on. -/
def Books.goOn (books : Books contract) (call : WindowCall) (stage : Stage) : Books contract :=
  { books with caller := some { call := call, stage := stage } }

namespace Admission

/-- The call of `rfnm_la9310_tx_window` holds the lock of the queue. -/
def HeldByCaller (state : Admission contract) : Prop :=
  ∃ running ∈ state.caller, running.stage = .pump ∨ running.stage = .timer

/-- The callback of the timer holds the lock of the queue. -/
def HeldByCallback (state : Admission contract) : Prop :=
  state.callback = .pumping

instance (state : Admission contract) : Decidable state.HeldByCaller :=
  inferInstanceAs (Decidable (∃ running ∈ state.caller, _))

instance (state : Admission contract) : Decidable state.HeldByCallback :=
  inferInstanceAs (Decidable (_ = _))

/-- `rfnm_la9310_tx_window` up to the capacity of the queue. -/
def enter (state : Admission contract) (openAir : Int) (srcSlot lenSlots : Nat)
    (status : Option TxStatus) : Admission contract :=
  let counted := { state with calls := state.calls + 1 }
  let call : WindowCall :=
    { number := state.calls + 1
      openAir := openAir
      srcSlot := srcSlot
      lenSlots := lenSlots
      txRShift := status.elim 0 TxStatus.txRShift }
  match status with
  | none => { counted with toBooks := counted.finish call (some .enodev) }
  | some status =>
      if state.fenced then { counted with toBooks := counted.finish call (some .enodev) }
      else if status.txState &&& 0x20 = 0 then
        { counted with
          toBooks := counted.finish call (some .epipe)
          stats := { state.stats with noLatch := state.stats.noLatch + 1 } }
      else { counted with toBooks := counted.goOn call .capacity }

/-- A failed `rfnm_rtc_push` fails the call. -/
def rtcErr (state : Admission contract) (call : WindowCall) (error : Errno) :
    Admission contract :=
  { state with
    toBooks := state.finish call (some error)
    stats := { state.stats with rtcErr := state.stats.rtcErr + 1 } }

/-- The window at the head of the queue. -/
def head (state : Admission contract) : Vwin :=
  state.queue.ring.entryAt state.queue.ring.cons

/-- The predecessor of the head is still open. -/
def PredecessorOpen (state : Admission contract) (look : Look) : Prop :=
  state.busyValid = true ∧ 0 < (state.busyUntil - look.now).toInt

/-- The send slot of the head is gone. -/
def SlotGone (state : Admission contract) (look : Look) : Prop :=
  0 < (look.now - (state.head.openTick - BitVec.ofNat 32 vwinSetupMarginTicks)).toInt

instance (state : Admission contract) (look : Look) : Decidable (state.PredecessorOpen look) :=
  inferInstanceAs (Decidable (_ ∧ _))

instance (state : Admission contract) (look : Look) : Decidable (state.SlotGone look) :=
  inferInstanceAs (Decidable (_ < _))

/-- A round of the loop of `rfnm_vwin_pump`, and whether the loop goes on. -/
def round (state : Admission contract) (look : Look) : Admission contract × Bool :=
  if state.queue.ring.cons = state.queue.ring.prod then (state, false)
  -- behind the fence the request stays cleared
  else if state.fenced then (state, false)
  else if state.PredecessorOpen look then
    ({ state with nextNs := ticksToNs (state.busyUntil - look.now) }, false)
  else if state.SlotGone look then
    ({ state with
        queue := state.queue.take
        stats := { state.stats with late := state.stats.late + 1 } }, true)
  else if look.mboxBusy then
    ({ state with
        nextNs := 20000
        stats := { state.stats with mboxBusy := state.stats.mboxBusy + 1 } }, false)
  else
    ({ state with
        queue := state.queue.take
        busyUntil := state.head.closeTick + BitVec.ofNat 32 vwinCloseMarginTicks
        busyValid := true
        stats := { state.stats with sent := state.stats.sent + 1 } }, true)

/-- The next step of the call; a lock that is held keeps it waiting. -/
def advance (state : Admission contract) (look : Look) (call : WindowCall) :
    Stage → Option (Admission contract)
  | .capacity =>
      if state.HeldByCallback then none
      else if vwinQlen ≤ state.queue.ring.occupancy then
        some { state with
          toBooks := state.finish call (some .enospc)
          stats := { state.stats with qfull := state.stats.qfull + 1 } }
      else some { state with toBooks := state.goOn call .reach }
  | .reach =>
      if ¬ state.rtcMapped ∨ state.fenced then some (state.rtcErr call .enodev)
      else some { state with toBooks := state.goOn call .room }
  | .room =>
      if look.magic ≠ contract.magic then some (state.rtcErr call .epipe)
      else if contract.entries ≤ state.rtc.ring.occupancy then some (state.rtcErr call .enospc)
      else some { state with toBooks := state.goOn call .slot }
  | .slot =>
      -- the firmware may take entries between this write and the next
      some { state with
        toBooks := { state.goOn call .publish with rtc := state.rtc.write (call.cmd contract) } }
  | .publish =>
      some { state with
        toBooks := { state.goOn call .queue with rtc := state.rtc.publish call.number } }
  | .queue =>
      if state.HeldByCallback then none
      else some { state with
        toBooks := { state.goOn call .pump with
          queue := (state.queue.write call.window).publish call.number }
        nextNs := 0 }
  | .pump =>
      let pumped := (state.round look).1
      if (state.round look).2 then some pumped
      else some { pumped with toBooks := pumped.goOn call .timer }
  | .timer =>
      -- `hrtimer_start` under the lock, then the unlock
      some { state with
        toBooks := state.finish call none
        armed := state.armed || state.nextNs ≠ 0 }

/-- The next step of the callback; a lock that is held keeps it waiting. -/
def timerFn (state : Admission contract) (look : Look) : Option (Admission contract) :=
  match state.callback with
  | .idle => none
  | .fired =>
      if state.HeldByCaller then none
      else some { state with nextNs := 0, callback := .pumping }
  | .pumping =>
      let pumped := (state.round look).1
      if (state.round look).2 then some pumped else some { pumped with callback := .returning }
  | .returning =>
      -- the lock is gone: a call may have written the request since
      some { state with callback := if state.nextNs ≠ 0 then .restarting else .idle }
  | .restarting => some { state with armed := true, callback := .idle }

/-- One step. The callback of a timer does not run twice at a time, and the firmware does not take
what is not there. -/
def step (state : Admission contract) : AdmissionEvent → Option (Admission contract)
  | .txWindow openAir srcSlot lenSlots status =>
      if state.caller = none then some (state.enter openAir srcSlot lenSlots status) else none
  | .caller look =>
      state.caller.bind fun running => state.advance look running.call running.stage
  | .expire =>
      if state.armed ∧ state.callback = .idle then
        some { state with armed := false, callback := .fired }
      else none
  | .callback look => state.timerFn look
  | .consume =>
      if state.rtc.ring.cons ≠ state.rtc.ring.prod then
        some { state with rtc := state.rtc.take }
      else none
  | .fence up => some { state with fenced := up }

/-- The module has just been loaded, or it runs already and no call or callback is under way: the
counters and the slots of both rings are what they are, and the timer is armed if it has to be. -/
structure Fresh (state : Admission contract) : Prop where
  rtc : state.rtc = .start 0 state.rtc.ring
  queue : state.queue = .start 0 state.queue.ring
  caller : state.caller = none
  calls : state.calls = 0
  returns : state.returns = []
  callback : state.callback = .idle
  timer : state.queue.ring.cons ≠ state.queue.ring.prod → state.fenced = false → state.armed = true

/-! ## Rounds -/

variable {state : Admission contract} {look : Look}

/-- What a round does to the books: nothing, or the queue is done with its head. -/
theorem round_books (state : Admission contract) (look : Look) :
    (state.round look).1.toBooks = state.toBooks ∨
      state.queue.ring.cons ≠ state.queue.ring.prod ∧
        (state.round look).1.toBooks = { state.toBooks with queue := state.queue.take } := by
  unfold round
  split
  · exact .inl rfl
  rename_i hnonempty
  split
  · exact .inl rfl
  split
  · exact .inl rfl
  split
  · exact .inr ⟨hnonempty, rfl⟩
  split
  · exact .inl rfl
  · exact .inr ⟨hnonempty, rfl⟩

/-- A round leaves the timer, its callback and the fence alone. -/
theorem round_frame (state : Admission contract) (look : Look) :
    (state.round look).1.armed = state.armed ∧
      (state.round look).1.callback = state.callback ∧
      (state.round look).1.fenced = state.fenced := by
  unfold round
  repeat' split
  all_goals exact ⟨rfl, rfl, rfl⟩

/-- A wait for a predecessor that is still open takes some time. -/
theorem ticksToNs_ne_zero {ticks : BitVec 32} (hticks : 0 < ticks.toInt) :
    ticksToNs ticks ≠ 0 := by
  have hpos : ticks.toNat ≠ 0 := by
    intro h
    rw [BitVec.eq_of_toNat_eq (y := 0#32) h] at hticks
    exact absurd hticks (by decide)
  unfold ticksToNs
  omega

/-- The loop ends with nothing left to send, or it asks for the timer; but not at the fence. -/
theorem round_stops (hstop : (state.round look).2 = false) (hfenced : state.fenced = false)
    (hnonempty : state.queue.ring.cons ≠ state.queue.ring.prod) :
    (state.round look).1.nextNs ≠ 0 := by
  unfold round at hstop ⊢
  rw [if_neg hnonempty, if_neg (by simp [hfenced])] at hstop ⊢
  by_cases hopen : state.PredecessorOpen look
  · rw [if_pos hopen]
    exact ticksToNs_ne_zero hopen.2
  rw [if_neg hopen] at hstop ⊢
  by_cases hgone : state.SlotGone look
  · rw [if_pos hgone] at hstop
    cases hstop
  rw [if_neg hgone] at hstop ⊢
  cases hbusy : look.mboxBusy with
  | false =>
      rw [hbusy] at hstop
      cases hstop
  | true => exact Nat.succ_ne_zero _

/-! ## The queue as a list -/

/-- The pump and its queue as the pacing of the windows sees them. -/
def pump (state : Admission contract) (now64 busyAir : Int) (accepted : List Vwin)
    (log : List Note) : Pump where
  now64 := now64
  queue := state.queue.ring.entries
  busyUntil := state.busyUntil
  busyValid := state.busyValid
  nextNs := state.nextNs
  stats := state.stats
  busyAir := busyAir
  accepted := accepted
  log := log

/-- A round with a window in the ring is a round of the pump on the list of what waits. -/
theorem round_refines {now64 : Int} (hnow : look.now = BitVec.ofInt 32 now64)
    (hnonempty : state.queue.ring.cons ≠ state.queue.ring.prod) (busyAir : Int)
    (accepted : List Vwin) (log : List Note) :
    ∃ busyAir' log', (state.pump now64 busyAir accepted log).next
        (.pump state.fenced look.mboxBusy) =
      some ((state.round look).1.pump now64 busyAir' accepted log') := by
  have hqueue : (state.pump now64 busyAir accepted log).queue =
      state.head :: state.queue.ring.take.entries := Ring.entries_eq_cons hnonempty
  have hopen : (state.pump now64 busyAir accepted log).PredecessorOpen ↔
      state.PredecessorOpen look := by
    unfold PredecessorOpen
    rw [hnow]
    exact Iff.rfl
  have hgone : (state.pump now64 busyAir accepted log).SlotGone state.head ↔
      state.SlotGone look := by
    unfold SlotGone
    rw [hnow]
    exact Iff.rfl
  simp only [Pump.next, hqueue, round, if_neg hnonempty]
  split
  · exact ⟨_, _, rfl⟩
  unfold Pump.round
  simp only [hopen, hgone]
  split
  · refine ⟨busyAir, .deferred state.head now64 busyAir :: log, ?_⟩
    rw [hnow]
    rfl
  split
  · exact ⟨_, _, rfl⟩
  split
  · exact ⟨_, _, rfl⟩
  · exact ⟨_, _, rfl⟩

end Admission

end RfnmDriver.LaLib
