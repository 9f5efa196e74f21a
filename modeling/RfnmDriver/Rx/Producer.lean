import RfnmDriver.Library.StepSystem
import RfnmDriver.Rx.Assembler

/-!
# The RX producer

`rfnm_handler_in` takes ADC slots off the LA ring and spreads their sub-buffers over the lanes of
the USB and of the local assembler. A USB packet leaves in a gadget request, which the USB worker
queues and the host completes. An event is one sub-buffer, one flush of an aged partial packet, one
decision of a pass (jump forward, stand down), one step of a request, or a stream reset. Recency
of the consumers, ages and the local free list are the environment's. Read `acceptSub` and `next`
first.
-/

namespace RfnmDriver.Rx

/-- The constants and the module parameters the producer reads. -/
structure Config where
  /-- `RFNM_RX_USB_BUF_SIZE`. -/
  ring : Nat
  /-- `RFNM_IQFLOOD_LOCAL_RX_BUF_SIZE`. -/
  localRing : Nat
  /-- `RFNM_USB_INFLIGHT_CAP`. -/
  inflightCap : Nat
  /-- `RFNM_USB_INFLIGHT_STALE_CAP`. -/
  staleCap : Nat
  /-- `RFNM_RX_USB_BUF_SIZE_ELEMS`. -/
  elems : Nat
  /-- `rx_ship_slots`; 0 stands for every value that is not positive. -/
  shipSlots : Nat
  /-- `RFNM_LA9310_DMA_RX_SIZE`. -/
  dmaRxSize : Nat
  /-- A packet holds at least one sub-buffer. -/
  elemsFit : 256 ≤ elems

/-- `local_full`: the fill at which a local packet is queued. -/
def Config.localFull (config : Config) : Nat :=
  if 0 < config.shipSlots ∧ config.shipSlots * config.dmaRxSize < config.elems then
    config.shipSlots * config.dmaRxSize
  else config.elems

/-- The driver's values, as the source's comments name them; local packets as in the USB ring. -/
def Config.driver : Config where
  ring := 80
  localRing := 80
  inflightCap := 64
  staleCap := 4
  elems := 20480
  shipSlots := 0
  dmaRxSize := 256
  elemsFit := by decide

/-- What the code does not keep, but statements about its runs speak of. -/
structure History where
  /-- The packets handed to a request, as they were then. -/
  usbShipped : List Packet
  /-- The packets queued for the local consumer, as they were then. -/
  localQueued : List Packet
  /-- A payload copy into the lane's partial USB packet was skipped. -/
  uncopied : Fin 4 → Bool
  /-- The sub-buffer the firmware wrote before the lane's next one, if the producer read it. -/
  last : Fin 4 → Option SubBuffer

/-- The producer, its two assemblers and the IN requests. -/
structure Producer where
  rxUsb : Assembler
  rxLocal : Assembler
  /-- The requests of `rfnm_usb_req_buffer_in`. -/
  free : Nat
  /-- `rfnm_usb_req_buffer_in_usb`, by the ring slot each request points at. -/
  staged : List Nat
  /-- `rfnm_usb_req_inflight_in`, by the ring slot each request points at. -/
  inflight : List Nat
  /-- Requests flush mode queued with length 0 and without context. -/
  untracked : Nat
  /-- The ADC slot under way. -/
  slot : Slot
  /-- The loop counter of the slot's sub-buffers. -/
  index : Nat
  /-- `sub_read_size`. -/
  subRead : Nat
  /-- `rfnm_rx_standdown_active`. -/
  standdownActive : Bool
  history : History

/-- What the environment decides while one sub-buffer is processed. -/
structure SubEnv where
  /-- `rfnm_usb_rx_consumer_alive` at the stage gate. -/
  usbAlive : Bool
  /-- `rfnm_usb_rx_head_grace` at the stage gate. -/
  headGrace : Bool
  /-- One of the two, at the payload copy. -/
  copyOpen : Bool
  /-- `rfnm_local_rx_consumer_alive`. -/
  localAlive : Bool
  /-- `rfnm_local_buffer_in` has an element. -/
  localFree : Bool
  deriving DecidableEq, Repr

/-- One step. -/
inductive Event
  /-- The pass reads the next ADC slot and unpacks it. -/
  | slot (slot : Slot)
  /-- The next sub-buffer of the slot. -/
  | sub (env : SubEnv)
  /-- `rfnm_rx_flush_partial_usb` finds this lane's partial packet aged. -/
  | flushPartial (lane : Fin 4) (usbAlive headGrace : Bool)
  /-- A pass finds too little to read. -/
  | idlePass
  /-- A pass finds more than a quarter of the LA ring to read and drops it. -/
  | jumpForward
  /-- A pass finds no consumer alive and drops what there is to read. -/
  | standDown
  /-- A fresh request joins the free list. -/
  | enroll
  /-- The USB worker queues the first staged request. -/
  | workerQueue
  /-- Queueing fails for now, and the request goes back to the free list. -/
  | workerRecycle
  /-- Queueing fails for a teardown, and the request is freed. -/
  | workerDestroy
  /-- This request in flight completes and joins the free list. -/
  | complete (index : Nat)
  /-- This request in flight completes in a teardown and is freed. -/
  | completeDestroy (index : Nat)
  /-- Flush mode takes a free request and queues it with length 0. -/
  | flushmodeFree
  /-- Flush mode takes a staged request and queues it with length 0. -/
  | flushmodeStaged
  /-- A request of flush mode completes and joins the free list. -/
  | completeUntracked
  /-- A request of flush mode completes in a teardown and is freed. -/
  | destroyUntracked
  /-- `rfnm_reset_stream_io_state`, the workers stopped. Requests it dequeues complete on their
  own. -/
  | reset

/-- The steps of the requests alone: the USB worker, completions and flush mode. -/
def Event.OnRequests : Event → Prop
  | .slot _ | .sub _ | .flushPartial _ _ _ | .idlePass | .jumpForward | .standDown | .reset => False
  | _ => True

/-- The module init: nothing enrolled, nothing to read. -/
def Producer.init (usbBuf localBuf : Nat → Packet) : Producer where
  rxUsb := Assembler.init usbBuf
  rxLocal := Assembler.init localBuf
  free := 0
  staged := []
  inflight := []
  untracked := 0
  slot := ⟨[], fun _ => ⟨0, 0⟩⟩
  index := 0
  subRead := 0
  standdownActive := false
  history := ⟨[], [], fun _ => false, fun _ => none⟩

namespace Producer

variable (config : Config) (producer : Producer)

/-! ## The USB lane -/

/-- `rfnm_usb_rx_stage_gated`. -/
def StageGated (usbAlive headGrace : Bool) : Prop :=
  config.inflightCap ≤ producer.inflight.length ∨
    (usbAlive = false ∧ headGrace = false ∧ config.staleCap ≤ producer.inflight.length)

/-- There is no request for a packet: the stage is gated, or the free list is empty. -/
def Refused (usbAlive headGrace : Bool) : Prop :=
  producer.StageGated config usbAlive headGrace ∨ producer.free = 0

instance (usbAlive headGrace : Bool) : Decidable (producer.StageGated config usbAlive headGrace) :=
  inferInstanceAs (Decidable (_ ∨ _))

instance (usbAlive headGrace : Bool) : Decidable (producer.Refused config usbAlive headGrace) :=
  inferInstanceAs (Decidable (_ ∨ _))

/-- The first free request is pointed at the lane's slot and staged. -/
def shipUsb (lane : Fin 4) : Producer :=
  { producer with
    rxUsb := producer.rxUsb.ship config.ring lane
    free := producer.free - 1
    staged := producer.staged ++ [producer.rxUsb.adcBuf lane]
    history := { producer.history with
      usbShipped := producer.history.usbShipped ++ [producer.rxUsb.minted lane] } }

/-- The packet is dropped, and its slot is used again. -/
def dropUsb (lane : Fin 4) : Producer :=
  { producer with rxUsb := (producer.rxUsb.markDiscont lane).clear lane }

/-- The sub-buffer forces the partial packet out. -/
def flushUsb (lane : Fin 4) (sub : SubBuffer) (env : SubEnv) : Producer :=
  if producer.rxUsb.Flushes lane config.elems sub then
    if producer.Refused config env.usbAlive env.headGrace then producer.dropUsb lane
    else producer.shipUsb config lane
  else producer

/-- The sub-buffer goes into the lane's slot; its copy is skipped for want of a consumer. -/
def fillUsb (lane : Fin 4) (sub : SubBuffer) (env : SubEnv) : Producer :=
  { producer with
    rxUsb := producer.rxUsb.append lane sub producer.slot.samples producer.subRead env.copyOpen
    history := { producer.history with
      uncopied := Function.update producer.history.uncopied lane
        (if producer.rxUsb.adcBufSize lane = 0 then !env.copyOpen
          else producer.history.uncopied lane || !env.copyOpen) } }

/-! ## The local lane -/

/-- The sub-buffer forces the partial packet out: it is queued if there is an element for it, and
the lane moves on in either case. -/
def flushLocal (lane : Fin 4) (sub : SubBuffer) (env : SubEnv) : Producer :=
  if producer.rxLocal.Flushes lane config.localFull sub then
    if env.localFree then
      { producer with
        rxLocal := producer.rxLocal.ship config.localRing lane
        history := { producer.history with
          localQueued := producer.history.localQueued ++ [producer.rxLocal.minted lane] } }
    else { producer with rxLocal := (producer.rxLocal.clear lane).advance config.localRing lane }
  else producer

/-- The sub-buffer goes into the lane's slot. -/
def fillLocal (lane : Fin 4) (sub : SubBuffer) : Producer :=
  { producer with
    rxLocal := producer.rxLocal.append lane sub producer.slot.samples producer.subRead true }

/-- The lane runs only for a live consumer; without one its partial packet is dropped. -/
def localLane (lane : Fin 4) (sub : SubBuffer) (env : SubEnv) : Producer :=
  if env.localAlive then (producer.flushLocal config lane sub env).fillLocal lane sub
  else { producer with rxLocal := (producer.rxLocal.clear lane).markDiscont lane }

/-! ## The loop over the sub-buffers -/

/-- The loop moves on to the next sub-buffer. -/
def advance : Producer :=
  { producer with index := producer.index + 1 }

/-- A sub-buffer that passes the header checks goes through both lanes. -/
def acceptSub (lane : Fin 4) (sub : SubBuffer) (env : SubEnv) : Producer :=
  let filled := ((producer.flushUsb config lane sub env).fillUsb lane sub env).localLane config
    lane sub env
  { filled.advance with
    subRead := producer.subRead + sub.size
    history := { filled.history with
      last := Function.update filled.history.last lane (some sub) } }

/-- The loop is over. -/
def SlotDone : Prop :=
  producer.slot.subs.length ≤ producer.index

instance : Decidable producer.SlotDone :=
  inferInstanceAs (Decidable (_ ≤ _))

/-- The loop body: a size of 0 ends the slot, and a rejected header is passed over. -/
def subStep (env : SubEnv) (sub : SubBuffer) : Producer :=
  if sub.size = 0 then { producer with index := producer.slot.subs.length }
  else match sub.lane? with
    | none => producer.advance
    | some lane => producer.acceptSub config lane sub env

/-! ## Passes -/

/-- The next ADC slot. -/
def readSlot (slot : Slot) : Producer :=
  { producer with slot := slot, index := 0, subRead := 0, standdownActive := false }

/-- Nothing is known of the sub-buffers the producer passed over. -/
def forget : Producer :=
  { producer with history := { producer.history with last := fun _ => none } }

/-- The backlog is dropped and every lane's next packet marked. -/
def jumpForward : Producer :=
  { producer.forget with
    rxUsb := producer.rxUsb.markAll
    rxLocal := producer.rxLocal.markAll
    standdownActive := false }

/-- The backlog is dropped; on the first pass of a stand-down every lane's next packet is marked
and its partial packet dropped. -/
def standDown : Producer :=
  if producer.standdownActive then producer.forget
  else
    { producer.forget with
      rxUsb := producer.rxUsb.markAll.clearAll
      rxLocal := producer.rxLocal.markAll.clearAll
      standdownActive := true }

/-- `rfnm_rx_flush_partial_usb` on one lane. Its stall detector returns only where it would find
the stage gated or the free list empty. -/
def flushPartial (lane : Fin 4) (usbAlive headGrace : Bool) : Producer :=
  if ¬producer.rxUsb.Filling lane ∨ producer.Refused config usbAlive headGrace then producer
  else producer.shipUsb config lane

/-- `rfnm_reset_stream_io_state`. -/
def reset : Producer :=
  { producer.forget with
    rxUsb := producer.rxUsb.restart
    rxLocal := producer.rxLocal.restart
    free := producer.free + producer.staged.length
    staged := [] }

/-- One step; `none` when it is not enabled. -/
def next : Event → Option Producer
  | .slot slot => if producer.SlotDone then some (producer.readSlot slot) else none
  | .sub env => producer.slot.subs[producer.index]?.map (producer.subStep config env)
  | .flushPartial lane usbAlive headGrace =>
      if producer.SlotDone then some (producer.flushPartial config lane usbAlive headGrace)
      else none
  | .idlePass =>
      if producer.SlotDone then some { producer with standdownActive := false } else none
  | .jumpForward => if producer.SlotDone then some producer.jumpForward else none
  | .standDown => if producer.SlotDone then some producer.standDown else none
  | .enroll => some { producer with free := producer.free + 1 }
  | .workerQueue =>
      match producer.staged with
      | [] => none
      | slot :: rest =>
          some { producer with staged := rest, inflight := producer.inflight ++ [slot] }
  | .workerRecycle =>
      match producer.staged with
      | [] => none
      | _ :: rest => some { producer with staged := rest, free := producer.free + 1 }
  | .workerDestroy =>
      match producer.staged with
      | [] => none
      | _ :: rest => some { producer with staged := rest }
  | .complete index =>
      if index < producer.inflight.length then
        some { producer with
          inflight := producer.inflight.eraseIdx index
          free := producer.free + 1 }
      else none
  | .completeDestroy index =>
      if index < producer.inflight.length then
        some { producer with inflight := producer.inflight.eraseIdx index }
      else none
  | .flushmodeFree =>
      if producer.free = 0 then none
      else some { producer with
        free := producer.free - 1
        untracked := producer.untracked + 1 }
  | .flushmodeStaged =>
      match producer.staged with
      | [] => none
      | _ :: rest => some { producer with staged := rest, untracked := producer.untracked + 1 }
  | .completeUntracked =>
      if producer.untracked = 0 then none
      else some { producer with
        free := producer.free + 1
        untracked := producer.untracked - 1 }
  | .destroyUntracked =>
      if producer.untracked = 0 then none
      else some { producer with untracked := producer.untracked - 1 }
  | .reset => if producer.SlotDone then some producer.reset else none

/-! ## What the steps of the requests do -/

variable {config producer} in
/-- A step of the USB worker, of a completion or of flush mode changes the requests only, and
makes no slot outstanding that was not. -/
theorem next_requests {following : Producer} {event : Event}
    (hnext : producer.next config event = some following) (hevent : event.OnRequests) :
    ∃ free untracked staged inflight,
      following = { producer with
        free := free
        untracked := untracked
        staged := staged
        inflight := inflight } ∧
      ∀ slot, slot ∈ staged ∨ slot ∈ inflight →
        slot ∈ producer.staged ∨ slot ∈ producer.inflight := by
  -- a request leaves the two queues or goes from one to the other
  cases event with
  | enroll =>
      obtain rfl := Option.some.inj hnext
      exact ⟨_, _, _, _, rfl, fun _ => id⟩
  | workerQueue =>
      simp only [next] at hnext
      split at hnext
      · cases hnext
      · next slot rest hstaged =>
          obtain rfl := Option.some.inj hnext
          refine ⟨_, _, _, _, rfl, fun other hother => ?_⟩
          simp only [List.mem_append, List.mem_singleton] at hother
          rw [hstaged, List.mem_cons]
          tauto
  | workerRecycle | workerDestroy | flushmodeStaged =>
      simp only [next] at hnext
      split at hnext
      · cases hnext
      · next slot rest hstaged =>
          obtain rfl := Option.some.inj hnext
          refine ⟨_, _, _, _, rfl, fun other hother => ?_⟩
          rw [hstaged]
          exact hother.imp_left (List.mem_cons_of_mem slot)
  | complete index | completeDestroy index =>
      obtain ⟨-, rfl⟩ := StepSystem.of_guard hnext
      exact ⟨_, _, _, _, rfl, fun _ hother => hother.imp_right List.mem_of_mem_eraseIdx⟩
  | flushmodeFree | completeUntracked | destroyUntracked =>
      simp only [next, Option.ite_none_left_eq_some, Option.some.injEq] at hnext
      obtain ⟨-, rfl⟩ := hnext
      exact ⟨_, _, _, _, rfl, fun _ => id⟩
  | _ => cases hevent

/-! ## What the halves of a sub-buffer do -/

variable {config producer} in
/-- A sub-buffer forces a USB packet out only where there is one. -/
theorem filling_of_flushes {lane : Fin 4} {sub : SubBuffer} (hlane : sub.lane? = some lane)
    (hflushes : producer.rxUsb.Flushes lane config.elems sub) : producer.rxUsb.Filling lane := by
  rcases hflushes with hover | hseam
  · intro hempty
    have hsize := (SubBuffer.size_of_lane hlane).2
    have hfit := config.elemsFit
    omega
  · exact hseam.1

/-- A flush of the USB lane changes its assembler and the requests. -/
theorem flushUsb_frame (lane : Fin 4) (sub : SubBuffer) (env : SubEnv) :
    ∃ rxUsb free staged usbShipped, producer.flushUsb config lane sub env =
      { producer with
        rxUsb := rxUsb
        free := free
        staged := staged
        history := { producer.history with usbShipped := usbShipped } } := by
  unfold flushUsb
  split
  · split
    · exact ⟨_, _, _, _, rfl⟩
    · exact ⟨_, _, _, _, rfl⟩
  · exact ⟨_, _, _, _, rfl⟩

/-- A flush of the local lane changes its assembler and queues packets. -/
theorem flushLocal_frame (lane : Fin 4) (sub : SubBuffer) (env : SubEnv) :
    ∃ rxLocal localQueued, producer.flushLocal config lane sub env =
      { producer with
        rxLocal := rxLocal
        history := { producer.history with localQueued := localQueued } } := by
  unfold flushLocal
  split
  · split
    · exact ⟨_, _, rfl⟩
    · exact ⟨_, _, rfl⟩
  · exact ⟨_, _, rfl⟩

/-- The local lane changes its assembler and queues packets. -/
theorem localLane_frame (lane : Fin 4) (sub : SubBuffer) (env : SubEnv) :
    ∃ rxLocal localQueued, producer.localLane config lane sub env =
      { producer with
        rxLocal := rxLocal
        history := { producer.history with localQueued := localQueued } } := by
  unfold localLane
  split
  · obtain ⟨rxLocal, localQueued, hflush⟩ := flushLocal_frame config producer lane sub env
    rw [hflush]
    exact ⟨_, _, rfl⟩
  · exact ⟨_, _, rfl⟩

/-! ## The sub-buffer a step accepts -/

/-- The next sub-buffer, if it passes the header checks, and its lane. -/
def accepted : Option (Fin 4 × SubBuffer) :=
  producer.slot.subs[producer.index]?.bind fun sub =>
    if sub.size = 0 then none else sub.lane?.map fun lane => (lane, sub)

/-- On every lane the firmware delivers sub-buffers that continue each other but for DISCONT and a
new epoch. -/
def StampsContinue : Event → Prop
  | .sub _ => ∀ pair ∈ producer.accepted, ∀ before ∈ producer.history.last pair.1,
      pair.2.Continues before
  | _ => True

instance (event : Event) : Decidable (producer.StampsContinue event) := by
  rcases event <;> unfold StampsContinue
  case sub =>
    have (pair : Fin 4 × SubBuffer) : Decidable (∀ before ∈ producer.history.last pair.1,
        pair.2.Continues before) := Option.decidableForallMem _
    exact Option.decidableForallMem _
  all_goals infer_instance

variable {config producer} {following : Producer} {lane : Fin 4} {sub : SubBuffer} {env : SubEnv}

/-- A sub-buffer accepted has samples, at most 256 and a multiple of 64. -/
theorem size_of_accepted (h : producer.accepted = some (lane, sub)) :
    sub.size ≠ 0 ∧ sub.size % 2 = 0 ∧ sub.size ≤ 256 := by
  obtain ⟨found, -, hfound⟩ := Option.bind_eq_some_iff.mp h
  split at hfound
  · cases hfound
  · next hsize =>
      obtain ⟨other, hlane, hpair⟩ := Option.map_eq_some_iff.mp hfound
      obtain ⟨-, rfl⟩ := Prod.mk.inj hpair
      have hchecks := SubBuffer.size_of_lane hlane
      exact ⟨hsize, by omega, hchecks.2⟩

/-- The loop body accepts a sub-buffer, or only moves on. -/
theorem next_sub (hnext : producer.next config (.sub env) = some following) :
    (producer.accepted = none ∧ ∃ index, following = { producer with index := index }) ∨
      ∃ lane sub, producer.accepted = some (lane, sub) ∧
        following = producer.acceptSub config lane sub env := by
  obtain ⟨sub, hsub, rfl⟩ := Option.map_eq_some_iff.mp hnext
  unfold subStep
  split
  · next hsize => exact Or.inl ⟨by simp [accepted, hsub, hsize], _, rfl⟩
  · next hsize =>
      split
      · next hrejected => exact Or.inl ⟨by simp [accepted, hsub, hrejected], _, rfl⟩
      · next lane hlane => exact Or.inr ⟨lane, sub, by simp [accepted, hsub, hsize, hlane], rfl⟩

/-- A pass that stands down is done with its slot, so it takes no sub-buffer. -/
theorem inactive_of_sub (hidle : producer.standdownActive = true → producer.SlotDone)
    (hsub : producer.slot.subs[producer.index]? = some sub) :
    producer.standdownActive = false := by
  obtain ⟨hindex, -⟩ := List.getElem?_eq_some_iff.mp hsub
  by_contra hactive
  have hdone := hidle (by simpa using hactive)
  unfold SlotDone at hdone
  omega

theorem inactive_of_next (hidle : producer.standdownActive = true → producer.SlotDone)
    (hnext : producer.next config (.sub env) = some following) :
    producer.standdownActive = false := by
  obtain ⟨sub, hsub, -⟩ := Option.map_eq_some_iff.mp hnext
  exact inactive_of_sub hidle hsub

variable (config producer)

/-- What an accepted sub-buffer does to the USB lane. -/
theorem acceptSub_rxUsb (lane : Fin 4) (sub : SubBuffer) (env : SubEnv) :
    (producer.acceptSub config lane sub env).rxUsb =
      (producer.flushUsb config lane sub env).rxUsb.append lane sub producer.slot.samples
        producer.subRead env.copyOpen := by
  obtain ⟨rxUsb, free, staged, usbShipped, hflush⟩ := flushUsb_frame config producer lane sub env
  obtain ⟨rxLocal, localQueued, hlocal⟩ := localLane_frame config
    ((producer.flushUsb config lane sub env).fillUsb lane sub env) lane sub env
  rw [acceptSub, hlocal, hflush]
  rfl

/-- The packet it forces out, if any, is the only one handed to a request. -/
theorem acceptSub_usbShipped (lane : Fin 4) (sub : SubBuffer) (env : SubEnv) :
    (producer.acceptSub config lane sub env).history.usbShipped =
      (producer.flushUsb config lane sub env).history.usbShipped := by
  obtain ⟨rxLocal, localQueued, hlocal⟩ := localLane_frame config
    ((producer.flushUsb config lane sub env).fillUsb lane sub env) lane sub env
  rw [acceptSub, hlocal]
  rfl

/-- So is the request that is staged. -/
theorem acceptSub_staged (lane : Fin 4) (sub : SubBuffer) (env : SubEnv) :
    (producer.acceptSub config lane sub env).staged =
      (producer.flushUsb config lane sub env).staged := by
  obtain ⟨rxLocal, localQueued, hlocal⟩ := localLane_frame config
    ((producer.flushUsb config lane sub env).fillUsb lane sub env) lane sub env
  rw [acceptSub, hlocal]
  rfl

/-- What it does to the local lane, which does not look at the USB lane. -/
theorem acceptSub_rxLocal (lane : Fin 4) (sub : SubBuffer) (env : SubEnv) :
    (producer.acceptSub config lane sub env).rxLocal =
        (producer.localLane config lane sub env).rxLocal ∧
      (producer.acceptSub config lane sub env).history.localQueued =
        (producer.localLane config lane sub env).history.localQueued := by
  obtain ⟨rxUsb, free, staged, usbShipped, hflush⟩ := flushUsb_frame config producer lane sub env
  simp only [acceptSub, advance, hflush, fillUsb, localLane, flushLocal, fillLocal]
  split_ifs <;> exact ⟨rfl, rfl⟩

/-- It is then the lane's last one, and the rest of the pass is as it was. -/
theorem acceptSub_frame (lane : Fin 4) (sub : SubBuffer) (env : SubEnv) :
    (producer.acceptSub config lane sub env).history.last =
        Function.update producer.history.last lane (some sub) ∧
      (producer.acceptSub config lane sub env).standdownActive = producer.standdownActive ∧
      (producer.acceptSub config lane sub env).slot = producer.slot ∧
      (producer.acceptSub config lane sub env).index = producer.index + 1 := by
  obtain ⟨rxUsb, free, staged, usbShipped, hflush⟩ := flushUsb_frame config producer lane sub env
  obtain ⟨rxLocal, localQueued, hlocal⟩ := localLane_frame config
    ((producer.flushUsb config lane sub env).fillUsb lane sub env) lane sub env
  rw [acceptSub, hlocal, hflush]
  exact ⟨rfl, rfl, rfl, rfl⟩

/-! ## Rings and slots for runs -/

/-- Ring memory that was never written. -/
def blank : Nat → Packet :=
  fun _ => ⟨0, 0, false, 0, 0, 0, fun _ => ⟨0, 0⟩⟩

/-- A slot with these sub-buffers, of 64 samples each. -/
def slotOf (subs : List SubBuffer) : Slot where
  subs := subs
  samples := fun k => ((subs[k / 64]?).map fun sub => sub.sample (k % 64)).getD ⟨0, 0⟩

/-- A slot with this sub-buffer alone. -/
def slotWith (sub : SubBuffer) : Slot where
  subs := [sub]
  samples := sub.sample

end Producer

end RfnmDriver.Rx
