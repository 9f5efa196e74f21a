import RfnmDriver.Library.StepSystem

/-!
# Control messages and their payloads

The control verbs reach the driver over USB EP0, over the TCP control connection, over UDP discovery,
and as ioctls. Each transport receives into a buffer that earlier messages used. A SET verb copies its
struct out of that buffer; whether the message brought that many bytes is each transport's to
check. EP0 completions check it. `rfnm_dev_process_udp_ctrl` is given no length at all, and three of
the ioctls do not look at what `copy_from_user` returns. `executedComplete_iff_carried` says for
which messages no incomplete verb is executed, and `empty_set_executed` is a TCP message without
payload that sets a rate.
-/

namespace RfnmDriver.Control

open StepSystem

abbrev Byte := BitVec 8

/-- The control verbs. -/
inductive Verb
  | getDevHwinfo
  | getTxChList
  | getRxChList
  | getSetResult
  | getDevStatus
  | getSmReset
  | hardResetLa9310
  | getHardResetStatus
  | setTxChList
  | setRxChList
  | setSampRate
  | setTdd
  | setTxn
  | getLocalMeminfo
  deriving DecidableEq, Repr

/-- All of them. -/
def Verb.all : List Verb :=
  [.getDevHwinfo, .getTxChList, .getRxChList, .getSetResult, .getDevStatus, .getSmReset,
    .hardResetLa9310, .getHardResetStatus, .setTxChList, .setRxChList, .setSampRate, .setTdd,
    .setTxn, .getLocalMeminfo]

theorem Verb.mem_all (verb : Verb) : verb ∈ Verb.all := by
  cases verb <;> decide

/-- The verb carries a struct. -/
def Verb.sets : Verb → Bool
  | .setTxChList | .setRxChList | .setSampRate | .setTdd | .setTxn => true
  | _ => false

/-- The verb changes the device. -/
def Verb.changes : Verb → Bool
  | .getSmReset | .hardResetLa9310 => true
  | verb => verb.sets

/-- What the API headers and the rest of the driver give: the number and the struct of each verb,
the size of the control buffer, what a verb does to the device, and what it answers. -/
structure Api (Device : Type) where
  code : Verb → Nat
  /-- The size of a verb's struct; the other verbs carry none. -/
  sizeOf : Verb → Nat
  /-- `RFNM_SYSCTL_TRANSFER_SIZE`. -/
  transferSize : Nat
  exec : Verb → List Byte → Device → Device
  answer : Verb → Device → List Byte
  sizeOf_plain : ∀ verb, verb.sets = false → sizeOf verb = 0
  /-- The dispatchers see the low byte of a number and add `0xf00`. -/
  code_range : ∀ verb, 0xf00 ≤ code verb ∧ code verb ≤ 0xfff
  /-- The labels of a switch are distinct. -/
  code_injective : ∀ first second, code first = code second → first = second

/-- A verb that was executed, with the struct it was given, and the payload its message carried. -/
structure Execution where
  verb : Verb
  payload : List Byte
  received : List Byte
  deriving DecidableEq, Repr

/-- The device, and the buffers the transports receive into. -/
structure Dispatcher (Device : Type) where
  device : Device
  /-- `req->buf` of EP0. -/
  ep0Buf : List Byte
  /-- `buf` of `tcp_ctrl_worker`. -/
  tcpBuf : List Byte
  /-- `buffer[1]` on, of `udp_discovery_thread`. -/
  udpBuf : List Byte
  /-- `rfnm_usb_tdd_work` is scheduled: `rfnm_usb_tdd_req`, and the payload it came in. -/
  tddWork : Option (List Byte × List Byte)
  /-- What the code does not keep: the verbs executed so far. -/
  log : List Execution

/-- One message, or the deferred half of one. -/
inductive Message
  /-- A control transfer: its setup packet, and how its data stage completed. -/
  | usb (bRequestType wValue wLength : Nat) (status : Int) (data : List Byte)
  /-- `rfnm_usb_tdd_workfn`. -/
  | usbTddWork
  /-- A header, and what the second `kernel_recvmsg` got. -/
  | tcp (cmd size : Nat) (received : List Byte)
  /-- A datagram. -/
  | udp (datagram : List Byte)
  /-- An ioctl, and the bytes that can be read at `arg` before a fault. -/
  | ioctl (cmd : Nat) (user : List Byte)
  deriving DecidableEq, Repr

/-- Bytes written at the start of a buffer. -/
def overwrite (buf bytes : List Byte) : List Byte :=
  bytes ++ buf.drop bytes.length

namespace Dispatcher

variable {Device : Type} (api : Api Device) (dispatcher : Dispatcher Device)

/-- The case of a switch on the number. -/
def verbOf (number : Nat) : Option Verb :=
  Verb.all.find? fun verb => api.code verb = number

/-- A verb is executed. -/
def execute (verb : Verb) (payload received : List Byte) : Dispatcher Device :=
  { dispatcher with
    device := api.exec verb payload dispatcher.device
    log := dispatcher.log ++ [⟨verb, payload, received⟩] }

/-! ## Transports -/

/-- `rfnm_setup_ep0_out_ok`. -/
def ep0OutOk (verb : Verb) (status : Int) (data : List Byte) : Bool :=
  status = 0 ∧ api.sizeOf verb ≤ data.length

/-- The completion of a SET's data stage; SET_TDD leaves its struct to a work. -/
def setupComplete (verb : Verb) (status : Int) (data : List Byte) : Dispatcher Device :=
  let filled := { dispatcher with ep0Buf := overwrite dispatcher.ep0Buf data }
  if ep0OutOk api verb status data then
    let payload := filled.ep0Buf.take (api.sizeOf verb)
    if verb = .setTdd then { filled with tddWork := some (payload, data) }
    else filled.execute api verb payload data
  else filled

/-- The answer of a GET, and the two verbs that change the device without a struct. -/
def serve (verb : Verb) (received : List Byte) : Dispatcher Device :=
  if verb.changes then dispatcher.execute api verb [] received else dispatcher

/-- `sourcesink_setup`. -/
def setup (bRequestType wValue wLength : Nat) (status : Int) (data : List Byte) :
    Dispatcher Device :=
  match verbOf api wValue with
  | some verb =>
      if bRequestType = 0x40 ∧ verb.sets = true then dispatcher.setupComplete api verb status data
      else if bRequestType = 0xc0 ∧ verb.sets = false ∧ verb ≠ .getLocalMeminfo then
        let served := dispatcher.serve api verb []
        { served with
          ep0Buf := overwrite served.ep0Buf ((api.answer verb served.device).take wLength) }
      else dispatcher
  | none => dispatcher

/-- `rfnm_dev_process_udp_ctrl`: the device, and the buffer with the answer of a GET. The message
carried `received`, of which the function knows nothing. -/
def processUdpCtrl (cmd : Nat) (buf received : List Byte) : Dispatcher Device × List Byte :=
  match verbOf api (cmd % 0x100 + 0xf00) with
  | some verb =>
      if verb.sets = true then (dispatcher.execute api verb (buf.take (api.sizeOf verb)) received, buf)
      else if verb = .getLocalMeminfo then (dispatcher, buf)
      else
        let served := dispatcher.serve api verb received
        (served, overwrite buf (api.answer verb served.device))
  | none => (dispatcher, buf)

/-- One pass of `tcp_ctrl_worker`. A payload that comes short is in the buffer all the same. -/
def tcp (cmd size : Nat) (received : List Byte) : Dispatcher Device :=
  if api.transferSize < size then dispatcher
  else
    let filled := overwrite dispatcher.tcpBuf received
    if received.length ≠ size then { dispatcher with tcpBuf := filled }
    else
      let (served, buf) := dispatcher.processUdpCtrl api cmd filled received
      { served with tcpBuf := buf }

/-- One pass of `udp_discovery_thread`: only the discovery request is served. -/
def udp (datagram : List Byte) : Dispatcher Device :=
  match datagram with
  | [] => dispatcher
  | cmd :: rest =>
      let filled := overwrite dispatcher.udpBuf rest
      if cmd.toNat = api.code .getDevHwinfo % 0x100 then
        let (served, buf) := dispatcher.processUdpCtrl api cmd.toNat filled rest
        { served with udpBuf := buf }
      else { dispatcher with udpBuf := filled }

/-- `copy_from_user` into a struct: where it faults, the rest is cleared. Also whether it returns
0. -/
def copyFromUser (size : Nat) (user : List Byte) : List Byte × Bool :=
  (user.take size ++ List.replicate (size - user.length) 0#8, size ≤ user.length)

/-- The ioctls that look at what `copy_from_user` returns. -/
def checksCopy : Verb → Bool
  | .setTdd | .setTxn => true
  | _ => false

/-- `rfnm_dev_ioctl`, as far as the device goes. -/
def ioctl (cmd : Nat) (user : List Byte) : Dispatcher Device :=
  match verbOf api (cmd % 0x100 + 0xf00) with
  | some verb =>
      if verb.sets = true then
        let (payload, ok) := copyFromUser (api.sizeOf verb) user
        if checksCopy verb && !ok then dispatcher
        else dispatcher.execute api verb payload (user.take (api.sizeOf verb))
      else dispatcher.serve api verb []
  | none => dispatcher

/-- One step; `none` when it is not enabled. -/
def next : Message → Option (Dispatcher Device)
  | .usb bRequestType wValue wLength status data =>
      if data.length ≤ wLength then some (dispatcher.setup api bRequestType wValue wLength status data)
      else none
  | .usbTddWork =>
      dispatcher.tddWork.map fun (payload, received) =>
        { dispatcher.execute api .setTdd payload received with tddWork := none }
  | .tcp cmd size received =>
      if received.length ≤ size then some (dispatcher.tcp api cmd size received) else none
  | .udp datagram => some (dispatcher.udp api datagram)
  | .ioctl cmd user => some (dispatcher.ioctl api cmd user)

/-- The module init, with whatever the buffers hold. -/
def init (device : Device) (ep0Buf tcpBuf udpBuf : List Byte) : Dispatcher Device where
  device := device
  ep0Buf := ep0Buf
  tcpBuf := tcpBuf
  udpBuf := udpBuf
  tddWork := none
  log := []

/-! ## The property and the condition -/

/-- The message carried the whole struct, and the verb was given that and nothing else. -/
def Complete (execution : Execution) : Prop :=
  api.sizeOf execution.verb ≤ execution.received.length ∧
    execution.payload = execution.received.take (api.sizeOf execution.verb)

/-- Every verb was executed on a complete payload, and the device is what the executed verbs made
of it. -/
def ExecutedComplete (start : Device) (dispatcher : Dispatcher Device) : Prop :=
  (∀ execution ∈ dispatcher.log, Complete api execution) ∧
    dispatcher.device = dispatcher.log.foldl
      (fun device execution => api.exec execution.verb execution.payload device) start

/-- A TCP message that is read whole carries the struct of its verb; an ioctl whose verb does not
look at `copy_from_user` can read the struct whole. -/
def Carries : Message → Prop
  | .tcp cmd size received => size ≤ api.transferSize → received.length = size →
      ∀ verb, verbOf api (cmd % 0x100 + 0xf00) = some verb → api.sizeOf verb ≤ size
  | .ioctl cmd user => ∀ verb, verbOf api (cmd % 0x100 + 0xf00) = some verb →
      checksCopy verb = false → api.sizeOf verb ≤ user.length
  | _ => True

/-! ## Executions -/

variable {api dispatcher} {start : Device} {verb : Verb} {payload received buf : List Byte}

/-- What holds between the messages: also the struct left to the work is complete. -/
structure Inv (api : Api Device) (start : Device) (dispatcher : Dispatcher Device) : Prop where
  executed : dispatcher.ExecutedComplete api start
  pending : ∀ payload received, dispatcher.tddWork = some (payload, received) →
    Complete api ⟨.setTdd, payload, received⟩

theorem init_inv (api : Api Device) (start : Device) (ep0Buf tcpBuf udpBuf : List Byte) :
    Inv api start (init start ep0Buf tcpBuf udpBuf) where
  executed := ⟨fun _ hlogged => absurd hlogged List.not_mem_nil, rfl⟩
  pending := fun _ _ hwork => by cases hwork

theorem code_of_verbOf {number : Nat} (h : verbOf api number = some verb) :
    api.code verb = number := by
  simpa using List.find?_some h

/-- Executing a verb keeps the property exactly when its struct is complete. -/
theorem executedComplete_execute (h : dispatcher.ExecutedComplete api start) :
    (dispatcher.execute api verb payload received).ExecutedComplete api start ↔
      Complete api ⟨verb, payload, received⟩ := by
  obtain ⟨hcomplete, hdevice⟩ := h
  unfold ExecutedComplete execute
  simp only [List.mem_append, List.mem_singleton, List.foldl_append, List.foldl_cons,
    List.foldl_nil, ← hdevice, and_true]
  constructor
  · exact fun hall => hall _ (Or.inr rfl)
  · rintro hnew execution (hbefore | rfl)
    · exact hcomplete execution hbefore
    · exact hnew

/-- A verb without a struct is complete. -/
theorem complete_plain (hplain : verb.sets = false) (received : List Byte) :
    Complete api ⟨verb, [], received⟩ := by
  unfold Complete
  rw [api.sizeOf_plain verb hplain]
  exact ⟨Nat.zero_le _, rfl⟩

theorem executedComplete_serve (h : dispatcher.ExecutedComplete api start)
    (hplain : verb.sets = false) (received : List Byte) :
    (dispatcher.serve api verb received).ExecutedComplete api start := by
  unfold serve
  split
  · exact (executedComplete_execute h).mpr (complete_plain hplain received)
  · exact h

theorem serve_tddWork : (dispatcher.serve api verb received).tddWork = dispatcher.tddWork := by
  unfold serve
  split <;> rfl

/-- A struct copied out of a buffer is complete exactly when the message filled that much of it. -/
theorem complete_overwrite :
    Complete api ⟨verb, (overwrite buf received).take (api.sizeOf verb), received⟩ ↔
      api.sizeOf verb ≤ received.length := by
  constructor
  · exact fun h => h.1
  · intro hle
    exact ⟨hle, List.take_append_of_le_length hle⟩

/-! ## Transports -/

/-- An EP0 transfer executes a verb only on a complete struct, now or in the work. -/
theorem Inv.setup (h : Inv api start dispatcher) (bRequestType wValue wLength : Nat)
    (status : Int) (data : List Byte) :
    Inv api start (dispatcher.setup api bRequestType wValue wLength status data) := by
  unfold Dispatcher.setup
  split
  · next verb hverb =>
      split
      · unfold setupComplete
        simp only
        split
        · next hok =>
            -- EP0 compares what came with the size of the struct before it copies anything
            have hcomplete : Complete api ⟨verb, (overwrite dispatcher.ep0Buf data).take
                (api.sizeOf verb), data⟩ := by
              simp only [ep0OutOk, Bool.decide_and, Bool.and_eq_true, decide_eq_true_eq] at hok
              exact complete_overwrite.mpr hok.2
            split
            · next htdd =>
                refine ⟨h.executed, fun payload received hwork => ?_⟩
                obtain ⟨rfl, rfl⟩ := Prod.mk.inj (Option.some.inj hwork)
                exact htdd ▸ hcomplete
            · exact ⟨(executedComplete_execute h.executed).mpr hcomplete, h.pending⟩
        · exact ⟨h.executed, h.pending⟩
      · split
        · next hget =>
            refine ⟨executedComplete_serve h.executed hget.2.1 [], fun payload received hwork => ?_⟩
            exact h.pending payload received (serve_tddWork ▸ hwork)
        · exact h
  · exact h

/-- The dispatcher of the Ethernet transports executes what is in the buffer. -/
theorem processUdpCtrl_iff (h : Inv api start dispatcher) (cmd : Nat)
    (buf received : List Byte) :
    ((dispatcher.processUdpCtrl api cmd (overwrite buf received) received).1.ExecutedComplete api
        start ↔
      ∀ verb, verbOf api (cmd % 0x100 + 0xf00) = some verb →
        api.sizeOf verb ≤ received.length) ∧
      (dispatcher.processUdpCtrl api cmd (overwrite buf received) received).1.tddWork =
        dispatcher.tddWork := by
  unfold processUdpCtrl
  split
  · next verb hverb =>
      split
      · -- the Ethernet dispatcher compares nothing: what the buffer held stands in for what did
        -- not come
        refine ⟨?_, rfl⟩
        simp only [executedComplete_execute h.executed, complete_overwrite, hverb,
          Option.some.injEq, forall_eq']
      · next hplain =>
          rw [Bool.not_eq_true] at hplain
          have hsize : ∀ other, verbOf api (cmd % 0x100 + 0xf00) = some other →
              api.sizeOf other ≤ received.length := by
            intro other hother
            obtain rfl := Option.some.inj (hverb.symm.trans hother)
            rw [api.sizeOf_plain verb hplain]
            exact Nat.zero_le _
          split
          · exact ⟨iff_of_true h.executed hsize, rfl⟩
          · exact ⟨iff_of_true (executedComplete_serve h.executed hplain received) hsize,
              serve_tddWork⟩
  · next hnone =>
      refine ⟨iff_of_true h.executed fun other hother => ?_, rfl⟩
      rw [hnone] at hother
      cases hother

/-- A TCP message is executed on a complete struct exactly when it carries one. -/
theorem tcp_iff (h : Inv api start dispatcher) (cmd size : Nat) (received : List Byte) :
    ((dispatcher.tcp api cmd size received).ExecutedComplete api start ↔
      Carries api (.tcp cmd size received)) ∧
      (dispatcher.tcp api cmd size received).tddWork = dispatcher.tddWork := by
  unfold Dispatcher.tcp
  split
  · next hlong =>
      refine ⟨iff_of_true h.executed fun hsize => ?_, rfl⟩
      exact absurd hsize (by omega)
  · next hfits =>
      simp only
      split
      · next hshort => exact ⟨iff_of_true h.executed fun _ hread => absurd hread hshort, rfl⟩
      · next hwhole =>
          rw [not_not] at hwhole
          obtain ⟨hserved, hwork⟩ := processUdpCtrl_iff h cmd dispatcher.tcpBuf received
          refine ⟨Iff.trans hserved ?_, hwork⟩
          rw [hwhole]
          exact ⟨fun hsize _ _ => hsize, fun hcarries => hcarries (Nat.not_lt.mp hfits) hwhole⟩

/-- Discovery serves one GET. -/
theorem udp_executed (h : Inv api start dispatcher) (datagram : List Byte) :
    (dispatcher.udp api datagram).ExecutedComplete api start ∧
      (dispatcher.udp api datagram).tddWork = dispatcher.tddWork := by
  unfold Dispatcher.udp
  split
  · exact ⟨h.executed, rfl⟩
  · next cmd rest =>
      simp only
      split
      · next hcmd =>
          obtain ⟨hserved, hwork⟩ := processUdpCtrl_iff h cmd.toNat dispatcher.udpBuf rest
          refine ⟨hserved.mpr fun verb hverb => ?_, hwork⟩
          have hcode := code_of_verbOf hverb
          have hrange := api.code_range .getDevHwinfo
          -- discovery lets one command through, and that one takes no struct
          have hsame : verb = .getDevHwinfo := api.code_injective verb .getDevHwinfo (by omega)
          rw [hsame, api.sizeOf_plain .getDevHwinfo rfl]
          exact Nat.zero_le _
      · exact ⟨h.executed, rfl⟩

/-- A struct copied from user space is complete exactly when the copy is. -/
theorem complete_copyFromUser (user : List Byte) :
    Complete api ⟨verb, (copyFromUser (api.sizeOf verb) user).1, user.take (api.sizeOf verb)⟩ ↔
      api.sizeOf verb ≤ user.length := by
  unfold Complete copyFromUser
  simp only [List.length_take, List.take_take, Nat.min_self]
  constructor
  · exact fun h => Nat.le_trans h.1 (Nat.min_le_right _ _)
  · intro hle
    refine ⟨Nat.le_min.mpr ⟨Nat.le_refl _, hle⟩, ?_⟩
    rw [Nat.sub_eq_zero_of_le hle, List.replicate_zero, List.append_nil]

/-- An ioctl is executed on a complete struct exactly when it can read one, or looks. -/
theorem ioctl_iff (h : Inv api start dispatcher) (cmd : Nat) (user : List Byte) :
    ((dispatcher.ioctl api cmd user).ExecutedComplete api start ↔
      Carries api (.ioctl cmd user)) ∧
      (dispatcher.ioctl api cmd user).tddWork = dispatcher.tddWork := by
  unfold Dispatcher.ioctl Carries
  split
  · next verb hverb =>
      simp only [hverb, Option.some.injEq, forall_eq']
      split
      · split
        · next hrefused =>
            rw [Bool.and_eq_true] at hrefused
            refine ⟨iff_of_true h.executed fun hunchecked => ?_, rfl⟩
            exact absurd (hunchecked.symm.trans hrefused.1) Bool.false_ne_true
        · next hdone =>
            refine ⟨?_, rfl⟩
            rw [executedComplete_execute h.executed, complete_copyFromUser]
            constructor
            · exact fun hle _ => hle
            · intro hle
              -- only some of the verbs look at what `copy_from_user` returns
              cases hchecks : checksCopy verb with
              | false => exact hle hchecks
              | true => simpa [hchecks, copyFromUser] using hdone
      · next hplain =>
          rw [Bool.not_eq_true] at hplain
          refine ⟨iff_of_true (executedComplete_serve h.executed hplain []) fun _ => ?_,
            serve_tddWork⟩
          rw [api.sizeOf_plain verb hplain]
          exact Nat.zero_le _
  · next hnone =>
      refine ⟨iff_of_true h.executed fun other hother => ?_, rfl⟩
      rw [hnone] at hother
      cases hother

/-! ## Runs -/

/-- A message is executed on a complete struct exactly when it carries one; either way nothing but
an EP0 transfer leaves a struct to the work. -/
theorem next_iff (h : Inv api start dispatcher) {message : Message}
    {following : Dispatcher Device} (hnext : dispatcher.next api message = some following) :
    (following.ExecutedComplete api start ↔ Carries api message) ∧
      (following.ExecutedComplete api start → Inv api start following) := by
  cases message with
  | usb bRequestType wValue wLength status data =>
      obtain ⟨-, rfl⟩ := of_guard hnext
      have hinv := h.setup bRequestType wValue wLength status data
      exact ⟨iff_of_true hinv.executed trivial, fun _ => hinv⟩
  | usbTddWork =>
      obtain ⟨⟨payload, received⟩, hwork, rfl⟩ := Option.map_eq_some_iff.mp hnext
      have hdone := (executedComplete_execute h.executed).mpr (h.pending payload received hwork)
      exact ⟨iff_of_true hdone trivial, fun _ => ⟨hdone, fun _ _ hnone => by cases hnone⟩⟩
  | tcp cmd size received =>
      obtain ⟨-, rfl⟩ := of_guard hnext
      obtain ⟨hiff, hwork⟩ := tcp_iff h cmd size received
      exact ⟨hiff, fun hexecuted => ⟨hexecuted, hwork ▸ h.pending⟩⟩
  | udp datagram =>
      obtain rfl := Option.some.inj hnext
      obtain ⟨hexecuted, hwork⟩ := udp_executed h datagram
      exact ⟨iff_of_true hexecuted trivial, fun _ => ⟨hexecuted, hwork ▸ h.pending⟩⟩
  | ioctl cmd user =>
      obtain rfl := Option.some.inj hnext
      obtain ⟨hiff, hwork⟩ := ioctl_iff h cmd user
      exact ⟨hiff, fun hexecuted => ⟨hexecuted, hwork ▸ h.pending⟩⟩

/-- In every run of messages on the four transports, whatever the buffers hold at first, every verb
is executed on a complete struct and nothing else changes the device, exactly when every message
carries the struct of its verb. -/
theorem executedComplete_iff_carried (api : Api Device) (start : Device)
    (ep0Buf tcpBuf udpBuf : List Byte) (messages : List Message) :
    Always (next api) (ExecutedComplete api start) (init start ep0Buf tcpBuf udpBuf) messages ↔
      Guarded (next api) (fun _ message => Carries api message)
        (init start ep0Buf tcpBuf udpBuf) messages := by
  refine always_iff_everyStep (fun dispatcher message following h hcarries hnext => ?_)
    (fun dispatcher h => ?_) (fun dispatcher message following h hnext hexecuted => ?_)
    (init_inv api start ep0Buf tcpBuf udpBuf)
  · obtain ⟨hiff, hinv⟩ := next_iff h hnext
    exact hinv (hiff.mpr hcarries)
  · exact h.executed
  · exact (next_iff h hnext).1.mp hexecuted

/-- An API with structs of 12 bytes, and a device that keeps the last rate it was given. -/
def sampleApi : Api (List Byte) where
  code := fun verb => 0xf00 + Verb.all.idxOf verb
  sizeOf := fun verb => if verb.sets then 12 else 0
  transferSize := 1152
  exec := fun verb payload device => if verb = .setSampRate then payload else device
  answer := fun _ _ => []
  sizeOf_plain := fun verb hplain => by rw [hplain]; rfl
  code_range := fun verb => by cases verb <;> decide
  code_injective := fun first second h =>
    (List.idxOf_inj (Verb.mem_all first)).mp (Nat.add_left_cancel h)

/-- A SET_SAMP_RATE of size 0 over TCP sets the rate the message before it left in the buffer. -/
theorem empty_set_executed :
    ¬∀ (api : Api (List Byte)) (start : List Byte) (ep0Buf tcpBuf udpBuf : List Byte)
      (messages : List Message),
      Always (next api) (ExecutedComplete api start) (init start ep0Buf tcpBuf udpBuf)
        messages := by
  intro h
  have hrun := h sampleApi [] [] (List.replicate 1152 0#8) []
    [.tcp 9 12 [1#8, 2#8, 3#8, 4#8, 5#8, 6#8, 7#8, 8#8, 9#8, 10#8, 11#8, 12#8], .tcp 10 0 []]
  obtain ⟨hcomplete, -⟩ := hrun.final rfl
  exact absurd (hcomplete ⟨.setSampRate, _, []⟩ (List.mem_cons_of_mem _ List.mem_cons_self)).1
    (by decide)

end Dispatcher

end RfnmDriver.Control
