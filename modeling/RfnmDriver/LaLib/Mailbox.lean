import Mathlib.Data.Fintype.Basic
import RfnmDriver.Library.StepSystem

/-!
# The software-command mailbox

The one `host_swcmd` descriptor through which every host caller (stream word, mailbox hand-off,
print, TDD, TX window) sends commands to the M4: `rf_send_swcmd` and the `rf_free_cmd` that
follows it. There is no lock around it. An event is one access of a sender to the descriptor, one
step of the M4, or a change of the MMIO fence; the copy of the command words is one event. Read
`next` first.
-/

namespace RfnmDriver.LaLib.Swcmd

/-- `RF_SW_CMD_STATUS_FREE`, `_POSTED` and `_DONE`. -/
inductive Status
  | free
  | posted
  | done
  deriving DecidableEq, Repr

/-- One call of `rf_send_swcmd`: who makes it, and which of all calls it is. -/
structure Call (Sender : Type) where
  sender : Sender
  seq : Nat
  deriving DecidableEq, Repr

/-- The M4: it takes a posted command, executes it and writes the result, then writes `DONE`. -/
inductive Executor (Sender : Type)
  | idle
  | executing (call : Call Sender)
  | resulted (call : Call Sender)
  deriving DecidableEq

/-- Where a sender is in `rf_send_swcmd` and in its caller. -/
inductive Phase (Sender : Type)
  | idle
  /-- Past the fence check. -/
  | entered (call : Call Sender)
  /-- The first read of the status was not `FREE`. -/
  | notFree (call : Call Sender)
  /-- The status was `FREE` or `DONE`: about to copy the command. -/
  | ready (call : Call Sender)
  /-- The command is copied: polling for `DONE`. -/
  | waiting (call : Call Sender)
  /-- The read after the poll was `DONE`. -/
  | sawDone (call : Call Sender)
  /-- At the label `out`. -/
  | finishing (call : Call Sender) (ret : Int)
  /-- Back in the caller, which is about to call `rf_free_cmd`. -/
  | returning (call : Call Sender) (ret : Int)
  deriving DecidableEq

/-- The descriptor, the M4 and the senders. -/
structure Mailbox (Sender : Type) where
  /-- `rfnm_la9310_mmio_fenced`. -/
  fenced : Bool
  status : Status
  /-- The call whose command words the descriptor holds. -/
  command : Option (Call Sender)
  result : Int
  m4 : Executor Sender
  phase : Sender → Phase Sender
  /-- The calls made so far. -/
  calls : Nat
  /-- The calls whose command the M4 executed. -/
  executed : List (Call Sender)
  /-- The calls whose sender was told success. -/
  succeeded : List (Call Sender)

/-- One access to the mailbox. -/
inductive Event (Sender : Type)
  /-- The MMIO fence goes up or down. -/
  | fence (on : Bool)
  /-- A sender calls `rf_send_swcmd`, which checks the fence. -/
  | enter (sender : Sender)
  /-- The TX-window loop calls `rf_send_swcmd` again after `-EBUSY`. -/
  | retry (sender : Sender)
  /-- The first read of the status. -/
  | firstRead (sender : Sender)
  /-- The second read, of a status that was not `FREE`. -/
  | secondRead (sender : Sender)
  /-- The copy of the command, status `POSTED` included. -/
  | post (sender : Sender)
  /-- The read after the poll loop has ended, by `DONE`, by the fence or by the 100 ms limit. -/
  | finalRead (sender : Sender)
  /-- The read of the result. -/
  | readResult (sender : Sender)
  /-- The write of `FREE` at the label `out`. -/
  | writeFree (sender : Sender)
  /-- The caller's `rf_free_cmd`. -/
  | freeCmd (sender : Sender)
  /-- The M4 takes a posted command. -/
  | m4Accept
  /-- The M4 has executed the command and writes its result. -/
  | m4Result (result : Int)
  /-- The M4 writes `DONE`. -/
  | m4Done
  deriving DecidableEq

/-- `EBUSY`. -/
def eBusy : Int := 16

variable {Sender : Type}

/-- A free mailbox and no call. -/
def Mailbox.init : Mailbox Sender where
  fenced := false
  status := .free
  command := none
  result := 0
  m4 := .idle
  phase := fun _ => .idle
  calls := 0
  executed := []
  succeeded := []

/-- `iord32` of the status: behind the fence a read returns 0, which is the code of `zero`. -/
def Mailbox.readStatus (zero : Status) (mailbox : Mailbox Sender) : Status :=
  if mailbox.fenced then zero else mailbox.status

/-- `iord32` of the result. -/
def Mailbox.readResult (mailbox : Mailbox Sender) : Int :=
  if mailbox.fenced then 0 else mailbox.result

/-- `iowr32` of the status: behind the fence a write is dropped. -/
def Mailbox.writeStatus (mailbox : Mailbox Sender) (status : Status) : Mailbox Sender :=
  if mailbox.fenced then mailbox else { mailbox with status := status }

section WriteStatus

variable (mailbox : Mailbox Sender) (status : Status)

@[simp] theorem writeStatus_m4 :
    (mailbox.writeStatus status).m4 = mailbox.m4 := by
  unfold Mailbox.writeStatus
  split <;> rfl

@[simp] theorem writeStatus_phase :
    (mailbox.writeStatus status).phase = mailbox.phase := by
  unfold Mailbox.writeStatus
  split <;> rfl

@[simp] theorem writeStatus_executed :
    (mailbox.writeStatus status).executed = mailbox.executed := by
  unfold Mailbox.writeStatus
  split <;> rfl

@[simp] theorem writeStatus_succeeded :
    (mailbox.writeStatus status).succeeded = mailbox.succeeded := by
  unfold Mailbox.writeStatus
  split <;> rfl

end WriteStatus

variable [DecidableEq Sender]

/-- A sender's place in the code after an access. -/
def Mailbox.goto (mailbox : Mailbox Sender) (sender : Sender) (phase : Phase Sender) :
    Mailbox Sender :=
  { mailbox with phase := Function.update mailbox.phase sender phase }

/-- The fence check: behind the fence the call fails like one that finds the mailbox busy. -/
def enter (mailbox : Mailbox Sender) (sender : Sender) : Mailbox Sender :=
  let call : Call Sender := ⟨sender, mailbox.calls⟩
  { mailbox.goto sender (if mailbox.fenced then .returning call (-eBusy) else .entered call) with
    calls := mailbox.calls + 1 }

/-- The first read of the status. -/
def firstRead (zero : Status) (mailbox : Mailbox Sender) (sender : Sender) (call : Call Sender) :
    Mailbox Sender :=
  mailbox.goto sender (if mailbox.readStatus zero = .free then .ready call else .notFree call)

/-- The second read: `DONE` counts as free, all else goes to `busy_out`. -/
def secondRead (zero : Status) (mailbox : Mailbox Sender) (sender : Sender) (call : Call Sender) :
    Mailbox Sender :=
  mailbox.goto sender
    (if mailbox.readStatus zero = .done then .ready call else .returning call (-eBusy))

/-- The copy of the command words; behind the fence every word of it is dropped. -/
def post (mailbox : Mailbox Sender) (sender : Sender) (call : Call Sender) : Mailbox Sender :=
  if mailbox.fenced then mailbox.goto sender (.waiting call)
  else { mailbox.goto sender (.waiting call) with status := .posted, command := some call }

/-- The read after the poll: anything but `DONE` is a time-out. -/
def finalRead (zero : Status) (mailbox : Mailbox Sender) (sender : Sender) (call : Call Sender) :
    Mailbox Sender :=
  mailbox.goto sender
    (if mailbox.readStatus zero = .done then .sawDone call else .finishing call (-eBusy))

/-- `rf_free_cmd`, after which the caller looks at the return value. -/
def freeCmd (mailbox : Mailbox Sender) (sender : Sender) (call : Call Sender) (ret : Int) :
    Mailbox Sender :=
  { (mailbox.writeStatus .free).goto sender .idle with
    succeeded := if ret = 0 then call :: mailbox.succeeded else mailbox.succeeded }

/-- One step; `none` says that the sender or the M4 is not where the event needs it. -/
def next (zero : Status) (mailbox : Mailbox Sender) : Event Sender → Option (Mailbox Sender)
  | .fence on => some { mailbox with fenced := on }
  | .enter sender =>
      match mailbox.phase sender with
      | .idle => some (enter mailbox sender)
      | _ => none
  | .retry sender =>
      match mailbox.phase sender with
      | .returning _ ret => if ret = -eBusy then some (enter mailbox sender) else none
      | _ => none
  | .firstRead sender =>
      match mailbox.phase sender with
      | .entered call => some (firstRead zero mailbox sender call)
      | _ => none
  | .secondRead sender =>
      match mailbox.phase sender with
      | .notFree call => some (secondRead zero mailbox sender call)
      | _ => none
  | .post sender =>
      match mailbox.phase sender with
      | .ready call => some (post mailbox sender call)
      | _ => none
  | .finalRead sender =>
      match mailbox.phase sender with
      | .waiting call => some (finalRead zero mailbox sender call)
      | _ => none
  | .readResult sender =>
      match mailbox.phase sender with
      | .sawDone call => some (mailbox.goto sender (.finishing call mailbox.readResult))
      | _ => none
  | .writeFree sender =>
      match mailbox.phase sender with
      | .finishing call ret =>
          some ((mailbox.writeStatus .free).goto sender (.returning call ret))
      | _ => none
  | .freeCmd sender =>
      match mailbox.phase sender with
      | .returning call ret => some (freeCmd mailbox sender call ret)
      | _ => none
  | .m4Accept =>
      match mailbox.status, mailbox.m4, mailbox.command with
      | .posted, .idle, some call => some { mailbox with m4 := .executing call }
      | _, _, _ => none
  | .m4Result result =>
      match mailbox.m4 with
      | .executing call =>
          some { mailbox with
            m4 := .resulted call
            result := result
            executed := call :: mailbox.executed }
      | _ => none
  | .m4Done =>
      match mailbox.m4 with
      | .resulted _ => some { mailbox with m4 := .idle, status := .done }
      | _ => none

/-! ## What the protocol promises -/

/-- The call the M4 has in its hands. -/
def Executor.hand : Executor Sender → List (Call Sender)
  | .idle => []
  | .executing call | .resulted call => [call]

/-- The calls whose command is posted or in execution. -/
def Mailbox.inFlight (mailbox : Mailbox Sender) : List (Call Sender) :=
  (if mailbox.status = .posted then mailbox.command.toList else []) ++ mailbox.m4.hand

/-- A sender is told success only if the M4 executed its command in that call. -/
def Mailbox.Honest (mailbox : Mailbox Sender) : Prop :=
  ∀ call ∈ mailbox.succeeded, call ∈ mailbox.executed

/-- The sender whose access an event is. -/
def Event.sender : Event Sender → Option Sender
  | .enter sender | .retry sender | .firstRead sender | .secondRead sender | .post sender
  | .finalRead sender | .readResult sender | .writeFree sender | .freeCmd sender => some sender
  | .fence _ | .m4Accept | .m4Result _ | .m4Done => none

/-- No sender changes the status while another sender's command is posted or in execution. -/
def Undisturbing (mailbox : Mailbox Sender) (event : Event Sender) (following : Mailbox Sender) :
    Prop :=
  ∀ sender ∈ event.sender, following.status ≠ mailbox.status →
    ∀ call ∈ mailbox.inFlight, call.sender = sender

/-! ## When it keeps the promise -/

/-- The sender is in none of the code that trusts what it has read of the status, or that goes on
to write it. -/
def Phase.Outside : Phase Sender → Prop
  | .idle | .entered _ => True
  | _ => False

/-- No other sender is inside a call, and no earlier command is still posted or in execution. -/
def Mailbox.MayBegin (mailbox : Mailbox Sender) (sender : Sender) : Prop :=
  (∀ other, other ≠ sender → (mailbox.phase other).Outside) ∧
    mailbox.m4 = .idle ∧ mailbox.status ≠ .posted

/-- A call begins, by failing at the fence or by its first read of the status, only when no other
is under way, and none copies its command into a fenced mailbox that says `DONE`. -/
def Serial (mailbox : Mailbox Sender) : Event Sender → Prop
  | .enter sender | .retry sender => mailbox.fenced → mailbox.MayBegin sender
  | .firstRead sender => mailbox.MayBegin sender
  | .post _ => mailbox.fenced → mailbox.status ≠ .done
  | _ => True

instance (phase : Phase Sender) : Decidable phase.Outside := by
  cases phase <;> unfold Phase.Outside <;> infer_instance

instance [Fintype Sender] (mailbox : Mailbox Sender) (sender : Sender) :
    Decidable (mailbox.MayBegin sender) :=
  inferInstanceAs (Decidable (_ ∧ _ ∧ _))

instance [Fintype Sender] (mailbox : Mailbox Sender) (event : Event Sender) :
    Decidable (Serial mailbox event) := by
  cases event <;> unfold Serial <;> infer_instance

instance (mailbox : Mailbox Sender) (event : Event Sender) (following : Mailbox Sender) :
    Decidable (Undisturbing mailbox event following) :=
  inferInstanceAs (Decidable (∀ sender ∈ event.sender, following.status ≠ mailbox.status →
    ∀ call ∈ mailbox.inFlight, call.sender = sender))

instance (mailbox : Mailbox Sender) : Decidable mailbox.Honest :=
  inferInstanceAs (Decidable (∀ call ∈ mailbox.succeeded, call ∈ mailbox.executed))

end RfnmDriver.LaLib.Swcmd
