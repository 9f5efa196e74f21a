import Mathlib.Data.Fintype.Basic
import RfnmDriver.Daughterboard.Chlist
import RfnmDriver.Library.StepSystem

/-!
# The confirmed-apply protocol

One direction of it: hosts submit channel lists (`rfnm_apply_dev_tx_chlist`,
`rfnm_apply_dev_rx_chlist`), a work applies the list that is in the one buffer and confirms it with
its cc, session resets clear the result block (`rfnm_schedule_restart_sm`, `rfnm_restart_sm`,
`rfnm_dgb_reset_sm`), and hosts poll it. An event is one step between two points where another
context can come in; the mutex that the two directions share only delays the work. Read `next`
first.
-/

namespace RfnmDriver.Daughterboard

/-- Where the work function is. -/
inductive Worker
  | idle
  /-- In `rfnm_wait_restart_sm_idle`. -/
  | waiting
  /-- About to visit this channel, having seen these. -/
  | visiting (d : Nat) (present : BitVec 8)
  /-- Past `rfnm_mark_missing_ch`. -/
  | marked
  /-- Past `rfnm_la9310_stream`. -/
  | streamed
  deriving DecidableEq, Repr

/-- Where a host's submission is. -/
inductive Submission (Ch : Type)
  | idle
  /-- Past the bring-up and session checks. -/
  | accepted (list : ChList Ch)
  /-- Past `cancel_work_sync`. -/
  | cancelled (list : ChList Ch)
  /-- The list is in the buffer and the work about to be scheduled. -/
  | copied

/-- One direction of the protocol. -/
structure System (Host Ch : Type) where
  data : Data Ch
  /-- The work is scheduled. -/
  work : Bool
  worker : Worker
  submission : Host → Submission Ch
  /-- `rfnm_bringup_complete`. -/
  bringupComplete : Bool
  /-- `rfnm_sm_restart_running`. -/
  restartRunning : Bool
  /-- The lists submitted in the current session. -/
  session : List (ChList Ch)

/-- One step of one context. -/
inductive Event (Host Ch : Type)
  /-- A host submits a list. The flag is what `rfnm_phy_gen_session_ok` says. -/
  | submit (host : Host) (list : ChList Ch) (sessionOk : Bool)
  /-- `cancel_work_sync`, which waits for a running work. -/
  | cancel (host : Host)
  /-- The list is copied into the buffer. -/
  | copy (host : Host)
  /-- `schedule_work`. -/
  | schedule (host : Host)
  /-- The work gets the mutex. -/
  | workStart
  /-- No restart is running, or it ended. -/
  | waitDone
  /-- The wait for the restart times out. -/
  | waitFailed
  /-- The work visits the next channel, for which the device layer returns this code. -/
  | visit (device : Int)
  /-- The work marks the missing channels. -/
  | mark
  /-- `rfnm_la9310_stream` returns this code. -/
  | stream (ret : Int)
  /-- The work confirms the list. -/
  | stamp
  /-- A client asks for a reset: `rfnm_schedule_restart_sm`. -/
  | resetSchedule
  /-- The scheduled restart clears the result block again. -/
  | resetRun
  /-- The scheduled restart is over. -/
  | resetDone
  /-- `rfnm_restart_sm`, called from a transport. -/
  | resetNow
  | bringupDone
  /-- A host reads the result block and the channels. -/
  | poll

variable {Host Ch : Type}

/-- The module init, with what the probe put into the channels. -/
def System.init (list : ChList Ch) (channels : Nat → Ch) : System Host Ch where
  data := ⟨list, channels, fun _ => 0, fun _ => .none, 0⟩
  work := false
  worker := .idle
  submission := fun _ => .idle
  bringupComplete := false
  restartRunning := false
  session := []

/-- Bring-up is not complete: the requested channels are refused, and the list is confirmed. -/
def refuse (dir : Direction Ch) (data : Data Ch) (list : ChList Ch) : Data Ch :=
  { data with
    ecodes := fun i => if list.apply.getLsbD i then dir.codes.apiProbeFail else data.ecodes i
    rej := fun i => if list.apply.getLsbD i then .boot else data.rej i
    cc := list.cc }

/-- `rfnm_dgb_reset_sm`: the result block is cleared, and the channels are switched off. -/
def dgbResetSm (dir : Direction Ch) (data : Data Ch) : Data Ch :=
  { data with
    channels := fun d => dir.reset (data.channels d)
    ecodes := fun _ => 0
    cc := 0 }

/-- A reset at which a new session begins. -/
def newSession (dir : Direction Ch) (system : System Host Ch) : System Host Ch :=
  { system with data := dgbResetSm dir system.data, session := [] }

variable [DecidableEq Host]

/-- A host's place in its submission after a step. -/
def System.goto (system : System Host Ch) (host : Host) (place : Submission Ch) :
    System Host Ch :=
  { system with submission := Function.update system.submission host place }

/-- The checks at the start of a submission. -/
def submit (dir : Direction Ch) (system : System Host Ch) (host : Host) (list : ChList Ch)
    (sessionOk : Bool) : System Host Ch :=
  let submitted := { system with session := list :: system.session }
  if !system.bringupComplete then { submitted with data := refuse dir system.data list }
  else if !sessionOk then submitted
  else submitted.goto host (.accepted list)

/-- The list is copied into the buffer. -/
def copy (system : System Host Ch) (host : Host) (list : ChList Ch) : System Host Ch :=
  { system.goto host .copied with data := { system.data with list := list } }

/-- One step over a board with `count` channels; `none` says that the context is not where the
event needs it. -/
def next (dir : Direction Ch) (count : Nat) (system : System Host Ch) :
    Event Host Ch → Option (System Host Ch)
  | .submit host list sessionOk =>
      match system.submission host with
      | .idle => some (submit dir system host list sessionOk)
      | _ => none
  | .cancel host =>
      match system.submission host, system.worker with
      | .accepted list, .idle =>
          if dir.cancels then some { system.goto host (.cancelled list) with work := false }
          else none
      | _, _ => none
  | .copy host =>
      match system.submission host with
      | .accepted list => if dir.cancels then none else some (copy system host list)
      | .cancelled list => some (copy system host list)
      | _ => none
  | .schedule host =>
      match system.submission host with
      | .copied => some { system.goto host .idle with work := true }
      | _ => none
  | .workStart =>
      match system.worker, system.work with
      | .idle, true =>
          some { system with data := clearRej system.data, work := false, worker := .waiting }
      | _, _ => none
  | .waitDone =>
      match system.worker, system.restartRunning with
      | .waiting, false =>
          some { system with data := clearEcodes system.data, worker := .visiting 0 0#8 }
      | _, _ => none
  | .waitFailed =>
      match system.worker, system.restartRunning with
      | .waiting, true =>
          some { system with data := giveUp dir system.data (-eTimedOut), worker := .idle }
      | _, _ => none
  | .visit device =>
      match system.worker with
      | .visiting d present =>
          if d < count then
            let (data, seen) := visit dir (system.data, present) d device
            some { system with data := data, worker := .visiting (d + 1) seen }
          else none
      | _ => none
  | .mark =>
      match system.worker with
      | .visiting d present =>
          if d = count then
            some { system with data := markMissing dir (system.data, present), worker := .marked }
          else none
      | _ => none
  | .stream ret =>
      match system.worker with
      | .marked =>
          some { system with data := noteStream dir system.data ret, worker := .streamed }
      | _ => none
  | .stamp =>
      match system.worker with
      | .streamed => some { system with data := stamp system.data, worker := .idle }
      | _ => none
  | .resetSchedule =>
      if system.restartRunning then some system
      else some { newSession dir system with restartRunning := true }
  | .resetRun =>
      if system.restartRunning then some { system with data := dgbResetSm dir system.data }
      else none
  | .resetDone =>
      if system.restartRunning then some { system with restartRunning := false } else none
  | .resetNow => some (newSession dir system)
  | .bringupDone => some { system with bringupComplete := true }
  | .poll => some system

/-! ## What a confirmation promises -/

/-- The list in the buffer is this one, up to the gains taken from the live channels. -/
def Alike (dir : Direction Ch) (list buffer : ChList Ch) : Prop :=
  buffer.cc = list.cc ∧ buffer.apply = list.apply ∧
    ∀ d, buffer.ch d = list.ch d ∨ ∃ live, buffer.ch d = dir.receive live (list.ch d)

/-- The host reads the same channels and errors from both. -/
def ReadsAs (data other : Data Ch) : Prop :=
  data.channels = other.channels ∧ data.ecodes = other.ecodes ∧ data.rej = other.rej

/-- Every list of the session whose cc the result shows has been applied as a whole, and channels
and errors are what its application left. -/
def System.Confirmed (dir : Direction Ch) (count : Nat) (system : System Host Ch) : Prop :=
  ∀ list ∈ system.session, list.cc = system.data.cc →
    ∃ start outcome, Alike dir list start.list ∧
      ReadsAs system.data (application dir count start outcome)

/-- What a host reads at a poll is confirmed. -/
def PollConfirmed (dir : Direction Ch) (count : Nat) (system : System Host Ch)
    (event : Event Host Ch) (_ : System Host Ch) : Prop :=
  match event with
  | .poll => system.Confirmed dir count
  | _ => True

/-! ## When it keeps the promise -/

/-- The work does not read or write what it walks. -/
def Worker.Aside : Worker → Prop
  | .idle | .waiting => True
  | _ => False

/-- The host is in no submission. -/
def Submission.Done : Submission Ch → Prop
  | .idle => True
  | _ => False

/-- Nothing of the direction is under way. -/
def System.Quiet (system : System Host Ch) : Prop :=
  system.worker = .idle ∧ system.work = false ∧ ∀ host, (system.submission host).Done

/-- Lists are submitted after bring-up, with a fresh cc that is not 0, and copied while the work
does not walk; a session begins while nothing is under way; and a poll that finds a cc of the
session finds the work idle. -/
def Orderly (system : System Host Ch) : Event Host Ch → Prop
  | .submit _ list _ =>
      system.bringupComplete ∧ list.cc ≠ 0 ∧ ∀ other ∈ system.session, other.cc ≠ list.cc
  | .copy _ => system.worker.Aside
  | .resetSchedule => system.restartRunning = false → system.Quiet
  | .resetNow => system.Quiet
  | .poll => system.worker = .idle ∨ ∀ list ∈ system.session, list.cc ≠ system.data.cc
  | _ => True

instance (worker : Worker) : Decidable worker.Aside := by
  cases worker <;> unfold Worker.Aside <;> infer_instance

instance (submission : Submission Ch) : Decidable submission.Done := by
  cases submission <;> unfold Submission.Done <;> infer_instance

instance [Fintype Host] (system : System Host Ch) : Decidable system.Quiet :=
  inferInstanceAs (Decidable (_ ∧ _ ∧ _))

instance [Fintype Host] (system : System Host Ch) (event : Event Host Ch) :
    Decidable (Orderly system event) := by
  cases event <;> unfold Orderly <;> infer_instance

end RfnmDriver.Daughterboard
