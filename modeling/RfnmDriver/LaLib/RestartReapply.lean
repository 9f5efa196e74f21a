import Mathlib.Data.Fintype.Basic
import RfnmDriver.LaLib.StreamWord

/-!
# The deferred re-apply after a phy restart

Three kinds of context touch the stream word: the timer, which stashes and clears it
(`rfnm_lalib_phy_restart_notify`, without the lock), the work that sends the stash again
(`rfnm_phy_restart_workfn`), and the clients (`rfnm_la9310_stream`, `rfnm_la9310_quiesce`). An event
is one step between two points where another context can come in. Words are as they are sent, with
the windowed-session bit in; every send is accepted, as what failures do to the cache is the matter
of `StreamDedup`. Read `next` first.
-/

namespace RfnmDriver.LaLib.Restart

/-- A client call: `rfnm_la9310_stream` with this word, or `rfnm_la9310_quiesce`. -/
inductive Request
  | stream (word : Word)
  | quiesce
  deriving DecidableEq, Repr

/-- The word a call asks for; a quiesce asks for all off. -/
def Request.word : Request → Word
  | .stream word => word
  | .quiesce => 0

/-- Where a client is in its call. -/
inductive Phase
  | idle
  /-- Past the look at the cached word without the lock. -/
  | waiting (request : Request)
  /-- It has the lock, and the cached word is another: about to send. -/
  | sending (request : Request)
  /-- The M4 has the word: about to cache it and to unlock. -/
  | sent (request : Request)
  /-- A quiesce back from its send, about to clear the cache without the lock. -/
  | clearing
  deriving DecidableEq, Repr

/-- Where the restart work is. -/
inductive Worker
  | idle
  /-- It has the lock and took the stash. -/
  | sending (word : Word)
  /-- The M4 has the word. -/
  | sent (word : Word)
  deriving DecidableEq, Repr

/-- The session and its contexts. -/
structure Session (Client : Type) where
  /-- `rfnm_session.stream_word`. -/
  streamWord : Word
  /-- `rfnm_phy_restart_stash`. -/
  restartStash : Word
  /-- `rfnm_phy_restart_work` is scheduled. -/
  restartWork : Bool
  /-- `rfnm_stream_send_lock` is held. -/
  sendLock : Bool
  /-- The last stream word sent to the M4. -/
  m4Word : Word
  worker : Worker
  phase : Client → Phase
  /-- The word of the last client call that completed since the last stash. -/
  newest : Option Word

/-- One step of one context. -/
inductive Event (Client : Type)
  /-- The timer noticed a restart. -/
  | notify
  /-- A client calls, and looks at the cached word. -/
  | begin (client : Client) (request : Request)
  /-- A client takes the lock, and looks at the cached word again. -/
  | lock (client : Client)
  /-- A client's word reaches the M4. -/
  | send (client : Client)
  /-- A client caches its word and unlocks. -/
  | finish (client : Client)
  /-- A quiesce clears the cache. -/
  | clear (client : Client)
  /-- The work takes the lock and the stash. -/
  | workLock
  /-- The stashed word reaches the M4. -/
  | workSend
  /-- The work caches its word and unlocks. -/
  | workFinish
  deriving DecidableEq

variable {Client : Type}

/-- The module init. -/
def Session.init : Session Client where
  streamWord := 0
  restartStash := 0
  restartWork := false
  sendLock := false
  m4Word := 0
  worker := .idle
  phase := fun _ => .idle
  newest := none

/-- `rfnm_lalib_phy_restart_notify`. -/
def notify (session : Session Client) : Session Client :=
  if session.streamWord = 0 then session
  else
    { session with
      restartStash := session.streamWord
      streamWord := 0
      restartWork := true
      newest := none }

/-- `rfnm_phy_restart_workfn` up to its send: a stash without RX is dropped. -/
def workLock (session : Session Client) : Session Client :=
  let taken := { session with restartWork := false, restartStash := 0 }
  if session.restartStash.rxOn then
    { taken with sendLock := true, worker := .sending session.restartStash }
  else taken

variable [DecidableEq Client]

/-- A client's place in the code after a step. -/
def Session.goto (session : Session Client) (client : Client) (phase : Phase) : Session Client :=
  { session with phase := Function.update session.phase client phase }

/-- A client's call returns success. -/
def Session.complete (session : Session Client) (client : Client) (word : Word) : Session Client :=
  { session.goto client .idle with newest := some word }

/-- The first look at the cached word: `rfnm_la9310_stream` is done when it is the one asked for,
`rfnm_la9310_quiesce` when it is 0. -/
def begin (session : Session Client) (client : Client) (request : Request) : Session Client :=
  if request.word = session.streamWord then session.complete client request.word
  else session.goto client (.waiting request)

/-- Back from `rfnm_la9310_stream_send`. -/
def returned (session : Session Client) (client : Client) : Request → Session Client
  | .stream word => session.complete client word
  | .quiesce => session.goto client .clearing

/-- The look at the cached word under the lock; on a hit the lock is given up again. -/
def lock (session : Session Client) (client : Client) (request : Request) : Session Client :=
  if request.word = session.streamWord then returned session client request
  else { session.goto client (.sending request) with sendLock := true }

/-- One step; `none` says that the context is not where the event needs it, or that the lock is
held. -/
def next (session : Session Client) : Event Client → Option (Session Client)
  | .notify => some (notify session)
  | .begin client request =>
      match session.phase client with
      | .idle => some (begin session client request)
      | _ => none
  | .lock client =>
      match session.phase client, session.sendLock with
      | .waiting request, false => some (lock session client request)
      | _, _ => none
  | .send client =>
      match session.phase client with
      | .sending request =>
          some { session.goto client (.sent request) with m4Word := request.word }
      | _ => none
  | .finish client =>
      match session.phase client with
      | .sent request =>
          some (returned { session with streamWord := request.word, sendLock := false } client
            request)
      | _ => none
  | .clear client =>
      match session.phase client with
      | .clearing => some ({ session with streamWord := 0 }.complete client 0)
      | _ => none
  | .workLock =>
      match session.worker, session.restartWork, session.sendLock with
      | .idle, true, false => some (workLock session)
      | _, _, _ => none
  | .workSend =>
      match session.worker with
      | .sending word => some { session with m4Word := word, worker := .sent word }
      | _ => none
  | .workFinish =>
      match session.worker with
      | .sent word =>
          some { session with streamWord := word, sendLock := false, worker := .idle }
      | _ => none

/-! ## What the re-apply promises -/

/-- No call is under way and no work is scheduled or running. -/
def Session.Settled (session : Session Client) : Prop :=
  (∀ client, session.phase client = .idle) ∧ session.restartWork = false ∧ session.worker = .idle

/-- Once all have run, the last word sent is that of the last client call that completed since the
last stash, if there is one. -/
def Session.NewestWins (session : Session Client) : Prop :=
  session.Settled → ∀ word ∈ session.newest, session.m4Word = word

/-! ## When it keeps the promise -/

/-- A notification finds the cache clear, or finds a word with RX and no call under way. A call
begins while no other is under way; while a stash waits for its work it asks for that very word, and
while the work runs over a clear cache it does not ask for all off. -/
def Orderly (session : Session Client) : Event Client → Prop
  | .notify =>
      session.streamWord ≠ 0 →
        session.streamWord.rxOn ∧ ∀ client, session.phase client = .idle
  | .begin client request =>
      (∀ other, other ≠ client → session.phase other = .idle) ∧
        (session.restartWork → request.word = session.restartStash) ∧
          (session.worker ≠ .idle → session.streamWord = 0 → request.word ≠ 0)
  | _ => True

instance [Fintype Client] (session : Session Client) (event : Event Client) :
    Decidable (Orderly session event) := by
  cases event <;> unfold Orderly <;> infer_instance

instance [Fintype Client] (session : Session Client) : Decidable session.Settled :=
  inferInstanceAs (Decidable (_ ∧ _ ∧ _))

instance [Fintype Client] (session : Session Client) : Decidable session.NewestWins :=
  -- not by running through all words
  have : Decidable (∀ word ∈ session.newest, session.m4Word = word) :=
    Option.decidableForallMem _
  inferInstanceAs (Decidable (session.Settled → ∀ word ∈ session.newest, session.m4Word = word))

end RfnmDriver.LaLib.Restart
