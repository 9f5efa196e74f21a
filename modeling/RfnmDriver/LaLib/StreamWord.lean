import RfnmDriver.Library.StepSystem

/-!
# The stream word and its cache

`rfnm_session.stream_word` is the driver's belief about the last stream word the M4 accepted:
`__rfnm_la9310_stream_send` answers a request for the cached word without sending it. The model has
the cache, what the M4 really accepted, and the operations that write either: stream, quiesce,
re-apply, the restart notification with its work, a chip reset and a kernel swap. An operation is
one event, and carries what the mailbox and the publish wait do to each of its sends. Read
`streamSend` first.
-/

namespace RfnmDriver.LaLib

/-- A stream config word. -/
abbrev Word := BitVec 32

/-- Bit 0: the word has TX on. -/
def Word.txOn (word : Word) : Bool :=
  word &&& 0x1#32 ≠ 0#32

/-- Bits 1 to 4: the word has some RX lane on. -/
def Word.rxOn (word : Word) : Bool :=
  (word >>> 1) &&& 0xf#32 ≠ 0#32

/-- Bits 0 to 4: the word has some channel on. -/
def Word.channelOn (word : Word) : Bool :=
  word &&& 0x1F#32 ≠ 0#32

/-- What becomes of one pass through `rf_send_swcmd` with a stream word. -/
inductive Reply
  /-- The mailbox was busy or fenced: nothing was posted. -/
  | busy
  /-- Timed out before the M4 accepted the word. -/
  | lost
  /-- The M4 rejected the word. -/
  | nak
  /-- Timed out after the M4 accepted the word. -/
  | late
  /-- Accepted and reported so; the flag says whether the epochs moved within the wait. -/
  | accepted (published : Bool)
  deriving DecidableEq, Repr

/-- The M4 takes the word. -/
def Reply.taken : Reply → Bool
  | .late | .accepted _ => true
  | .busy | .lost | .nak => false

/-- `rf_send_swcmd` returns 0. -/
def Reply.ok : Reply → Bool
  | .accepted _ => true
  | .busy | .lost | .nak | .late => false

/-- The wait after the send saw the epochs move. -/
def Reply.published : Reply → Bool
  | .accepted published => published
  | .busy | .lost | .nak | .late => false

/-- What becomes of the two attempts of one send. -/
structure Tries where
  first : Reply
  second : Reply
  deriving DecidableEq, Repr

/-- What becomes of the sends of one call: the two of the gen-init micro-cycle and the word. -/
structure Script where
  initRx : Tries
  initClose : Tries
  main : Tries
  deriving DecidableEq, Repr

/-- A request that was answered from the cache, and what the M4 had accepted last. -/
structure Dedup where
  requested : Word
  m4Word : Word
  deriving DecidableEq, Repr

/-- The session, and the M4's side of it. -/
structure Session where
  /-- `rfnm_session.stream_word`. -/
  streamWord : Word
  /-- `rfnm_phy_restart_stash`. -/
  restartStash : Word
  /-- `rfnm_phy_restart_work` is scheduled. -/
  restartWork : Bool
  /-- `rfnm_streamed_gen`, when `rfnm_streamed_gen_valid`. -/
  streamedGen : Option Nat
  /-- `rfnm_phy_gen_now`. -/
  phyGen : Nat
  /-- The last stream word the M4 accepted since it booted; it boots with all off. -/
  m4Word : Word
  /-- The requests answered from the cache so far. -/
  deduped : List Dedup

/-- The module init. -/
def Session.init : Session where
  streamWord := 0
  restartStash := 0
  restartWork := false
  streamedGen := none
  phyGen := 0
  m4Word := 0
  deduped := []

/-- One pass through `rf_send_swcmd`. -/
def post (session : Session) (word : Word) (reply : Reply) : Session :=
  if reply.taken then { session with m4Word := word } else session

/-- The attempt loop of `__rfnm_la9310_stream_send`: a failed attempt ends it, an unpublished first
one is repeated once. Also whether it ended without failure. -/
def attempts (session : Session) (word : Word) (waits : Bool) (tries : Tries) : Bool × Session :=
  let first := post session word tries.first
  if !tries.first.ok then (false, first)
  else if tries.first.published || !waits then (true, first)
  else (tries.second.ok, post first word tries.second)

/-- The end of a send that did not fail: the word becomes the cached one. -/
def applied (session : Session) (word : Word) : Session :=
  { session with
    streamWord := word
    streamedGen := if word.channelOn then some session.phyGen else session.streamedGen }

/-- `__rfnm_la9310_stream_send` from the publish set-up on. Forced re-sends of the live word do not
wait for a TX epoch. Also whether it returns 0. -/
def sendWord (session : Session) (word : Word) (force : Bool) (tries : Tries) : Bool × Session :=
  let waitTx := word.txOn && !(force && word == session.streamWord)
  let (ok, sent) := attempts session word (word.rxOn || waitTx) tries
  if ok then (true, applied sent word) else (false, sent)

/-- The return of success without a send. -/
def dedup (session : Session) (word : Word) : Session :=
  { session with deduped := ⟨word, session.m4Word⟩ :: session.deduped }

/-- `__rfnm_la9310_stream_send` of a word of the micro-cycle: not forced, and without TX. -/
def initSend (session : Session) (word : Word) (tries : Tries) : Bool × Session :=
  if word = session.streamWord then (true, dedup session word)
  else sendWord session word false tries

/-- The word of the micro-cycle: the first RX lane, with the dcs bits of the caller's word. -/
def initWord (word : Word) : Word :=
  (word &&& 0x600#32) ||| 0x2#32

/-- `rfnm_gen_tx_init_cycle`: one RX lane on and off again. -/
def genTxInitCycle (session : Session) (word : Word) (script : Script) : Session :=
  let (ok, opened) := initSend session (initWord word) script.initRx
  if ok then (initSend opened 0 script.initClose).2 else opened

/-- Whether a send of the word runs the micro-cycle first: TX, on a phy generation that streamed
nothing yet, with no live RX word. -/
def needsInit (session : Session) (word : Word) : Bool :=
  word.txOn && session.streamedGen != some session.phyGen && session.streamWord &&& 0x1E#32 == 0#32

/-- The windowed-session bit, set in TX words while the RT command ring is armed. -/
def injectWindowed (armed : Bool) (word : Word) : Word :=
  if armed && word.txOn then word ||| 0x10000#32 else word

/-- `__rfnm_la9310_stream_send`. -/
def streamSend (session : Session) (request : Word) (force armed : Bool) (script : Script) :
    Bool × Session :=
  let word := injectWindowed armed request
  if !force && word == session.streamWord then (true, dedup session word)
  else
    let ready := if needsInit session word then genTxInitCycle session word script else session
    sendWord ready word force script.main

/-- The end of `rfnm_la9310_stream`, with its own look at the cached word. -/
def stream (session : Session) (request : Word) (armed : Bool) (script : Script) : Session :=
  if request = session.streamWord then dedup session request
  else (streamSend session request false armed script).2

/-- `rfnm_la9310_quiesce`. -/
def quiesce (session : Session) (armed : Bool) (script : Script) : Session :=
  if session.streamWord = 0 then session
  else { (streamSend session 0 false armed script).2 with streamWord := 0 }

/-- `rfnm_la9310_stream_reapply`: words without RX are left alone. -/
def reapply (session : Session) (armed : Bool) (script : Script) : Session :=
  if session.streamWord = 0 ∨ !session.streamWord.rxOn then session
  else
    let (ok, sent) := streamSend session session.streamWord true armed script
    if ok then sent else { sent with streamWord := 0 }

/-- The phy timer noticed a restart nobody commanded: the generation moves, and
`rfnm_lalib_phy_restart_notify` stashes the live word. The flag says whether the M4 came up
afresh. -/
def restartNotify (session : Session) (rebooted : Bool) : Session :=
  let moved := { session with
    phyGen := session.phyGen + 1
    m4Word := if rebooted then 0 else session.m4Word }
  if session.streamWord = 0 then moved
  else { moved with restartStash := session.streamWord, streamWord := 0, restartWork := true }

/-- `rfnm_phy_restart_workfn`. -/
def restartWorkfn (session : Session) (armed : Bool) (script : Script) : Session :=
  let taken := { session with restartStash := 0, restartWork := false }
  if session.restartStash ≠ 0 ∧ session.restartStash.rxOn then
    (streamSend taken session.restartStash true armed script).2
  else taken

/-- `rfnm_la9310_stream` after the hard reset of a reclock: the M4 boots anew. -/
def chipReset (session : Session) : Session :=
  { session with streamWord := 0, m4Word := 0, phyGen := session.phyGen + 1 }

/-- `rfnm_la9310_stream` after a kernel swap on the parked core; the M4 keeps running. -/
def kernelSwap (session : Session) : Session :=
  { session with streamWord := 0 }

/-- One operation. `armed` is what `rfnm_rtc_armed` reads. -/
inductive Operation
  /-- A client's `rfnm_la9310_stream` with this word. -/
  | stream (request : Word) (armed : Bool) (script : Script)
  /-- `rfnm_la9310_stream_send`, of a caller that looked at the cache some time before. -/
  | send (request : Word) (armed : Bool) (script : Script)
  | quiesce (armed : Bool) (script : Script)
  | reapply (armed : Bool) (script : Script)
  | restartNotify (rebooted : Bool)
  | restartWork (armed : Bool) (script : Script)
  | chipReset
  | kernelSwap
  deriving DecidableEq

/-- One step; only the restart work may be not enabled. -/
def nextOperation (session : Session) : Operation → Option Session
  | .stream request armed script => some (stream session request armed script)
  | .send request armed script => some (streamSend session request false armed script).2
  | .quiesce armed script => some (quiesce session armed script)
  | .reapply armed script => some (reapply session armed script)
  | .restartNotify rebooted => some (restartNotify session rebooted)
  | .restartWork armed script =>
      if session.restartWork then some (restartWorkfn session armed script) else none
  | .chipReset => some (chipReset session)
  | .kernelSwap => some (kernelSwap session)

/-! ## What the cache promises -/

/-- Every request answered from the cache was for the word the M4 accepted last, and so would be
any request that is answered from it now. -/
def Session.DedupSound (session : Session) : Prop :=
  (∀ entry ∈ session.deduped, entry.m4Word = entry.requested) ∧
    ∀ request : Word, request = session.streamWord → session.m4Word = request

/-! ## When it keeps the promise -/

/-- How the attempts of one send end. -/
inductive Verdict
  /-- The send succeeds, and the M4 has the word. -/
  | sent
  /-- The send fails, and the M4 never had the word. -/
  | refused
  /-- The send fails, and the M4 has the word: it timed out late, or the attempt that follows an
  unpublished one failed. -/
  | diverged
  deriving DecidableEq, Repr

/-- The verdict on a pair of attempts, given whether the send waits for an epoch. -/
def Tries.verdict (tries : Tries) (waits : Bool) : Verdict :=
  if !tries.first.ok then (if tries.first.taken then .diverged else .refused)
  else if tries.first.published || !waits || tries.second.ok then .sent
  else .diverged

/-- The micro-cycle leaves the cache in step: neither of the sends it makes diverges. -/
def InitFaithful (word : Word) (script : Script) : Prop :=
  match script.initRx.verdict (initWord word).rxOn with
  | .sent => script.initClose.verdict false ≠ .diverged
  | .refused => True
  | .diverged => False

/-- A send leaves the cache in step: it succeeds; or it fails unaccepted, after a micro-cycle that
left the cache in step; or it re-sends the cached word itself. -/
def SendFaithful (session : Session) (word : Word) (script : Script) : Prop :=
  match script.main.verdict (word.rxOn || word.txOn) with
  | .sent => True
  | .refused => needsInit session word → InitFaithful word script
  | .diverged => word = session.streamWord

/-- The operation leaves the cache in step with the M4. -/
def Faithful (session : Session) : Operation → Prop
  | .stream request armed script =>
      request = session.streamWord ∨ injectWindowed armed request = session.streamWord ∨
        SendFaithful session (injectWindowed armed request) script
  | .send request armed script =>
      injectWindowed armed request = session.streamWord ∨
        SendFaithful session (injectWindowed armed request) script
  | .quiesce _ script =>
      session.streamWord = 0 ∨ script.main.verdict false ≠ .refused
  | .reapply _ script => session.streamWord.rxOn → script.main.verdict true = .sent
  | .restartNotify rebooted => session.streamWord = 0 ∨ rebooted
  | .restartWork armed script =>
      session.restartStash.rxOn →
        SendFaithful session (injectWindowed armed session.restartStash) script
  | .chipReset => True
  | .kernelSwap => session.streamWord = 0

end RfnmDriver.LaLib
