import Mathlib.Data.List.Basic
import Mathlib.Logic.Function.Basic
import RfnmDriver.Library.StepSystem

/-!
# Scheduled hard resets

`rfnm_schedule_hard_reset_la9310`, its work and `rfnm_get_hard_reset_la9310_status` of
`la9310_rfnm.c`, statement by statement, with any number of callers and of readers of the status
between each other's statements. `resets_answered` says that every accepted reset is run once, on
its own frequency, and that no answer is older than the question.
-/

namespace RfnmDriver.Session.HardReset

open StepSystem

/-- `rfnm_hard_reset_status`. -/
inductive ResetStatus
  | ok
  | timeout
  | probeFail
  deriving DecidableEq, Repr

/-- The statement that a caller of `rfnm_schedule_hard_reset_la9310` is at. -/
inductive CallerPoint
  /-- At the store of the frequency: `rfnm_hard_reset_running` was clear. -/
  | won
  /-- At the store of the status. -/
  | stored
  /-- At `schedule_work`. -/
  | marked
  deriving DecidableEq, Repr

/-- Where `rfnm_hard_reset_work_fn` is. -/
inductive WorkerPoint
  | resetting (freq : Nat)
  /-- At the clearing of `rfnm_hard_reset_running`. -/
  | reported
  /-- Behind it. -/
  | leaving
  deriving DecidableEq, Repr

/-- The variables of the driver, and where everyone is. -/
structure Resets where
  /-- `rfnm_hard_reset_running`. -/
  running : Bool
  /-- `rfnm_hard_reset_dcs_freq`. -/
  dcsFreq : Nat
  status : ResetStatus
  /-- `rfnm_hard_reset_work` is queued. -/
  pending : Bool
  worker : Option WorkerPoint
  /-- The callers in the function, and the frequency they ask for. -/
  callers : Nat → Option (CallerPoint × Nat)
  /-- The readers that have found no reset running, and how many had been accepted then. -/
  readers : Nat → Option Nat
  /-- The frequencies of the accepted resets. -/
  accepted : List Nat
  /-- The resets that have been run, with what came of them. -/
  served : List (Nat × ResetStatus)

/-- What happens; a caller that is turned away leaves nothing behind. -/
inductive Event
  /-- The tests of `rfnm_schedule_hard_reset_la9310`. -/
  | ask (caller freq : Nat)
  | storeFreq (caller : Nat)
  | storeStatus (caller : Nat)
  | queue (caller : Nat)
  /-- The work begins. -/
  | begin
  /-- `rfnm_hard_reset_la9310` is over, and its result is stored. -/
  | report (ok : Bool)
  | clear
  /-- The work has returned. -/
  | leave
  /-- The first statement of `rfnm_get_hard_reset_la9310_status`. -/
  | readRunning (reader : Nat)
  /-- The second. -/
  | readStatus (reader : Nat)
  deriving DecidableEq, Repr

namespace Resets

variable (st : Resets)

/-- The caller goes on. -/
def moved (caller : Nat) (point : Option (CallerPoint × Nat)) : Resets :=
  { st with callers := Function.update st.callers caller point }

/-- One statement. -/
def next : Event → Option Resets
  | .ask caller freq =>
      match st.callers caller with
      | some _ => none
      | none =>
          if freq ≠ 0 ∧ st.running = false then
            some { st.moved caller (some (.won, freq)) with
              running := true
              accepted := st.accepted ++ [freq] }
          else some st
  | .storeFreq caller =>
      match st.callers caller with
      | some (.won, freq) =>
          some { st.moved caller (some (.stored, freq)) with dcsFreq := freq }
      | _ => none
  | .storeStatus caller =>
      match st.callers caller with
      | some (.stored, freq) =>
          some { st.moved caller (some (.marked, freq)) with status := .timeout }
      | _ => none
  | .queue caller =>
      match st.callers caller with
      | some (.marked, _) =>
          -- where the work is queued already the reset is given up
          some (if st.pending then
            { st.moved caller none with running := false, status := .probeFail }
          else { st.moved caller none with pending := true })
      | _ => none
  | .begin =>
      match st.worker with
      | none =>
          if st.pending then
            some { st with pending := false, worker := some (.resetting st.dcsFreq) }
          else none
      | some _ => none
  | .report ok =>
      match st.worker with
      | some (.resetting freq) =>
          let status := if ok then ResetStatus.ok else .probeFail
          some { st with
            status := status
            worker := some .reported
            served := st.served ++ [(freq, status)] }
      | _ => none
  | .clear =>
      match st.worker with
      | some .reported => some { st with running := false, worker := some .leaving }
      | _ => none
  | .leave =>
      match st.worker with
      | some .leaving => some { st with worker := none }
      | _ => none
  | .readRunning reader =>
      match st.readers reader with
      | some _ => none
      | none =>
          some (if st.running then st
          else { st with
            readers := Function.update st.readers reader (some st.accepted.length) })
  | .readStatus reader =>
      match st.readers reader with
      | some _ => some { st with readers := Function.update st.readers reader none }
      | none => none

/-- The module is loaded, with the frequency that is written down. -/
def loaded : Resets :=
  ⟨false, 122880000, .ok, false, none, fun _ => none, fun _ => none, [], []⟩

/-- What the newest reset has come to. -/
def lastResult : ResetStatus := (st.served.getLast?.map Prod.snd).getD .ok

/-- Every accepted reset has been run on its own frequency, or all but the last. -/
def Once : Prop :=
  st.accepted = st.served.map Prod.fst ∨ ∃ freq, st.accepted = st.served.map Prod.fst ++ [freq]

/-- A reset has been accepted, and its work is not over. -/
def Outstanding : Prop :=
  st.served.length < st.accepted.length ∨ st.worker = some .reported

/-- A reader that finds a reset running has one outstanding. Any other is answered with the result
of the newest reset, all those that had been accepted when it began being over, or, while a reset
is outstanding, with the timeout; and the work is never found queued. -/
def Answered (st : Resets) (event : Event) (following : Resets) : Prop :=
  following.Once ∧
  match event with
  | .readRunning _ => st.running = true → st.Outstanding
  | .readStatus reader =>
      (∀ begun, st.readers reader = some begun → begun ≤ st.served.length) ∧
      (st.status = .timeout → st.Outstanding) ∧
      (st.status ≠ .timeout → st.status = st.lastResult)
  | .queue _ => st.pending = false
  | _ => True

end Resets

/-- How far the outstanding reset has come. -/
inductive Phase
  | idle
  | claimed (caller : Nat) (point : CallerPoint) (freq : Nat)
  | queued (freq : Nat)
  | resetting (freq : Nat)
  | reported

namespace Phase

/-- The reset that is not served yet. -/
def owed : Phase → List Nat
  | .claimed _ _ freq | .queued freq | .resetting freq => [freq]
  | .idle | .reported => []

def running : Phase → Bool
  | .idle => false
  | _ => true

def pending : Phase → Bool
  | .queued _ => true
  | _ => false

/-- Nobody but the caller that has claimed the reset is in the function. -/
def callers : Phase → Nat → Option (CallerPoint × Nat)
  | .claimed caller point freq => Function.update (fun _ => none) caller (some (point, freq))
  | _ => fun _ => none

/-- The work resets, or has reported, or is out of the way. -/
def WorkerAt : Phase → Option WorkerPoint → Prop
  | .resetting freq, worker => worker = some (.resetting freq)
  | .reported, worker => worker = some .reported
  | _, worker => worker = none ∨ worker = some .leaving

/-- The stored frequency is that of the reset. -/
def FreqAt : Phase → Nat → Prop
  | .claimed _ .stored freq, stored | .claimed _ .marked freq, stored | .queued freq, stored =>
      stored = freq
  | _, _ => True

/-- The status has been set to the timeout. -/
def waits : Phase → Bool
  | .claimed _ .marked _ | .queued _ | .resetting _ => true
  | _ => false

end Phase

namespace Resets

/-- The variables are those of a reset that has come this far. -/
structure Fits (phase : Phase) (st : Resets) : Prop where
  running : st.running = phase.running
  callers : st.callers = phase.callers
  pending : st.pending = phase.pending
  worker : phase.WorkerAt st.worker
  freq : phase.FreqAt st.dcsFreq
  status : st.status = if phase.waits then .timeout else st.lastResult
  accepted : st.accepted = st.served.map Prod.fst ++ phase.owed
  settled : ∀ entry ∈ st.served, entry.2 ≠ .timeout
  readers : ∀ reader begun, st.readers reader = some begun → begun ≤ st.served.length

variable {phase : Phase} {st following : Resets} {event : Event}

/-- A reset that has been run has come to something. -/
theorem Fits.lastResult_ne (h : st.Fits phase) : st.lastResult ≠ .timeout := by
  unfold lastResult
  cases hlast : st.served.getLast? with
  | none => exact nofun
  | some entry => exact h.settled entry (List.mem_of_getLast? hlast)

/-- Every reset but the outstanding one is served. -/
theorem Fits.once (h : st.Fits phase) : st.Once := by
  have haccepted := h.accepted
  cases phase with
  | idle | reported => exact .inl (haccepted.trans (List.append_nil _))
  | claimed _ _ freq | queued freq | resetting freq => exact .inr ⟨freq, haccepted⟩

/-- A phase in which something is owed or has just been reported. -/
theorem Fits.outstanding (h : st.Fits phase) (hphase : phase ≠ .idle) : st.Outstanding := by
  have hlength := congrArg List.length h.accepted
  rw [List.length_append, List.length_map] at hlength
  cases phase with
  | idle => exact absurd rfl hphase
  | reported => exact .inr h.worker
  | claimed _ _ freq | queued freq | resetting freq =>
      exact .inl (by rw [hlength]; exact Nat.lt_succ_self _)

/-! ## The statements -/

/-- A caller that is in the function has claimed the reset. -/
theorem Fits.of_caller (h : st.Fits phase) {caller freq : Nat} {point : CallerPoint}
    (hcaller : st.callers caller = some (point, freq)) : phase = .claimed caller point freq := by
  rw [h.callers] at hcaller
  cases phase with
  | claimed other otherPoint otherFreq =>
      by_cases hsame : caller = other
      · subst hsame
        rw [Phase.callers, Function.update_self] at hcaller
        cases hcaller
        rfl
      · rw [Phase.callers, Function.update_of_ne hsame] at hcaller
        cases hcaller
  | idle | queued _ | resetting _ | reported => cases hcaller

/-- A caller that has claimed the reset moves on. -/
theorem callers_moved {caller : Nat} {point : CallerPoint} {freq : Nat}
    (h : st.callers = (Phase.claimed caller point freq).callers)
    (after : Option (CallerPoint × Nat)) :
    (st.moved caller after).callers = Function.update (fun _ => none) caller after := by
  show Function.update st.callers caller after = _
  rw [h, Phase.callers, Function.update_idem]

/-- A claim needs the flag to be clear, so there is one at a time. -/
theorem Fits.ask (h : st.Fits phase) (caller freq : Nat) (hclear : st.running = false) :
    Fits (.claimed caller .won freq)
      { st.moved caller (some (.won, freq)) with
        running := true
        accepted := st.accepted ++ [freq] } := by
  have hidle : phase = .idle := by
    have hphase := h.running.symm.trans hclear
    cases phase with
    | idle => rfl
    | claimed _ _ _ | queued _ | resetting _ | reported => cases hphase
  subst hidle
  refine ⟨rfl, ?_, h.pending, h.worker, trivial, h.status, ?_, h.settled, h.readers⟩
  · show Function.update st.callers caller _ = _
    rw [h.callers]
    rfl
  · show st.accepted ++ [freq] = st.served.map Prod.fst ++ [freq]
    rw [h.accepted]
    exact congrArg (· ++ [freq]) (List.append_nil _)

theorem Fits.storeFreq {caller freq : Nat} (h : st.Fits (.claimed caller .won freq)) :
    Fits (.claimed caller .stored freq)
      { st.moved caller (some (.stored, freq)) with dcsFreq := freq } :=
  ⟨h.running, callers_moved h.callers _, h.pending, h.worker, rfl, h.status, h.accepted, h.settled,
    h.readers⟩

theorem Fits.storeStatus {caller freq : Nat} (h : st.Fits (.claimed caller .stored freq)) :
    Fits (.claimed caller .marked freq)
      { st.moved caller (some (.marked, freq)) with status := .timeout } :=
  ⟨h.running, callers_moved h.callers _, h.pending, h.worker, h.freq, rfl, h.accepted, h.settled,
    h.readers⟩

/-- The work is not queued yet. -/
theorem Fits.queue {caller freq : Nat} (h : st.Fits (.claimed caller .marked freq)) :
    Fits (.queued freq) { st.moved caller none with pending := true } := by
  refine ⟨h.running, ?_, rfl, h.worker, h.freq, h.status, h.accepted, h.settled, h.readers⟩
  exact (callers_moved h.callers none).trans (Function.update_eq_self ..)

/-- Work that begins is the work that was queued. -/
theorem Fits.begin (h : st.Fits phase) (hpending : st.pending = true) :
    Fits (.resetting st.dcsFreq)
      { st with pending := false, worker := some (.resetting st.dcsFreq) } := by
  have hphase := h.pending.symm.trans hpending
  cases phase with
  | queued freq =>
      obtain rfl : st.dcsFreq = freq := h.freq
      exact ⟨h.running, h.callers, rfl, rfl, trivial, h.status, h.accepted, h.settled, h.readers⟩
  | idle | claimed _ _ _ | resetting _ | reported => cases hphase

/-- Work that resets has been begun. -/
theorem Fits.of_resetting (h : st.Fits phase) {freq : Nat}
    (hworker : st.worker = some (.resetting freq)) : phase = .resetting freq := by
  have hat := h.worker
  rw [hworker] at hat
  cases phase with
  | resetting other =>
      cases hat
      rfl
  | idle | claimed _ _ _ | queued _ =>
      obtain hnone | hleaving := hat
      · cases hnone
      · cases hleaving
  | reported => cases hat

theorem Fits.report {freq : Nat} (h : st.Fits (.resetting freq)) (ok : Bool) :
    let status := if ok then ResetStatus.ok else .probeFail
    Fits .reported { st with
      status := status
      worker := some .reported
      served := st.served ++ [(freq, status)] } := by
  intro status
  have hstatus : status ≠ .timeout := by
    cases ok with
    | false => exact nofun
    | true => exact nofun
  refine ⟨h.running, h.callers, h.pending, rfl, trivial, ?_, ?_, fun entry hentry => ?_,
    fun reader begun hreader => ?_⟩
  · show status = (((st.served ++ [(freq, status)]).getLast?).map Prod.snd).getD .ok
    rw [List.getLast?_concat]
    rfl
  · show st.accepted = (st.served ++ [(freq, status)]).map Prod.fst ++ []
    rw [h.accepted, List.map_append, List.append_nil]
    rfl
  · obtain hmem | hlast := List.mem_append.mp hentry
    · exact h.settled entry hmem
    · exact List.mem_singleton.mp hlast ▸ hstatus
  · show begun ≤ (st.served ++ [(freq, status)]).length
    rw [List.length_append]
    exact Nat.le_add_right_of_le (h.readers reader begun hreader)

/-- Work that has reported. -/
theorem Fits.of_reported (h : st.Fits phase) (hworker : st.worker = some .reported) :
    phase = .reported := by
  have hat := h.worker
  rw [hworker] at hat
  cases phase with
  | reported => rfl
  | idle | claimed _ _ _ | queued _ =>
      obtain hnone | hleaving := hat
      · cases hnone
      · cases hleaving
  | resetting _ => cases hat

theorem Fits.clear (h : st.Fits .reported) :
    Fits .idle { st with running := false, worker := some .leaving } :=
  ⟨rfl, h.callers, h.pending, .inr rfl, trivial, h.status, h.accepted, h.settled, h.readers⟩

/-- The work returns, with the next reset perhaps claimed or queued. -/
theorem Fits.leave (h : st.Fits phase) (hworker : st.worker = some .leaving) :
    Fits phase { st with worker := none } := by
  refine ⟨h.running, h.callers, h.pending, ?_, h.freq, h.status, h.accepted, h.settled,
    h.readers⟩
  have hat := h.worker
  rw [hworker] at hat
  cases phase with
  | idle | claimed _ _ _ | queued _ => exact .inl rfl
  | resetting _ | reported => cases hat

/-- A reader that finds the flag clear begins behind all accepted resets. -/
theorem Fits.readRunning (h : st.Fits phase) (hclear : st.running = false) (reader : Nat) :
    Fits phase { st with
      readers := Function.update st.readers reader (some st.accepted.length) } := by
  refine ⟨h.running, h.callers, h.pending, h.worker, h.freq, h.status, h.accepted, h.settled,
    fun other begun hother => ?_⟩
  dsimp only at hother ⊢
  by_cases hsame : other = reader
  · subst hsame
    have hphase := h.running.symm.trans hclear
    have haccepted := h.accepted
    cases phase with
    | idle =>
        rw [Function.update_self] at hother
        obtain rfl := Option.some.inj hother
        exact Nat.le_of_eq (by rw [haccepted, Phase.owed, List.append_nil, List.length_map])
    | claimed _ _ _ | queued _ | resetting _ | reported => cases hphase
  · rw [Function.update_of_ne hsame] at hother
    exact h.readers other begun hother

theorem Fits.readStatus (h : st.Fits phase) (reader : Nat) :
    Fits phase { st with readers := Function.update st.readers reader none } := by
  refine ⟨h.running, h.callers, h.pending, h.worker, h.freq, h.status, h.accepted, h.settled,
    fun other begun hother => ?_⟩
  dsimp only at hother ⊢
  by_cases hsame : other = reader
  · rw [hsame, Function.update_self] at hother
    cases hother
  · rw [Function.update_of_ne hsame] at hother
    exact h.readers other begun hother

/-! ## Runs -/

/-- Every statement leaves a reset that has come some way. -/
theorem Fits.next (h : st.Fits phase) (hnext : st.next event = some following) :
    ∃ after, following.Fits after := by
  unfold Resets.next at hnext
  split at hnext
  · split at hnext
    · cases hnext
    · split at hnext
      · next hclear =>
        obtain rfl := Option.some.inj hnext
        exact ⟨_, h.ask _ _ hclear.2⟩
      · obtain rfl := Option.some.inj hnext
        exact ⟨_, h⟩
  · split at hnext
    · next hcaller =>
      obtain rfl := Option.some.inj hnext
      obtain rfl := h.of_caller hcaller
      exact ⟨_, h.storeFreq⟩
    · cases hnext
  · split at hnext
    · next hcaller =>
      obtain rfl := Option.some.inj hnext
      obtain rfl := h.of_caller hcaller
      exact ⟨_, h.storeStatus⟩
    · cases hnext
  · split at hnext
    · next hcaller =>
      obtain rfl := Option.some.inj hnext
      obtain rfl := h.of_caller hcaller
      rw [h.pending]
      exact ⟨_, h.queue⟩
    · cases hnext
  · split at hnext
    · split at hnext
      · next hpending =>
        obtain rfl := Option.some.inj hnext
        exact ⟨_, h.begin hpending⟩
      · cases hnext
    · cases hnext
  · split at hnext
    · next hworker =>
      obtain rfl := Option.some.inj hnext
      obtain rfl := h.of_resetting hworker
      exact ⟨_, h.report _⟩
    · cases hnext
  · split at hnext
    · next hworker =>
      obtain rfl := Option.some.inj hnext
      obtain rfl := h.of_reported hworker
      exact ⟨_, h.clear⟩
    · cases hnext
  · split at hnext
    · next hworker =>
      obtain rfl := Option.some.inj hnext
      exact ⟨_, h.leave hworker⟩
    · cases hnext
  · split at hnext
    · cases hnext
    · obtain rfl := Option.some.inj hnext
      split
      · exact ⟨_, h⟩
      · next hclear => exact ⟨_, h.readRunning (Bool.not_eq_true _ ▸ hclear) _⟩
  · split at hnext
    · obtain rfl := Option.some.inj hnext
      exact ⟨_, h.readStatus _⟩
    · cases hnext

/-- And the answers are right. -/
theorem Fits.answered (h : st.Fits phase) (hnext : st.next event = some following) :
    Answered st event following := by
  obtain ⟨after, hafter⟩ := h.next hnext
  refine ⟨hafter.once, ?_⟩
  cases event with
  | readRunning reader =>
      intro hrunning
      refine h.outstanding fun hidle => ?_
      rw [h.running, hidle] at hrunning
      cases hrunning
  | readStatus reader =>
      have hstatus := h.status
      refine ⟨h.readers reader, fun htimeout => ?_, fun hresult => ?_⟩
      · split at hstatus
        · next hwaits =>
          refine h.outstanding fun hidle => ?_
          rw [hidle] at hwaits
          cases hwaits
        · exact absurd (hstatus.symm.trans htimeout) h.lastResult_ne
      · split at hstatus
        · exact absurd hstatus hresult
        · exact hstatus
  | queue caller =>
      unfold Resets.next at hnext
      dsimp only at hnext
      split at hnext
      · next hcaller =>
        obtain rfl := h.of_caller hcaller
        exact h.pending
      · cases hnext
  | ask _ _ | storeFreq _ | storeStatus _ | begin | report _ | clear | leave => trivial

/-- In every interleaving of callers, of the work and of readers, every accepted reset is run once
and on its own frequency, and no answer is older than its question. -/
theorem resets_answered (events : List Event) : EveryStep next Answered loaded events := by
  have hstart : ∃ phase, loaded.Fits phase :=
    ⟨.idle, rfl, rfl, rfl, .inl rfl, trivial, rfl, rfl, nofun, nofun⟩
  have hkeep : ∀ st event following, (∃ phase, Fits phase st) →
      next st event = some following → ∃ phase, Fits phase following :=
    fun _ _ _ ⟨_, h⟩ hnext => h.next hnext
  exact everyStep_of_inductive hkeep (fun _ _ _ ⟨_, h⟩ hnext => h.answered hnext) hstart

end Resets

end RfnmDriver.Session.HardReset
