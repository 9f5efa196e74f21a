import RfnmDriver.LaLib.RestartReapply
import RfnmDriver.LaLib.StreamDedup

/-!
# Orderly restarts let the newest call win

The invariant has three modes. While no stash waits, cache and M4 agree up to the call under way;
while one waits, and while the work sends it, nothing but the stashed word may be cached or asked
for. `newest_wins_of_orderly` is the result for runs.
-/

namespace RfnmDriver.LaLib.Restart

open StepSystem

variable {Client : Type} {session following : Session Client} {client : Client} {phase : Phase}
  {request : Request} {word : Word}

/-! ## The call under way -/

/-- At most one client is in a call, and this is where it is. -/
def Current (session : Session Client) (phase : Phase) : Prop :=
  (phase = .idle ∧ ∀ client, session.phase client = .idle) ∨
    ∃ client, session.phase client = phase ∧ ∀ other, other ≠ client → session.phase other = .idle

/-- A client that is in a call is the one. -/
theorem Current.eq (h : Current session phase) {place : Phase}
    (hplace : session.phase client = place) (hbusy : place ≠ .idle) :
    phase = place ∧ ∀ other, other ≠ client → session.phase other = .idle := by
  rcases h with ⟨-, hidle⟩ | ⟨only, honly, hothers⟩
  · exact absurd (hplace.symm.trans (hidle client)) hbusy
  · by_cases hsame : client = only
    · subst hsame
      exact ⟨honly.symm.trans hplace, hothers⟩
    · exact absurd (hplace.symm.trans (hothers client hsame)) hbusy

/-- When no client is in a call, there is none. -/
theorem Current.idle (h : Current session phase) (hidle : ∀ client, session.phase client = .idle) :
    phase = .idle := by
  rcases h with ⟨hphase, -⟩ | ⟨only, honly, -⟩
  · exact hphase
  · exact honly.symm.trans (hidle only)

/-- A step that moves no client. -/
theorem Current.same (h : Current session phase) (hphase : following.phase = session.phase) :
    Current following phase := by
  unfold Current
  rw [hphase]
  exact h

/-! ## The invariant -/

/-- The call has taken the lock. -/
def Phase.HasLock : Phase → Prop
  | .sending _ | .sent _ => True
  | _ => False

/-- The call, if there is one, asks for this word. -/
def Phase.Asks (word : Word) : Phase → Prop
  | .idle => True
  | .waiting request | .sending request | .sent request => request.word = word
  | .clearing => False

/-- The call has not taken the lock yet. -/
def Phase.BeforeLock : Phase → Prop
  | .idle | .waiting _ => True
  | _ => False

/-- While no stash waits: up to its send a call leaves cache, M4 and the newest call in step. -/
def QuietOk (session : Session Client) : Phase → Prop
  | .idle | .waiting _ | .sending _ =>
      session.streamWord = session.m4Word ∧ ∀ word ∈ session.newest, word = session.m4Word
  | .sent request => session.m4Word = request.word
  | .clearing => session.streamWord = 0 ∧ session.m4Word = 0

/-- While a stash waits or is sent: it has RX, and no other word was cached or asked for since. -/
def Held (session : Session Client) (word : Word) : Prop :=
  word.rxOn ∧ (session.streamWord = 0 ∨ session.streamWord = word) ∧
    ∀ newest ∈ session.newest, newest = word

/-- The three modes. -/
inductive Mode (session : Session Client) (phase : Phase) : Prop
  /-- No stash waits. -/
  | quiet (hworker : session.worker = .idle) (hwork : session.restartWork = false)
      (hquiet : QuietOk session phase)
  /-- A stash waits for its work. -/
  | waits (hworker : session.worker = .idle) (hwork : session.restartWork = true)
      (hheld : Held session session.restartStash) (hasks : phase.Asks session.restartStash)
  /-- The work sends the stash; a second one that waits can only be the same word. -/
  | works (word : Word)
      (hworker : session.worker = .sending word ∨
        session.worker = .sent word ∧ session.m4Word = word)
      (hheld : Held session word) (hbefore : phase.BeforeLock)
      (hagain : session.restartWork → session.restartStash = word ∧ phase.Asks word)

/-- The invariant of orderly runs. -/
structure Inv (session : Session Client) (phase : Phase) : Prop where
  current : Current session phase
  /-- The lock is held by the call that took it, and by the work. -/
  locked : phase.HasLock ∨ session.worker ≠ .idle → session.sendLock
  mode : Mode session phase

/-- Before it takes the lock, a call has not got it. -/
theorem Phase.BeforeLock.not_hasLock (h : phase.BeforeLock) : ¬ phase.HasLock := by
  cases phase with
  | idle | waiting => exact not_false
  | sending | sent | clearing => exact h.elim

/-- The module init. -/
theorem init_inv : Inv (Session.init : Session Client) .idle where
  current := .inl ⟨rfl, fun _ => rfl⟩
  locked hlocked := hlocked.elim False.elim fun hne => absurd rfl hne
  mode := .quiet rfl rfl ⟨rfl, by simp [Session.init]⟩

/-- Once all have run, the invariant leaves the M4 with the newest call's word. -/
theorem Inv.newestWins (h : Inv session phase) : session.NewestWins := by
  intro ⟨hidle, hwork, hworker⟩ word hword
  obtain rfl := h.current.idle hidle
  cases h.mode with
  | quiet _ _ hquiet => exact (hquiet.2 word hword).symm
  | waits _ hscheduled => simp [hwork] at hscheduled
  | works _ hbusy => simp [hworker] at hbusy

/-! ## The timer and the work -/

/-- The notification. -/
theorem notify_inv (h : Inv session phase)
    (horderly : session.streamWord ≠ 0 →
      session.streamWord.rxOn ∧ ∀ client, session.phase client = .idle) :
    Inv (notify session) phase := by
  unfold notify
  split
  · exact h
  · rename_i hlive
    obtain ⟨hrx, hidle⟩ := horderly hlive
    obtain rfl := h.current.idle hidle
    refine ⟨h.current.same rfl, h.locked, ?_⟩
    cases h.mode with
    | quiet hworker => exact .waits hworker rfl ⟨hrx, .inl rfl, by simp⟩ trivial
    | waits hworker => exact .waits hworker rfl ⟨hrx, .inl rfl, by simp⟩ trivial
    | works word hworker hheld =>
        -- over a running work the live word is the one it sends
        have hcached := hheld.2.1.resolve_left hlive
        refine .works word hworker ⟨hheld.1, .inl rfl, by simp⟩ trivial fun _ => ⟨hcached, trivial⟩

/-- The work takes the lock and the stash. -/
theorem workLock_inv (h : Inv session phase) (hworker : session.worker = .idle)
    (hwork : session.restartWork = true) (hfree : session.sendLock = false) :
    Inv (workLock session) phase := by
  have hlock : ¬ phase.HasLock := fun hlock => by simp [h.locked (.inl hlock)] at hfree
  cases h.mode with
  | quiet _ hquiet => simp [hwork] at hquiet
  | works word hbusy => simp [hworker] at hbusy
  | waits _ _ hheld hasks =>
      have hbefore : phase.BeforeLock := by
        cases phase with
        | idle | waiting => trivial
        | sending | sent => exact hlock trivial
        | clearing => exact hasks
      unfold workLock
      rw [if_pos hheld.1]
      exact ⟨h.current.same rfl, fun _ => rfl, .works _ (.inl rfl) hheld hbefore (by simp)⟩

/-- The work's word reaches the M4. -/
theorem workSend_inv (h : Inv session phase) (hworker : session.worker = .sending word) :
    Inv { session with m4Word := word, worker := .sent word } phase := by
  refine ⟨h.current.same rfl, fun _ => h.locked (.inr (by simp [hworker])), ?_⟩
  cases h.mode with
  | quiet hidle => simp [hworker] at hidle
  | waits hidle => simp [hworker] at hidle
  | works taken hbusy hheld hbefore hagain =>
      obtain rfl : word = taken := by simpa [hworker] using hbusy
      exact .works word (.inr ⟨rfl, rfl⟩) hheld hbefore hagain

/-- The work caches its word and unlocks. -/
theorem workFinish_inv (h : Inv session phase) (hworker : session.worker = .sent word) :
    Inv { session with streamWord := word, sendLock := false, worker := .idle } phase := by
  cases h.mode with
  | quiet hidle => simp [hworker] at hidle
  | waits hidle => simp [hworker] at hidle
  | works taken hbusy hheld hbefore hagain =>
      obtain ⟨rfl, hm4⟩ : word = taken ∧ session.m4Word = taken := by
        simpa [hworker] using hbusy
      obtain ⟨hrx, -, hnewest⟩ := hheld
      refine ⟨h.current.same rfl, ?_, ?_⟩
      · intro hlocked
        exact hlocked.elim (fun hlock => absurd hlock hbefore.not_hasLock) fun hne => absurd rfl hne
      · cases hwork : session.restartWork with
        | true =>
            obtain ⟨hstash, hasks⟩ := hagain hwork
            subst hstash
            exact .waits rfl rfl ⟨hrx, .inr rfl, hnewest⟩ hasks
        | false =>
            refine .quiet rfl rfl ?_
            have hinStep : word = session.m4Word ∧
                ∀ newest ∈ session.newest, newest = session.m4Word :=
              ⟨hm4.symm, fun newest hin => (hnewest newest hin).trans hm4.symm⟩
            cases phase with
            | idle | waiting => exact hinStep
            | sending | sent | clearing => exact hbefore.elim

/-! ## The clients -/

variable [DecidableEq Client]

/-- A step that moves the one client in a call. -/
theorem current_of_update (hothers : ∀ other, other ≠ client → session.phase other = .idle)
    (hphase : following.phase = Function.update session.phase client phase) :
    Current following phase := by
  refine .inr ⟨client, by rw [hphase, Function.update_self], fun other hne => ?_⟩
  rw [hphase, Function.update_of_ne hne]
  exact hothers other hne

/-- The first look at the cached word. -/
theorem begin_inv (h : Inv session phase) (hplace : session.phase client = .idle)
    (horderly : Orderly session (.begin client request)) :
    ∃ phase', Inv (begin session client request) phase' := by
  obtain ⟨hothers, hstash, hrunning⟩ := horderly
  have hidle : ∀ other, session.phase other = .idle := by
    intro other
    by_cases hne : other = client
    · rw [hne]
      exact hplace
    · exact hothers other hne
  obtain rfl := h.current.idle hidle
  unfold begin
  split
  · rename_i hhit
    -- a cache hit: the call is over at once, and its word is the cached one
    refine ⟨.idle, current_of_update hothers rfl, h.locked, ?_⟩
    cases h.mode with
    | quiet hworker hwork hquiet =>
        refine .quiet hworker hwork ⟨hquiet.1, fun newest hin => ?_⟩
        obtain rfl := Option.some.inj hin
        exact hhit.trans hquiet.1
    | waits hworker hwork hheld =>
        refine .waits hworker hwork ⟨hheld.1, hheld.2.1, fun newest hin => ?_⟩ trivial
        obtain rfl := Option.some.inj hin
        exact hstash hwork
    | works word hworker hheld hbefore hagain =>
        have hbusy : session.worker ≠ .idle := by
          rcases hworker with hworker | ⟨hworker, -⟩ <;> simp [hworker]
        have hlive : session.streamWord ≠ 0 :=
          fun hzero => hrunning hbusy hzero (hhit.trans hzero)
        refine .works word hworker ⟨hheld.1, hheld.2.1, fun newest hin => ?_⟩ trivial hagain
        obtain rfl := Option.some.inj hin
        exact hhit.trans (hheld.2.1.resolve_left hlive)
  · -- the call waits for the lock; while a stash waits it asks for the stashed word
    refine ⟨.waiting request, current_of_update hothers rfl, ?_, ?_⟩
    · exact fun hlocked => h.locked (hlocked.imp_left False.elim)
    · cases h.mode with
      | quiet hworker hwork hquiet => exact .quiet hworker hwork hquiet
      | waits hworker hwork hheld => exact .waits hworker hwork hheld (hstash hwork)
      | works word hworker hheld hbefore hagain =>
          refine .works word hworker hheld trivial fun hwork => ?_
          obtain ⟨hsame, -⟩ := hagain hwork
          exact ⟨hsame, (hstash hwork).trans hsame⟩

/-- A call that comes back with the word it asked for in the cache. -/
theorem returned_inv (hothers : ∀ other, other ≠ client → session.phase other = .idle)
    (hworker : session.worker = .idle) (hcached : session.streamWord = request.word)
    (hquiet : session.restartWork = false → session.m4Word = request.word)
    (hwaits : session.restartWork = true →
      session.restartStash.rxOn ∧ request.word = session.restartStash) :
    ∃ phase', Inv (returned session client request) phase' := by
  cases request with
  | stream word =>
      refine ⟨.idle, current_of_update hothers rfl, ?_, ?_⟩
      · exact fun hlocked => hlocked.elim False.elim fun hne => absurd hworker hne
      · cases hwork : session.restartWork with
        | false =>
            refine .quiet hworker hwork ⟨hcached.trans (hquiet hwork).symm, fun newest hin => ?_⟩
            obtain rfl := Option.some.inj hin
            exact (hquiet hwork).symm
        | true =>
            obtain ⟨hrx, hasks⟩ := hwaits hwork
            refine .waits hworker hwork ⟨hrx, .inr (hcached.trans hasks), fun newest hin => ?_⟩
              trivial
            obtain rfl := Option.some.inj hin
            exact hasks
  | quiesce =>
      refine ⟨.clearing, current_of_update hothers rfl, ?_, ?_⟩
      · exact fun hlocked => hlocked.elim False.elim fun hne => absurd hworker hne
      · cases hwork : session.restartWork with
        | false => exact .quiet hworker hwork ⟨hcached, hquiet hwork⟩
        | true =>
            -- a stashed word receives, so no quiesce asks for it
            obtain ⟨hrx, hasks⟩ := hwaits hwork
            exact absurd hasks.symm (Word.ne_zero_of_rxOn hrx)

/-- The look under the lock. -/
theorem lock_inv (h : Inv session phase) (hplace : session.phase client = .waiting request)
    (hfree : session.sendLock = false) : ∃ phase', Inv (lock session client request) phase' := by
  obtain ⟨rfl, hothers⟩ := h.current.eq hplace (by simp)
  have hworker : session.worker = .idle := by
    by_contra hbusy
    simp [h.locked (.inr hbusy)] at hfree
  unfold lock
  split
  · rename_i hhit
    refine returned_inv hothers hworker hhit.symm (fun hwork => ?_) fun hwork => ?_
    · cases h.mode with
      | quiet _ _ hquiet => exact (hhit.trans hquiet.1).symm
      | waits _ hscheduled => simp [hwork] at hscheduled
      | works _ hbusy => simp [hworker] at hbusy
    · cases h.mode with
      | quiet _ hidle => simp [hwork] at hidle
      | waits _ _ hheld hasks => exact ⟨hheld.1, hasks⟩
      | works _ hbusy => simp [hworker] at hbusy
  · refine ⟨.sending request, current_of_update hothers rfl, fun _ => rfl, ?_⟩
    cases h.mode with
    | quiet _ hwork hquiet => exact .quiet hworker hwork hquiet
    | waits _ hwork hheld hasks => exact .waits hworker hwork hheld hasks
    | works _ hbusy => simp [hworker] at hbusy

/-- The call's word reaches the M4. -/
theorem send_inv (h : Inv session phase) (hplace : session.phase client = .sending request) :
    Inv { session.goto client (.sent request) with m4Word := request.word } (.sent request) := by
  obtain ⟨rfl, hothers⟩ := h.current.eq hplace (by simp)
  refine ⟨current_of_update hothers rfl, fun _ => h.locked (.inl trivial), ?_⟩
  cases h.mode with
  | quiet hworker hwork hquiet => exact .quiet hworker hwork rfl
  | waits hworker hwork hheld hasks => exact .waits hworker hwork hheld hasks
  | works _ _ _ hbefore => exact hbefore.elim

/-- The call caches its word and unlocks. -/
theorem finish_inv (h : Inv session phase) (hplace : session.phase client = .sent request) :
    ∃ phase', Inv (returned { session with streamWord := request.word, sendLock := false } client
      request) phase' := by
  obtain ⟨rfl, hothers⟩ := h.current.eq hplace (by simp)
  cases h.mode with
  | quiet hworker hwork hquiet =>
      refine returned_inv hothers hworker rfl (fun _ => hquiet) fun hscheduled => ?_
      exact absurd (hwork.symm.trans hscheduled) (by simp)
  | waits hworker hwork hheld hasks =>
      refine returned_inv hothers hworker rfl (fun hidle => ?_) fun _ => ⟨hheld.1, hasks⟩
      exact absurd (hwork.symm.trans hidle) (by simp)
  | works _ _ _ hbefore => exact hbefore.elim

/-- A quiesce clears the cache, which is clear already. -/
theorem clear_inv (h : Inv session phase) (hplace : session.phase client = .clearing) :
    Inv ({ session with streamWord := 0 }.complete client 0) .idle := by
  obtain ⟨rfl, hothers⟩ := h.current.eq hplace (by simp)
  cases h.mode with
  | quiet hworker hwork hquiet =>
      refine ⟨current_of_update hothers rfl, ?_, .quiet hworker hwork ⟨hquiet.2.symm, ?_⟩⟩
      · exact fun hlocked => hlocked.elim False.elim fun hne => absurd hworker hne
      · intro newest hin
        obtain rfl := Option.some.inj hin
        exact hquiet.2.symm
  | waits _ _ _ hasks => exact hasks.elim
  | works _ _ _ hbefore => exact hbefore.elim

/-! ## Runs -/

/-- Every step of an orderly run keeps the invariant. -/
theorem next_inv {event : Event Client} (h : ∃ phase, Inv session phase)
    (horderly : Orderly session event) (hstep : next session event = some following) :
    ∃ phase, Inv following phase := by
  obtain ⟨phase, h⟩ := h
  -- the phase is that of the one client which is in a call
  cases event with
  | notify =>
      obtain rfl := Option.some.inj hstep
      exact ⟨phase, notify_inv h horderly⟩
  | begin client request =>
      simp only [next] at hstep
      split at hstep
      · rename_i hplace
        obtain rfl := Option.some.inj hstep
        exact begin_inv h hplace horderly
      · simp at hstep
  | lock client =>
      simp only [next] at hstep
      split at hstep
      · rename_i hplace hfree
        obtain rfl := Option.some.inj hstep
        exact lock_inv h hplace hfree
      · simp at hstep
  | send client =>
      simp only [next] at hstep
      split at hstep
      · rename_i request hplace
        obtain rfl := Option.some.inj hstep
        exact ⟨_, send_inv h hplace⟩
      · simp at hstep
  | finish client =>
      simp only [next] at hstep
      split at hstep
      · rename_i hplace
        obtain rfl := Option.some.inj hstep
        exact finish_inv h hplace
      · simp at hstep
  | clear client =>
      simp only [next] at hstep
      split at hstep
      · rename_i hplace
        obtain rfl := Option.some.inj hstep
        exact ⟨.idle, clear_inv h hplace⟩
      · simp at hstep
  | workLock =>
      simp only [next] at hstep
      split at hstep
      · rename_i hworker hwork hfree
        obtain rfl := Option.some.inj hstep
        exact ⟨phase, workLock_inv h hworker hwork hfree⟩
      · simp at hstep
  | workSend =>
      simp only [next] at hstep
      split at hstep
      · rename_i hworker
        obtain rfl := Option.some.inj hstep
        exact ⟨phase, workSend_inv h hworker⟩
      · simp at hstep
  | workFinish =>
      simp only [next] at hstep
      split at hstep
      · rename_i hworker
        obtain rfl := Option.some.inj hstep
        exact ⟨phase, workFinish_inv h hworker⟩
      · simp at hstep

end RfnmDriver.LaLib.Restart
