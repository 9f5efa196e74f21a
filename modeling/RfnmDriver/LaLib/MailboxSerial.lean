import RfnmDriver.LaLib.Mailbox

/-!
# Serial use of the mailbox keeps its promise

`PhaseOk` says what a sender inside a call may rely on at each point of it, and `Inv` that at most
one sender is inside. One lemma per access keeps `Inv`; `exclusive_of_serial` is the result for
whole runs, and `free_of_busy_sender_drops_command` the run that breaks the promise when a second
call begins while a command is posted.
-/

namespace RfnmDriver.LaLib.Swcmd

open StepSystem

variable {Sender : Type} {mailbox following : Mailbox Sender} {sender : Sender}
  {call : Call Sender} {zero : Status}

/-! ## The invariant -/

/-- What holds at each point of a sender's call. Between the first read and the copy nothing is in
flight; from the copy to the last read only the call's own command is; after it, only commands of
the same sender. -/
def PhaseOk (mailbox : Mailbox Sender) (sender : Sender) : Phase Sender → Prop
  | .idle => True
  | .entered call => call.sender = sender
  | .notFree call | .ready call =>
      call.sender = sender ∧ mailbox.m4 = .idle ∧ mailbox.status ≠ .posted
  | .waiting call =>
      call.sender = sender ∧ (∀ other ∈ mailbox.inFlight, other = call) ∧
        (mailbox.status = .done → call ∈ mailbox.executed)
  | .sawDone call =>
      call.sender = sender ∧ (∀ other ∈ mailbox.inFlight, other = call) ∧ call ∈ mailbox.executed
  | .finishing call ret | .returning call ret =>
      (∀ other ∈ mailbox.inFlight, other.sender = sender) ∧ (ret = 0 → call ∈ mailbox.executed)

/-- The invariant of serial use. -/
structure Inv (mailbox : Mailbox Sender) : Prop where
  /-- At most one sender is inside. -/
  alone : ∀ first second, ¬ (mailbox.phase first).Outside → ¬ (mailbox.phase second).Outside →
    first = second
  phases : ∀ sender, PhaseOk mailbox sender (mailbox.phase sender)
  /-- The M4 writes a result only after it executed the command. -/
  resulted : ∀ call, mailbox.m4 = .resulted call → call ∈ mailbox.executed
  honest : mailbox.Honest

/-- A sender that is outside relies on nothing in the mailbox. -/
theorem phaseOk_of_outside {phase : Phase Sender} (houtside : phase.Outside)
    (h : PhaseOk mailbox sender phase) : PhaseOk following sender phase := by
  cases phase with
  | idle => trivial
  | entered call => exact h
  | notFree | ready | waiting | sawDone | finishing | returning => exact houtside.elim

/-- Beside a sender that is inside, all others are outside. -/
theorem Inv.inside (h : Inv mailbox) {phase : Phase Sender} (hplace : mailbox.phase sender = phase)
    (hinside : ¬ phase.Outside) :
    (∀ other, other ≠ sender → (mailbox.phase other).Outside) ∧ PhaseOk mailbox sender phase := by
  subst hplace
  refine ⟨fun other hne => ?_, h.phases sender⟩
  by_contra hother
  exact hne (h.alone _ _ hother hinside)

/-- While nothing is posted and the M4 is idle, no command is in flight. -/
theorem inFlight_of_idle (hm4 : mailbox.m4 = .idle) (hstatus : mailbox.status ≠ .posted) :
    mailbox.inFlight = [] := by
  simp [Mailbox.inFlight, Executor.hand, hm4, hstatus]

/-- All that is in flight while a sender is inside are commands of that sender. -/
theorem own_of_inside {phase : Phase Sender} (hok : PhaseOk mailbox sender phase)
    (hinside : ¬ phase.Outside) : ∀ other ∈ mailbox.inFlight, other.sender = sender := by
  intro other hother
  cases phase with
  | idle | entered => exact absurd trivial hinside
  | notFree call | ready call =>
      obtain ⟨-, hm4, hstatus⟩ := hok
      simp [inFlight_of_idle hm4 hstatus] at hother
  | waiting call | sawDone call =>
      obtain ⟨hsender, hflight, -⟩ := hok
      rw [hflight other hother]
      exact hsender
  | finishing call ret | returning call ret => exact hok.1 other hother

/-- What the M4 has in its hands is in flight. -/
theorem mem_inFlight_of_hand {other : Call Sender} (hother : other ∈ mailbox.m4.hand) :
    other ∈ mailbox.inFlight :=
  List.mem_append_right _ hother

/-- Writing `FREE` posts nothing. -/
theorem mem_inFlight_of_writeFree {other : Call Sender}
    (hother : other ∈ (mailbox.writeStatus .free).inFlight) : other ∈ mailbox.inFlight := by
  unfold Mailbox.writeStatus at hother
  split at hother
  · exact hother
  · exact mem_inFlight_of_hand (by simpa [Mailbox.inFlight] using hother)

/-- A step of the M4 moves no sender: it has to show that each may rely on what it did before. -/
theorem Inv.serve (h : Inv mailbox) (hphase : following.phase = mailbox.phase)
    (hok : ∀ sender phase, PhaseOk mailbox sender phase → PhaseOk following sender phase)
    (hresulted : ∀ call, following.m4 = .resulted call → call ∈ following.executed)
    (hhonest : following.Honest) : Inv following := by
  refine ⟨fun first second => ?_, fun sender => ?_, hresulted, hhonest⟩
  · rw [hphase]
    exact h.alone first second
  · rw [hphase]
    exact hok _ _ (h.phases sender)

/-- Nobody is inside a free mailbox. -/
theorem init_inv : Inv (Mailbox.init : Mailbox Sender) where
  alone first second hfirst := absurd trivial hfirst
  phases sender := trivial
  resulted call hcall := by simp [Mailbox.init] at hcall
  honest := by simp [Mailbox.Honest, Mailbox.init]

/-! ## The steps of the M4 -/

/-- The M4 takes the posted command: what is in flight stays so. -/
theorem accept_inv (h : Inv mailbox) (hstatus : mailbox.status = .posted)
    (hm4 : mailbox.m4 = .idle) (hcommand : mailbox.command = some call) :
    Inv { mailbox with m4 := .executing call } := by
  have hflight : ∀ other,
      other ∈ ({ mailbox with m4 := .executing call } : Mailbox Sender).inFlight →
        other ∈ mailbox.inFlight := by
    intro other hother
    simpa [Mailbox.inFlight, Executor.hand, hstatus, hm4, hcommand] using hother
  refine h.serve rfl (fun sender phase hok => ?_) (by simp) h.honest
  cases phase with
  | idle => trivial
  | entered call => exact hok
  | notFree call | ready call => exact absurd hstatus hok.2.2
  | waiting call | sawDone call =>
      exact ⟨hok.1, fun other hother => hok.2.1 other (hflight other hother), hok.2.2⟩
  | finishing call ret | returning call ret =>
      exact ⟨fun other hother => hok.1 other (hflight other hother), hok.2⟩

/-- The M4 writes the result of the command it executed. -/
theorem result_inv (h : Inv mailbox) (result : Int) (hm4 : mailbox.m4 = .executing call) :
    Inv { mailbox with
      m4 := .resulted call
      result := result
      executed := call :: mailbox.executed } := by
  have hflight : ({ mailbox with
      m4 := .resulted call
      result := result
      executed := call :: mailbox.executed } : Mailbox Sender).inFlight = mailbox.inFlight := by
    simp [Mailbox.inFlight, Executor.hand, hm4]
  refine h.serve rfl (fun sender phase hok => ?_) (by simp)
    fun other hother => List.mem_cons_of_mem _ (h.honest other hother)
  cases phase with
  | idle => trivial
  | entered call => exact hok
  | notFree call | ready call => exact absurd (hok.2.1.symm.trans hm4) (by simp)
  | waiting own =>
      refine ⟨hok.1, fun other hother => ?_, fun hdone => List.mem_cons_of_mem _ (hok.2.2 hdone)⟩
      rw [hflight] at hother
      exact hok.2.1 other hother
  | sawDone own =>
      refine ⟨hok.1, fun other hother => ?_, List.mem_cons_of_mem _ hok.2.2⟩
      rw [hflight] at hother
      exact hok.2.1 other hother
  | finishing own ret | returning own ret =>
      refine ⟨fun other hother => ?_, fun hret => List.mem_cons_of_mem _ (hok.2 hret)⟩
      rw [hflight] at hother
      exact hok.1 other hother

/-- The M4 writes `DONE`: a sender that is polling sees its own command done. -/
theorem done_inv (h : Inv mailbox) (hm4 : mailbox.m4 = .resulted call) :
    Inv { mailbox with m4 := .idle, status := .done } := by
  have hhand : call ∈ mailbox.inFlight := mem_inFlight_of_hand (by simp [hm4, Executor.hand])
  have hempty : ({ mailbox with m4 := .idle, status := .done } : Mailbox Sender).inFlight = [] :=
    inFlight_of_idle rfl (by simp)
  refine h.serve rfl (fun sender phase hok => ?_) (by simp) h.honest
  cases phase with
  | idle => trivial
  | entered call => exact hok
  | notFree call | ready call => exact absurd (hok.2.1.symm.trans hm4) (by simp)
  | waiting own =>
      obtain rfl := hok.2.1 call hhand
      exact ⟨hok.1, by simp [hempty], fun _ => h.resulted call hm4⟩
  | sawDone own => exact ⟨hok.1, by simp [hempty], hok.2.2⟩
  | finishing own ret | returning own ret => exact ⟨by simp [hempty], hok.2⟩

/-! ## The accesses of a sender -/

variable [DecidableEq Sender]

/-- An access moves one sender while all others are outside: it has to show what holds at the
sender's new place. -/
theorem Inv.move (h : Inv mailbox) {phase : Phase Sender}
    (hothers : ∀ other, other ≠ sender → (mailbox.phase other).Outside)
    (hphase : following.phase = Function.update mailbox.phase sender phase)
    (hok : PhaseOk following sender phase) (hm4 : following.m4 = mailbox.m4)
    (hexecuted : following.executed = mailbox.executed) (hhonest : following.Honest) :
    Inv following := by
  have houtside : ∀ other, other ≠ sender → (following.phase other).Outside := by
    intro other hne
    rw [hphase, Function.update_of_ne hne]
    exact hothers other hne
  refine ⟨fun first second hfirst hsecond => ?_, fun other => ?_, fun call hcall => ?_, hhonest⟩
  · have hfirst : first = sender := not_not.mp (mt (houtside first) hfirst)
    have hsecond : second = sender := not_not.mp (mt (houtside second) hsecond)
    rw [hfirst, hsecond]
  · by_cases hne : other = sender
    · subst hne
      rw [hphase, Function.update_self]
      exact hok
    · have hsame : following.phase other = mailbox.phase other := by
        rw [hphase, Function.update_of_ne hne]
      rw [hsame]
      exact phaseOk_of_outside (hothers other hne) (h.phases other)
  · rw [hm4] at hcall
    rw [hexecuted]
    exact h.resulted call hcall

/-- The fence check. Past it the sender has looked at nothing yet; failing at it, the sender goes on
to free the mailbox. -/
theorem enter_inv (h : Inv mailbox) (hbegin : mailbox.fenced → mailbox.MayBegin sender) :
    Inv (enter mailbox sender) := by
  cases hfenced : mailbox.fenced with
  | true =>
      obtain ⟨hothers, hm4, hstatus⟩ := hbegin hfenced
      have hphase : (enter mailbox sender).phase =
          Function.update mailbox.phase sender (.returning ⟨sender, mailbox.calls⟩ (-eBusy)) := by
        simp [enter, Mailbox.goto, hfenced]
      have hempty : (enter mailbox sender).inFlight = [] := inFlight_of_idle hm4 hstatus
      refine h.move hothers hphase ⟨by simp [hempty], fun hret => ?_⟩ rfl rfl h.honest
      simp [eBusy] at hret
  | false =>
      have hphase : (enter mailbox sender).phase =
          Function.update mailbox.phase sender (.entered ⟨sender, mailbox.calls⟩) := by
        simp [enter, Mailbox.goto, hfenced]
      have hinside : ∀ {other}, ¬ ((enter mailbox sender).phase other).Outside →
          ¬ (mailbox.phase other).Outside := by
        intro other hother
        by_cases hne : other = sender
        · subst hne
          simp [hphase, Phase.Outside] at hother
        · rwa [hphase, Function.update_of_ne hne] at hother
      refine ⟨fun first second hfirst hsecond => h.alone _ _ (hinside hfirst) (hinside hsecond),
        fun other => ?_, h.resulted, h.honest⟩
      by_cases hne : other = sender
      · subst hne
        rw [hphase, Function.update_self]
        rfl
      · rw [hphase, Function.update_of_ne hne]
        exact h.phases other

/-- The first read: the call begins alone, with nothing in flight. -/
theorem firstRead_inv (h : Inv mailbox) (hplace : mailbox.phase sender = .entered call)
    (hbegin : mailbox.MayBegin sender) : Inv (firstRead zero mailbox sender call) := by
  obtain ⟨hothers, hm4, hstatus⟩ := hbegin
  have hown := h.phases sender
  rw [hplace] at hown
  refine h.move hothers rfl ?_ rfl rfl h.honest
  split
  · exact ⟨hown, hm4, hstatus⟩
  · exact ⟨hown, hm4, hstatus⟩

/-- The second read. -/
theorem secondRead_inv (h : Inv mailbox) (hplace : mailbox.phase sender = .notFree call) :
    Inv (secondRead zero mailbox sender call) := by
  obtain ⟨hothers, hown⟩ := h.inside hplace not_false
  refine h.move hothers rfl ?_ rfl rfl h.honest
  split
  · exact hown
  · refine ⟨?_, fun hret => by simp [eBusy] at hret⟩
    have hempty : (secondRead zero mailbox sender call).inFlight = [] :=
      inFlight_of_idle hown.2.1 hown.2.2
    simp [hempty]

/-- The copy: from here on the only command in flight is the call's own. -/
theorem post_inv (h : Inv mailbox) (hplace : mailbox.phase sender = .ready call)
    (hfence : mailbox.fenced → mailbox.status ≠ .done) : Inv (post mailbox sender call) := by
  obtain ⟨hothers, hown⟩ := h.inside hplace not_false
  obtain ⟨hsender, hm4, hstatus⟩ := hown
  unfold post
  split
  · rename_i hfenced
    refine h.move hothers rfl ⟨hsender, ?_, fun hdone => ?_⟩ rfl rfl h.honest
    · have hempty : (mailbox.goto sender (.waiting call)).inFlight = [] :=
        inFlight_of_idle hm4 hstatus
      simp [hempty]
    · exact absurd hdone (hfence hfenced)
  · refine h.move hothers rfl ⟨hsender, ?_, fun hdone => ?_⟩ rfl rfl h.honest
    · simp [Mailbox.inFlight, Mailbox.goto, hm4, Executor.hand]
    · simp at hdone

/-- The read after the poll. A `DONE` is the call's own, as the status was `POSTED` before. -/
theorem finalRead_inv (h : Inv mailbox) (hzero : zero ≠ .done)
    (hplace : mailbox.phase sender = .waiting call) :
    Inv (finalRead zero mailbox sender call) := by
  obtain ⟨hothers, hown⟩ := h.inside hplace not_false
  obtain ⟨hsender, hflight, hdone⟩ := hown
  refine h.move hothers rfl ?_ rfl rfl h.honest
  split
  · rename_i hread
    refine ⟨hsender, hflight, hdone ?_⟩
    unfold Mailbox.readStatus at hread
    split at hread
    · exact absurd hread hzero
    · exact hread
  · refine ⟨fun other hother => ?_, fun hret => by simp [eBusy] at hret⟩
    rw [hflight other hother]
    exact hsender

/-- The read of the result. -/
theorem readResult_inv (h : Inv mailbox) (hplace : mailbox.phase sender = .sawDone call) :
    Inv (mailbox.goto sender (.finishing call mailbox.readResult)) := by
  obtain ⟨hothers, hown⟩ := h.inside hplace not_false
  obtain ⟨hsender, hflight, hexecuted⟩ := hown
  refine h.move hothers rfl ⟨fun other hother => ?_, fun _ => hexecuted⟩ rfl rfl h.honest
  rw [hflight other hother]
  exact hsender

/-- The write of `FREE` at the label `out`. -/
theorem writeFree_inv {ret : Int} (h : Inv mailbox)
    (hplace : mailbox.phase sender = .finishing call ret) :
    Inv ((mailbox.writeStatus .free).goto sender (.returning call ret)) := by
  obtain ⟨hothers, hown⟩ := h.inside hplace not_false
  obtain ⟨hflight, hret⟩ := hown
  have hphase : ((mailbox.writeStatus .free).goto sender (.returning call ret)).phase =
      Function.update mailbox.phase sender (.returning call ret) := by
    simp [Mailbox.goto]
  refine h.move hothers hphase ⟨fun other hother => ?_, fun hzero => ?_⟩
    (by simp [Mailbox.goto]) (by simp [Mailbox.goto]) ?_
  · exact hflight other (mem_inFlight_of_writeFree hother)
  · simpa [Mailbox.goto] using hret hzero
  · simpa [Mailbox.Honest, Mailbox.goto] using h.honest

/-- `rf_free_cmd`: a call that returns 0 was executed. -/
theorem freeCmd_inv {ret : Int} (h : Inv mailbox)
    (hplace : mailbox.phase sender = .returning call ret) :
    Inv (freeCmd mailbox sender call ret) := by
  obtain ⟨hothers, hown⟩ := h.inside hplace not_false
  obtain ⟨-, hret⟩ := hown
  have hexecuted : (freeCmd mailbox sender call ret).executed = mailbox.executed := by
    simp [freeCmd, Mailbox.goto]
  have hphase : (freeCmd mailbox sender call ret).phase =
      Function.update mailbox.phase sender .idle := by
    simp [freeCmd, Mailbox.goto]
  have hm4 : (freeCmd mailbox sender call ret).m4 = mailbox.m4 := by
    simp [freeCmd, Mailbox.goto]
  refine h.move hothers hphase trivial hm4 hexecuted fun other hother => ?_
  rw [hexecuted]
  simp only [freeCmd] at hother
  split at hother
  · rename_i hzero
    cases hother with
    | head => exact hret hzero
    | tail _ hother => exact h.honest other hother
  · exact h.honest other hother

/-! ## Runs -/

/-- Every step of a serial run keeps the invariant. -/
theorem next_inv (hzero : zero ≠ .done) {event : Event Sender} (h : Inv mailbox)
    (hserial : Serial mailbox event) (hstep : next zero mailbox event = some following) :
    Inv following := by
  cases event with
  | fence on =>
      obtain rfl := Option.some.inj hstep
      exact ⟨h.alone, h.phases, h.resulted, h.honest⟩
  | enter sender =>
      simp only [next] at hstep
      split at hstep
      · obtain rfl := Option.some.inj hstep
        exact enter_inv h hserial
      · simp at hstep
  | retry sender =>
      -- a retry enters again, from the first read
      simp only [next] at hstep
      split at hstep
      · split at hstep
        · obtain rfl := Option.some.inj hstep
          exact enter_inv h hserial
        · simp at hstep
      · simp at hstep
  | firstRead sender =>
      simp only [next] at hstep
      split at hstep
      · rename_i hplace
        obtain rfl := Option.some.inj hstep
        exact firstRead_inv h hplace hserial
      · simp at hstep
  | secondRead sender =>
      simp only [next] at hstep
      split at hstep
      · rename_i hplace
        obtain rfl := Option.some.inj hstep
        exact secondRead_inv h hplace
      · simp at hstep
  | post sender =>
      simp only [next] at hstep
      split at hstep
      · rename_i hplace
        obtain rfl := Option.some.inj hstep
        exact post_inv h hplace hserial
      · simp at hstep
  | finalRead sender =>
      simp only [next] at hstep
      split at hstep
      · rename_i hplace
        obtain rfl := Option.some.inj hstep
        exact finalRead_inv h hzero hplace
      · simp at hstep
  | readResult sender =>
      simp only [next] at hstep
      split at hstep
      · rename_i hplace
        obtain rfl := Option.some.inj hstep
        exact readResult_inv h hplace
      · simp at hstep
  | writeFree sender =>
      simp only [next] at hstep
      split at hstep
      · rename_i hplace
        obtain rfl := Option.some.inj hstep
        exact writeFree_inv h hplace
      · simp at hstep
  | freeCmd sender =>
      simp only [next] at hstep
      split at hstep
      · rename_i hplace
        obtain rfl := Option.some.inj hstep
        exact freeCmd_inv h hplace
      · simp at hstep
  | m4Accept =>
      simp only [next] at hstep
      split at hstep
      · rename_i hstatus hm4 hcommand
        obtain rfl := Option.some.inj hstep
        exact accept_inv h hstatus hm4 hcommand
      · simp at hstep
  | m4Result result =>
      simp only [next] at hstep
      split at hstep
      · rename_i hm4
        obtain rfl := Option.some.inj hstep
        exact result_inv h result hm4
      · simp at hstep
  | m4Done =>
      simp only [next] at hstep
      split at hstep
      · rename_i hm4
        obtain rfl := Option.some.inj hstep
        exact done_inv h hm4
      · simp at hstep

/-- A sender that may write the status has only commands of its own in flight. -/
theorem next_undisturbing {event : Event Sender} (h : Inv mailbox)
    (hstep : next zero mailbox event = some following) :
    Undisturbing mailbox event following := by
  intro sender hsender hchange
  have hinside : ¬ (mailbox.phase sender).Outside := by
    intro houtside
    cases event with
    | fence | m4Accept | m4Result | m4Done => simp [Event.sender] at hsender
    | enter actor | firstRead actor =>
        -- these only look
        simp only [next] at hstep
        split at hstep
        · obtain rfl := Option.some.inj hstep
          exact hchange rfl
        · simp at hstep
    | retry actor | secondRead actor | post actor | finalRead actor | readResult actor
    | writeFree actor | freeCmd actor =>
        obtain rfl : actor = sender := by simpa [Event.sender] using hsender
        simp only [next] at hstep
        split at hstep
        · rename_i hplace
          rw [hplace] at houtside
          exact houtside
        · simp at hstep
  exact own_of_inside (h.phases sender) hinside

/-- When every call begins alone, with no earlier command posted or in execution, and none copies
its command into a fenced mailbox that says `DONE`, a sender is told success only if the M4
executed its command in that call, and no sender changes the status while another sender's command
is posted or in execution. -/
theorem exclusive_of_serial (zero : Status) (hzero : zero ≠ .done) (events : List (Event Sender))
    (hserial : Guarded (next zero) Serial (Mailbox.init : Mailbox Sender) events) :
    Always (next zero) Mailbox.Honest (Mailbox.init : Mailbox Sender) events ∧
      EveryStep (next zero) Undisturbing (Mailbox.init : Mailbox Sender) events := by
  have hkeep : ∀ (mailbox : Mailbox Sender) event following, Inv mailbox → Serial mailbox event →
      next zero mailbox event = some following → Inv following :=
    fun _ _ _ => next_inv hzero
  constructor
  · exact (always_of_guarded hkeep init_inv hserial).mono fun _ h => h.honest
  · exact everyStep_of_guarded hkeep (fun _ _ _ h _ => next_undisturbing h) init_inv hserial

/-- Two senders one after the other: the first times out and its command is executed late, the
second finds `DONE` and is served. -/
theorem exclusive_of_serial_run :
    Always (next .free) Mailbox.Honest (Mailbox.init : Mailbox (Fin 2))
        [.enter 0, .firstRead 0, .post 0, .m4Accept, .finalRead 0, .writeFree 0, .freeCmd 0,
          .m4Result 0, .m4Done, .enter 1, .firstRead 1, .secondRead 1, .post 1, .m4Accept,
          .m4Result 0, .m4Done, .finalRead 1, .readResult 1, .writeFree 1, .freeCmd 1] ∧
      EveryStep (next .free) Undisturbing (Mailbox.init : Mailbox (Fin 2))
        [.enter 0, .firstRead 0, .post 0, .m4Accept, .finalRead 0, .writeFree 0, .freeCmd 0,
          .m4Result 0, .m4Done, .enter 1, .firstRead 1, .secondRead 1, .post 1, .m4Accept,
          .m4Result 0, .m4Done, .finalRead 1, .readResult 1, .writeFree 1, .freeCmd 1] :=
  exclusive_of_serial .free (by decide) _ (by decide)

/-- A sender that finds the mailbox busy goes on to `rf_free_cmd`, which writes `FREE` over the
other sender's posted command. -/
theorem free_of_busy_sender_drops_command :
    ¬ ∀ (zero : Status) (events : List (Event (Fin 2))), zero ≠ .done →
      Always (next zero) Mailbox.Honest Mailbox.init events ∧
        EveryStep (next zero) Undisturbing Mailbox.init events := by
  intro h
  have hrun := (h .free [.enter 0, .firstRead 0, .post 0, .enter 1, .firstRead 1, .secondRead 1,
    .freeCmd 1] (by decide)).2
  revert hrun
  decide

end RfnmDriver.LaLib.Swcmd
