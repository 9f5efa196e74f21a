import RfnmDriver.LaLib.WindowBooks

/-!
# Windows that nobody sends

Every run of the pump ends with an empty queue, or with a request for the timer, or at the fence.
The request reaches the timer in every order of steps: the call starts it under the lock of the
queue, and when a call overwrites the request of the callback before the callback reads it, that
call runs the pump itself. At the fence the pump asks for nothing. Windows that are then left
behind stay in the queue when the fence comes down, until the next call: `admitted_iff` says that
this is all that can go wrong with the admission of windows.
-/

namespace RfnmDriver.LaLib

open CounterRing StepSystem

variable {contract : RtcContract}

/-- The pump is going to run, or the timer to be enqueued, before the callback is idle again. -/
def Callback.pends (nextNs : Nat) : Callback → Bool
  | .idle => false
  | .fired | .pumping | .restarting => true
  | .returning => nextNs ≠ 0

/-- The pump is going to run, or the timer to be started, before the call returns, come what
may. -/
def Stage.pends (nextNs : Nat) : Stage → Bool
  | .capacity | .reach | .room | .slot | .publish => false
  | .queue | .pump => true
  | .timer => nextNs ≠ 0

namespace Admission

/-- There is a window that is neither sent nor dropped. -/
def Waiting (state : Admission contract) : Prop :=
  state.queue.ring.cons ≠ state.queue.ring.prod

/-- A run of the pump or the timer is pending. -/
def Pending (state : Admission contract) : Prop :=
  state.armed = true ∨ state.callback.pends state.nextNs = true ∨
    ∃ running ∈ state.caller, running.stage.pends state.nextNs = true

instance (state : Admission contract) : Decidable state.Waiting :=
  inferInstanceAs (Decidable (_ ≠ _))

instance (state : Admission contract) : Decidable state.Pending :=
  inferInstanceAs (Decidable (_ ∨ _ ∨ ∃ running ∈ state.caller, _))

/-- As long as the device can be reached, somebody is going to see to the windows that wait. -/
def Awake (state : Admission contract) : Prop :=
  state.Waiting → state.fenced = false → state.Pending

/-- The fence does not come down over windows that nobody is going to see to. -/
def LeftInHand (state : Admission contract) (event : AdmissionEvent) : Prop :=
  event = .fence false → state.Waiting → state.Pending

instance (state : Admission contract) : Decidable state.Awake :=
  inferInstanceAs (Decidable (_ → _ → _))

instance (state : Admission contract) (event : AdmissionEvent) :
    Decidable (state.LeftInHand event) :=
  inferInstanceAs (Decidable (_ → _ → _))

variable {state following : Admission contract} {event : AdmissionEvent} {look : Look}
  {call : WindowCall} {stage : Stage}

/-- A step that leaves the queue, the timer and what the pump asked of it alone. -/
structure Aside (state following : Admission contract) : Prop where
  ring : following.queue.ring = state.queue.ring
  nextNs : following.nextNs = state.nextNs
  armed : following.armed = state.armed
  callback : following.callback = state.callback
  fenced : following.fenced = state.fenced

/-- A step that leaves the queue and the fence alone and takes nothing off what is pending. -/
theorem Awake.of_pending (h : state.Awake)
    (hring : following.queue.ring = state.queue.ring) (hfenced : following.fenced = state.fenced)
    (hpending : state.Pending → following.Pending) : following.Awake := by
  intro hwaiting hopen
  unfold Waiting at hwaiting
  rw [hring] at hwaiting
  rw [hfenced] at hopen
  exact hpending (h hwaiting hopen)

/-- A step of a call that is not pending itself, and that leaves the rest alone. -/
theorem Awake.of_aside (h : state.Awake) (haside : state.Aside following)
    (hquiet : ∀ running, state.caller = some running →
      running.stage.pends state.nextNs = false) : following.Awake := by
  refine h.of_pending haside.ring haside.fenced fun hpending => ?_
  unfold Pending
  rw [haside.armed, haside.callback, haside.nextNs]
  rcases hpending with harmed | hcallback | ⟨running, hrunning, hpends⟩
  · exact .inl harmed
  · exact .inr (.inl hcallback)
  · rw [hquiet running hrunning] at hpends
    cases hpends

/-- A call that is at the pump or before it sees to the windows itself. -/
theorem pending_of_caller (hcaller : state.caller = some { call := call, stage := stage })
    (hpends : stage.pends state.nextNs = true) : state.Pending :=
  .inr (.inr ⟨_, hcaller, hpends⟩)

/-- A round that ends the loop over windows that wait, with the device in reach, has asked for the
timer. -/
theorem nextNs_of_stop (hstop : ¬ (state.round look).2 = true)
    (hwaiting : (state.round look).1.Waiting) (hopen : (state.round look).1.fenced = false) :
    (state.round look).1.nextNs ≠ 0 := by
  rw [(round_frame state look).2.2] at hopen
  refine round_stops (Bool.eq_false_iff.mpr hstop) hopen ?_
  rcases round_books state look with hsame | ⟨hnonempty, -⟩
  · unfold Waiting at hwaiting
    rw [hsame] at hwaiting
    exact hwaiting
  · exact hnonempty

/-- The start of a call leaves the queue and the timer alone. -/
theorem aside_enter (state : Admission contract) (openAir : Int) (srcSlot lenSlots : Nat)
    (status : Option TxStatus) :
    state.Aside (state.enter openAir srcSlot lenSlots status) := by
  unfold enter
  cases status with
  | none => exact ⟨rfl, rfl, rfl, rfl, rfl⟩
  | some status =>
      simp only
      split
      · exact ⟨rfl, rfl, rfl, rfl, rfl⟩
      split
      · exact ⟨rfl, rfl, rfl, rfl, rfl⟩
      · exact ⟨rfl, rfl, rfl, rfl, rfl⟩

/-- A call that has no gate edge yet leaves the queue and the timer alone. -/
theorem aside_advance (hgated : stage.gated = false)
    (hstep : state.advance look call stage = some following) : state.Aside following := by
  -- ahead of the queue a call touches neither queue nor timer
  cases stage with
  | capacity =>
      simp only [advance] at hstep
      split at hstep
      · cases hstep
      split at hstep
      · obtain rfl := Option.some.inj hstep
        exact ⟨rfl, rfl, rfl, rfl, rfl⟩
      · obtain rfl := Option.some.inj hstep
        exact ⟨rfl, rfl, rfl, rfl, rfl⟩
  | reach =>
      simp only [advance] at hstep
      split at hstep
      · obtain rfl := Option.some.inj hstep
        exact ⟨rfl, rfl, rfl, rfl, rfl⟩
      · obtain rfl := Option.some.inj hstep
        exact ⟨rfl, rfl, rfl, rfl, rfl⟩
  | room =>
      simp only [advance] at hstep
      split at hstep
      · obtain rfl := Option.some.inj hstep
        exact ⟨rfl, rfl, rfl, rfl, rfl⟩
      split at hstep
      · obtain rfl := Option.some.inj hstep
        exact ⟨rfl, rfl, rfl, rfl, rfl⟩
      · obtain rfl := Option.some.inj hstep
        exact ⟨rfl, rfl, rfl, rfl, rfl⟩
  | slot =>
      obtain rfl := Option.some.inj hstep
      exact ⟨rfl, rfl, rfl, rfl, rfl⟩
  | publish =>
      obtain rfl := Option.some.inj hstep
      exact ⟨rfl, rfl, rfl, rfl, rfl⟩
  | queue => cases hgated
  | pump => cases hgated
  | timer => cases hgated

/-- Without its gate edge a call promises nothing to the queue. -/
theorem pends_of_not_gated (hgated : stage.gated = false) (nextNs : Nat) :
    stage.pends nextNs = false := by
  cases stage with
  | capacity | reach | room | slot | publish => rfl
  | queue | pump | timer => cases hgated

/-- A step of the call: up to its own window it leaves what is pending alone, and from there on it
is pending itself or has nothing to ask for. -/
theorem awake_advance (h : state.Awake)
    (hrunning : state.caller = some { call := call, stage := stage })
    (hstep : state.advance look call stage = some following) : following.Awake := by
  by_cases hgated : stage.gated = false
  · refine h.of_aside (aside_advance hgated hstep) fun running hother => ?_
    obtain rfl := Option.some.inj (hrunning.symm.trans hother)
    exact pends_of_not_gated hgated state.nextNs
  cases stage with
  | capacity | reach | room | slot | publish => exact absurd rfl hgated
  | queue =>
      simp only [advance] at hstep
      split at hstep
      · cases hstep
      · obtain rfl := Option.some.inj hstep
        exact fun _ _ => pending_of_caller rfl rfl
  | pump =>
      simp only [advance] at hstep
      split at hstep
      · obtain rfl := Option.some.inj hstep
        exact fun _ _ => pending_of_caller ((round_caller state look).trans hrunning) rfl
      · rename_i hstop
        obtain rfl := Option.some.inj hstep
        intro hwaiting hopen
        have hnext := nextNs_of_stop hstop hwaiting hopen
        exact pending_of_caller rfl (decide_eq_true hnext)
  | timer =>
      obtain rfl := Option.some.inj hstep
      refine h.of_pending rfl rfl fun hpending => ?_
      rcases hpending with harmed | hcallback | ⟨running, hother, hpends⟩
      · -- a timer that is enqueued already is only moved
        exact .inl (by simp [harmed])
      · exact .inr (.inl hcallback)
      · obtain rfl := Option.some.inj (hrunning.symm.trans hother)
        exact .inl ((Bool.or_eq_true _ _).mpr (.inr hpends))

/-- A step of the callback: it is pending itself, or it goes idle with nothing to ask for. -/
theorem awake_timerFn (h : state.Awake) (hstep : state.timerFn look = some following) :
    following.Awake := by
  unfold timerFn at hstep
  split at hstep
  · cases hstep
  · split at hstep
    · cases hstep
    · obtain rfl := Option.some.inj hstep
      exact fun _ _ => .inr (.inl rfl)
  · rename_i hpumping
    split at hstep
    · obtain rfl := Option.some.inj hstep
      refine fun _ _ => .inr (.inl ?_)
      rw [(round_frame state look).2.1, hpumping]
      rfl
    · rename_i hstop
      obtain rfl := Option.some.inj hstep
      intro hwaiting hopen
      have hnext := nextNs_of_stop hstop hwaiting hopen
      exact .inr (.inl (decide_eq_true hnext))
  · rename_i hreturning
    obtain rfl := Option.some.inj hstep
    by_cases hnext : state.nextNs = 0
    · -- whoever cleared the request is at the pump, or the pump asked for nothing
      refine h.of_pending rfl rfl fun hpending => ?_
      rcases hpending with harmed | hcallback | hcaller
      · exact .inl harmed
      · rw [hreturning, hnext] at hcallback
        cases hcallback
      · exact .inr (.inr hcaller)
    · refine fun _ _ => .inr (.inl ?_)
      simp only [if_pos hnext]
      rfl
  · obtain rfl := Option.some.inj hstep
    exact fun _ _ => .inl rfl

/-- A step keeps the windows in hand, except that the fence comes down over windows that nobody is
going to see to. -/
theorem awake_step (h : state.Awake) (hguard : state.LeftInHand event)
    (hstep : state.step event = some following) : following.Awake := by
  cases event with
  | txWindow openAir srcSlot lenSlots status =>
      obtain ⟨hidle, rfl⟩ := of_guard hstep
      refine h.of_aside (aside_enter state openAir srcSlot lenSlots status) fun running hother => ?_
      rw [hidle] at hother
      cases hother
  | caller look =>
      obtain ⟨running, hrunning, hadvance⟩ := Option.bind_eq_some_iff.mp hstep
      exact awake_advance h hrunning hadvance
  | expire =>
      obtain ⟨-, rfl⟩ := of_guard hstep
      exact fun _ _ => .inr (.inl rfl)
  | callback look => exact awake_timerFn h hstep
  | consume =>
      obtain ⟨-, rfl⟩ := of_guard hstep
      exact h.of_pending rfl rfl id
  | fence up =>
      obtain rfl := Option.some.inj hstep
      intro hwaiting hopen
      -- only here is the condition needed: what the fenced pump left behind is in reach again
      have hdown : up = false := hopen
      exact hguard (congrArg _ hdown) hwaiting

/-- A step after which the windows are in hand has not taken the fence down over others. -/
theorem leftInHand_of_awake (hstep : state.step event = some following)
    (h : following.Awake) : state.LeftInHand event := by
  rintro rfl hwaiting
  obtain rfl := Option.some.inj hstep
  exact h hwaiting rfl

theorem Fresh.awake (h : state.Fresh) : state.Awake :=
  fun hwaiting hopen => .inl (h.timer hwaiting hopen)

/-- Whatever the counters start from and whatever order the call, the timer and the firmware take
their steps in, nothing that waits is overwritten and the two entries of a call are made together
or not at all; and the windows in the queue are always in hand exactly when the fence never comes
down over windows with neither a run of the pump nor the timer pending. -/
theorem admitted_iff (h : state.Fresh) (events : List AdmissionEvent) :
    Always step (fun state => state.Intact ∧ (∀ ret ∈ state.returns, state.Paired ret) ∧
        state.Awake) state events ↔
      Guarded step LeftInHand state events := by
  have hkeep : ∀ (state : Admission contract) event following,
      (state.Sound ∧ state.Awake) → state.LeftInHand event →
        state.step event = some following → following.Sound ∧ following.Awake :=
    fun _ _ _ hinv hguard hstep => ⟨sound_step hinv.1 hstep, awake_step hinv.2 hguard hstep⟩
  have hproperty : ∀ state : Admission contract, (state.Sound ∧ state.Awake) →
      state.Intact ∧ (∀ ret ∈ state.returns, state.Paired ret) ∧ state.Awake :=
    fun _ hinv => ⟨hinv.1.intact, hinv.1.paired, hinv.2⟩
  have hbreak : ∀ (state : Admission contract) event following,
      (state.Sound ∧ state.Awake) → state.step event = some following →
        (following.Intact ∧ (∀ ret ∈ following.returns, following.Paired ret) ∧
          following.Awake) → state.LeftInHand event :=
    fun _ _ _ _ hstep hafter => leftInHand_of_awake hstep hafter.2.2
  exact always_iff_everyStep hkeep hproperty hbreak ⟨h.sound, h.awake⟩

/-! ## Runs across the wrap -/

/-- A ring as deep as the queue of the windows. -/
def deepRing : RtcContract where
  magic := 1
  armTxWindow := 1
  entries := vwinQlen
  entries_dvd := vwinQlen_dvd
  entries_lt := vwinQlen_lt

/-- Nothing has been put in yet, and all counters are at this value. -/
def loaded (counter : BitVec 32) : Admission deepRing where
  rtc := .start 0
    { prod := counter
      cons := counter
      slots := fun _ => { tick := 0, kind := 0, lenTicks := 0, bind := 0 } }
  queue := .start 0 { prod := counter, cons := counter, slots := fun _ => .make 0 0 0 0 }
  caller := none
  calls := 0
  returns := []
  busyUntil := 0
  busyValid := false
  nextNs := 0
  stats := { sent := 0, late := 0, qfull := 0, mboxBusy := 0, noLatch := 0, rtcErr := 0 }
  armed := false
  callback := .idle
  fenced := false
  rtcMapped := true

theorem fresh_loaded (counter : BitVec 32) : (loaded counter).Fresh where
  rtc := by simp [loaded, Ledger.start]
  queue := by simp [loaded, Ledger.start]
  caller := rfl
  calls := rfl
  returns := rfl
  callback := rfl
  timer h := absurd rfl h

/-- The device at tick 0. -/
def lookAt (mboxBusy : Bool) : Look where
  magic := 1
  now := 0
  mboxBusy := mboxBusy

/-- A call with a window a while off, while the mailbox is still taken, up to its return. -/
def deferredCall : List AdmissionEvent :=
  .txWindow 100000 0 1 (some { txState := 0x20, txRShift := 0 }) ::
    List.replicate 8 (.caller (lookAt true))

/-- The fence comes down again before the timer expires; the window is sent. -/
theorem admitted_across_wrap :
    Always step (fun state => state.Intact ∧ (∀ ret ∈ state.returns, state.Paired ret) ∧
        state.Awake) (loaded 0xFFFFFFFF#32)
      (deferredCall ++ [.fence true, .fence false, .expire, .callback (lookAt false),
        .callback (lookAt false), .callback (lookAt false), .callback (lookAt false)]) :=
  (admitted_iff (fresh_loaded _) _).mpr (by decide)

/-- The timer expires behind the fence, and the window that waits is left behind. -/
theorem fence_strands_window :
    (loaded 0xFFFFFFFF#32).Fresh ∧
      ¬ Always step (fun state => state.Intact ∧ (∀ ret ∈ state.returns, state.Paired ret) ∧
          state.Awake) (loaded 0xFFFFFFFF#32)
        (deferredCall ++ [.fence true, .expire, .callback (lookAt false),
          .callback (lookAt false), .callback (lookAt false), .fence false]) := by
  refine ⟨fresh_loaded _, fun h => ?_⟩
  have hstranded : (run step (loaded 0xFFFFFFFF#32)
      (deferredCall ++ [.fence true, .expire, .callback (lookAt false),
        .callback (lookAt false), .callback (lookAt false), .fence false])).any
      (fun final => ¬ final.Awake) = true := by decide
  obtain ⟨final, hrun, hasleep⟩ := (Option.any_eq_true _ _).mp hstranded
  exact of_decide_eq_true hasleep (h.final hrun).2.2

end Admission

end RfnmDriver.LaLib
