import Mathlib.Data.Fintype.Defs
import Mathlib.Logic.Function.Basic
import RfnmDriver.Library.StepSystem

/-!
# The session fault latch and the restarts

A worker that finds its data path broken calls `rfnm_session_fault`, which sets `rfnm_session_dead`,
and the session's verbs are refused from then on. `rfnm_restart_sm` stops the workers, resets, starts
new ones, gives the lock back, and clears the latch only then: a worker may have raised a fault
by that time. A hard reset or a kernel swap starts new workers and leaves the latch as it is.
`faultsKept_iff_latchKept` says which orders of these steps lose no fault and let none outlive its
workers, and `first_fault_lost` is the run in which the first fault of a session goes unnoticed.
-/

namespace RfnmDriver.Session

open StepSystem

/-- The threads of `start_sm_work`. -/
inductive Worker
  /-- `rfnm_handler_in`. -/
  | rx
  /-- `rfnm_handler_out`. -/
  | tx
  /-- `rfnm_handler_usb`. -/
  | usb
  deriving DecidableEq, Repr

/-- All of them, in the order they are started. -/
def Worker.all : List Worker :=
  [.rx, .tx, .usb]

theorem Worker.mem_all (worker : Worker) : worker ∈ Worker.all := by
  cases worker <;> decide

/-- Where a worker is, and the start it is from. -/
inductive Status
  | stopped
  | running (incarnation : Nat)
  /-- In `rfnm_session_fault`, having read `rfnm_session_dead` as 0. -/
  | faulting (incarnation : Nat)
  deriving DecidableEq, Repr

/-- Who stops and starts the workers. -/
inductive Mode
  /-- `module_init`. -/
  | boot
  /-- `rfnm_restart_sm`. -/
  | restart
  /-- `rfnm_hard_reset_la9310`. -/
  | hardReset
  /-- `rfnm_vspa_kernel_swap`. -/
  | kernelSwap
  deriving DecidableEq, Repr

/-- What the holder of `rfnm_hard_reset_lock` is at. -/
inductive Phase
  /-- Nobody holds the lock. -/
  | idle
  /-- `stop_sm` waits for the workers. -/
  | stopping (mode : Mode)
  /-- The workers are stopped. -/
  | stopped (mode : Mode)
  /-- `start_sm_work` has these workers left to start. -/
  | starting (mode : Mode) (todo : List Worker)
  deriving DecidableEq, Repr

/-- What the code does not keep, but statements about its runs speak of. -/
structure History where
  /-- The starts a worker of which has raised a fault. -/
  raised : List Nat
  /-- Those that did so since the last restart, reset or swap began. -/
  owed : List Nat

/-- The latch, the time generations, the workers and their restarts. -/
structure StreamMachine where
  /-- `rfnm_session_dead`. -/
  sessionDead : Bool
  /-- `rfnm_session_phy_gen`. -/
  sessionPhyGen : BitVec 32
  /-- `rfnm_phy_gen`. -/
  phyGen : BitVec 32
  workers : Worker → Status
  /-- `wq_stop_in`, `wq_stop_out` and `wq_stop_usb`. -/
  wqStop : Worker → Bool
  phase : Phase
  /-- The starts so far. -/
  incarnation : Nat
  /-- The calls of `rfnm_restart_sm` that have given the lock back and latch the generation next. -/
  relatching : Nat
  /-- The calls that clear the latch next. -/
  clearing : Nat
  history : History

/-- One step. -/
inductive Event
  /-- A restart, a reset or a swap takes the lock and enters `stop_sm`. -/
  | begin (mode : Mode)
  /-- A worker sees its stop flag and exits. -/
  | exit (worker : Worker)
  /-- `stop_sm` finds no worker alive. -/
  | stopped
  /-- `stop_sm` gives up. -/
  | timeout
  /-- The reset, which may fail on the way, and the entry of `start_sm_work`. -/
  | reset (ok : Bool)
  /-- `kthread_run_on_cpu` for the next worker, which may fail. -/
  | spawn (ok : Bool)
  /-- All are started, and the lock is given back. -/
  | finish
  /-- `rfnm_restart_sm` latches the time generation. -/
  | relatch
  /-- It clears `rfnm_session_dead`. -/
  | clear
  /-- A worker enters `rfnm_session_fault`. -/
  | faultRead (worker : Worker)
  /-- It sets `rfnm_session_dead`. -/
  | faultWrite (worker : Worker)
  /-- The timer finds that the counter restarted. -/
  | genBump
  deriving DecidableEq, Repr

/-- The module's zeroed memory, with the first start under way. -/
def StreamMachine.init : StreamMachine where
  sessionDead := false
  sessionPhyGen := 1
  phyGen := 1
  workers := fun _ => .stopped
  wqStop := fun _ => false
  phase := .starting .boot Worker.all
  incarnation := 0
  relatching := 0
  clearing := 0
  history := ⟨[], []⟩

namespace StreamMachine

variable (machine : StreamMachine)

/-- `rfnm_phy_gen_session_ok`. -/
def sessionOk : Bool :=
  if machine.sessionDead then false
  else if machine.sessionPhyGen ≠ machine.phyGen then false
  else true

/-- `rfnm_sm_workers_alive` is 0. -/
def NoneAlive : Prop :=
  ∀ worker ∈ Worker.all, machine.workers worker = .stopped

instance : Decidable machine.NoneAlive :=
  inferInstanceAs (Decidable (∀ _ ∈ _, _))

/-! ## Steps -/

/-- `stop_sm` up to its wait. -/
def begin (mode : Mode) : StreamMachine :=
  let history := { machine.history with owed := [] }
  if machine.NoneAlive then { machine with phase := .stopped mode, history := history }
  else { machine with
    wqStop := fun _ => true
    phase := .stopping mode
    history := history }

/-- `rfnm_phy_gen_bump`, as far as the generation goes. -/
def genBump : StreamMachine :=
  { machine with phyGen := machine.phyGen + 1 }

/-- The session that commands a hard reset latches the new generation. -/
def relatch : StreamMachine :=
  { machine with sessionPhyGen := machine.phyGen }

/-- `start_sm_work`: nothing is started while a worker is alive. -/
def start (mode : Mode) : StreamMachine :=
  if machine.NoneAlive then
    { machine with
      phase := .starting mode Worker.all
      incarnation := machine.incarnation + 1 }
  else { machine with phase := .starting mode [] }

/-- From the reset to the entry of `start_sm_work`: a hard reset that cannot reprobe the chip leaves
the workers stopped. -/
def reset (mode : Mode) (ok : Bool) : StreamMachine :=
  match mode with
  | .hardReset => if ok then machine.genBump.relatch.start mode
      else { machine with phase := .idle }
  | _ => machine.start mode

/-- The next worker is started, or is not. -/
def spawn (worker : Worker) (mode : Mode) (todo : List Worker) (ok : Bool) : StreamMachine :=
  { machine with
    workers := if ok then
      Function.update machine.workers worker (.running machine.incarnation) else machine.workers
    phase := .starting mode todo }

/-- The lock is given back; only a restart goes on to the latch. -/
def finish (mode : Mode) : StreamMachine :=
  { machine with
    phase := .idle
    relatching := if mode = .restart then machine.relatching + 1 else machine.relatching }

/-- A worker of this start has raised a fault. -/
def noteFault (incarnation : Nat) : StreamMachine :=
  { machine with
    history :=
      ⟨incarnation :: machine.history.raised, incarnation :: machine.history.owed⟩ }

/-- `rfnm_session_fault` up to its first write: it returns if the session is dead already. -/
def faultRead (worker : Worker) (incarnation : Nat) : StreamMachine :=
  if machine.sessionDead then machine.noteFault incarnation
  else { machine with
    workers := Function.update machine.workers worker (.faulting incarnation) }

/-- `rfnm_session_fault` sets the latch. -/
def faultWrite (worker : Worker) (incarnation : Nat) : StreamMachine :=
  { machine.noteFault incarnation with
    sessionDead := true
    workers := Function.update machine.workers worker (.running incarnation) }

/-- One step; `none` when it is not enabled. -/
def next : Event → Option StreamMachine
  | .begin mode =>
      if machine.phase = .idle ∧ mode ≠ .boot then some (machine.begin mode) else none
  | .exit worker =>
      match machine.workers worker with
      | .running _ =>
          if machine.wqStop worker then
            some { machine with
              workers := Function.update machine.workers worker .stopped
              wqStop := Function.update machine.wqStop worker false }
          else none
      | _ => none
  | .stopped =>
      match machine.phase with
      | .stopping mode =>
          if machine.NoneAlive then
            some { machine with wqStop := fun _ => false, phase := .stopped mode }
          else none
      | _ => none
  | .timeout =>
      match machine.phase with
      | .stopping _ => some { machine with phase := .idle }
      | _ => none
  | .reset ok =>
      match machine.phase with
      | .stopped mode => some (machine.reset mode ok)
      | _ => none
  | .spawn ok =>
      match machine.phase with
      | .starting mode (worker :: todo) => some (machine.spawn worker mode todo ok)
      | _ => none
  | .finish =>
      match machine.phase with
      | .starting mode [] => some (machine.finish mode)
      | _ => none
  | .relatch =>
      if machine.relatching = 0 then none
      else some { machine.relatch with
        relatching := machine.relatching - 1
        clearing := machine.clearing + 1 }
  | .clear =>
      if machine.clearing = 0 then none
      else some { machine with sessionDead := false, clearing := machine.clearing - 1 }
  | .faultRead worker =>
      match machine.workers worker with
      | .running incarnation =>
          if worker = .usb then none else some (machine.faultRead worker incarnation)
      | _ => none
  | .faultWrite worker =>
      match machine.workers worker with
      | .faulting incarnation => some (machine.faultWrite worker incarnation)
      | _ => none
  | .genBump => some machine.genBump

/-! ## The property and the condition -/

/-- No restart, reset or swap is under way. -/
def Settled : Prop :=
  machine.phase = .idle ∧ machine.relatching = 0 ∧ machine.clearing = 0

/-- A fault raised by a worker of the running start since the last restart began is visible; and
once a restart is over, the session is dead only from a fault of its own workers. -/
def FaultsKept : Prop :=
  (machine.incarnation ∈ machine.history.owed → machine.sessionOk = false) ∧
    (machine.Settled → machine.incarnation ∉ machine.history.raised →
      machine.sessionDead = false)

/-- A clear comes before any worker of the running start has raised a fault, unless the moved time
generation refuses the session by itself; in that case the fault is still owed when the generations
would meet again. New workers that no clear follows are started on a live session, or have raised a
fault of their own. -/
def LatchKept : Event → Prop
  | .clear => machine.incarnation ∈ machine.history.owed →
      machine.sessionPhyGen ≠ machine.phyGen
  | .relatch => machine.incarnation ∈ machine.history.owed → machine.sessionDead = true
  | .genBump => machine.incarnation ∈ machine.history.owed →
      machine.sessionDead = true ∨ machine.sessionPhyGen ≠ machine.phyGen + 1
  | .finish => ∀ mode, machine.phase = .starting mode [] → mode ≠ .restart →
      machine.relatching = 0 → machine.clearing = 0 → machine.sessionDead = true →
        machine.incarnation ∈ machine.history.raised
  | _ => True

instance : Decidable machine.Settled :=
  inferInstanceAs (Decidable (_ ∧ _))

instance : Decidable machine.FaultsKept :=
  inferInstanceAs (Decidable ((_ → _) ∧ (_ → _ → _)))

/-! ## The invariant -/

variable {machine} {following : StreamMachine} {worker : Worker} {incarnation : Nat}
  {event : Event} {mode : Mode}

/-- The worker has been started and has not exited. -/
def Alive (machine : StreamMachine) (worker : Worker) (incarnation : Nat) : Prop :=
  machine.workers worker = .running incarnation ∨ machine.workers worker = .faulting incarnation

/-- What holds between the steps. -/
structure Inv (machine : StreamMachine) : Prop where
  /-- A worker alive is from the last start. -/
  alive : ∀ worker incarnation, machine.Alive worker incarnation →
    incarnation = machine.incarnation
  /-- Faults were raised by the starts so far. -/
  past : ∀ incarnation ∈ machine.history.raised, incarnation ≤ machine.incarnation
  owed : machine.history.owed ⊆ machine.history.raised
  /-- A fault owed is visible. -/
  visible : machine.incarnation ∈ machine.history.owed →
    machine.sessionDead = true ∨ machine.sessionPhyGen ≠ machine.phyGen
  /-- A dead session is so from the running start, or will be cleared, or new workers are on their
  way. -/
  dead : machine.sessionDead = true → machine.incarnation ∈ machine.history.raised ∨
    machine.relatching ≠ 0 ∨ machine.clearing ≠ 0 ∨
      ∃ mode todo, machine.phase = .starting mode todo
  stopped : ∀ mode, machine.phase = .stopped mode → machine.NoneAlive

theorem NoneAlive.not_alive (h : machine.NoneAlive) : ¬machine.Alive worker incarnation := by
  have hstopped := h worker (Worker.mem_all worker)
  rintro (hrunning | hfaulting)
  · rw [hstopped] at hrunning
    cases hrunning
  · rw [hstopped] at hfaulting
    cases hfaulting

theorem not_starting {phase : Phase} (hphase : machine.phase = phase)
    (hother : ∀ mode todo, phase ≠ .starting mode todo) :
    ¬∃ mode todo, machine.phase = .starting mode todo := by
  rintro ⟨mode, todo, hstarting⟩
  exact hother mode todo (hphase.symm.trans hstarting)

theorem init_inv : init.Inv where
  alive := fun worker incarnation h => by rcases h with h | h <;> cases h
  past := fun _ h => absurd h List.not_mem_nil
  owed := List.Subset.refl _
  visible := fun h => absurd h List.not_mem_nil
  dead := fun h => absurd h Bool.false_ne_true
  stopped := fun mode h => by cases h

theorem sessionOk_eq_false :
    machine.sessionOk = false ↔
      machine.sessionDead = true ∨ machine.sessionPhyGen ≠ machine.phyGen := by
  unfold sessionOk
  split
  · next hdead => simp [hdead]
  · next hlive =>
      split
      · next hmoved => simp [hmoved]
      · next hsame => simp [hlive, hsame]

/-- The invariant keeps the faults. -/
theorem Inv.faultsKept (h : machine.Inv) : machine.FaultsKept := by
  refine ⟨fun howed => sessionOk_eq_false.mpr (h.visible howed), ?_⟩
  rintro ⟨hidle, hrelatching, hclearing⟩ hraised
  by_contra hdead
  rcases h.dead (by simpa using hdead) with hown | hnonzero | hnonzero | hstarting
  · exact hraised hown
  · exact hnonzero hrelatching
  · exact hnonzero hclearing
  · exact not_starting hidle nofun hstarting

/-! ## Steps of the lock's holder -/

/-- A step on the phase and the stop flags alone keeps the invariant, if it starts no worker behind
a dead latch and finds the workers stopped where it says so. -/
theorem Inv.phase (h : machine.Inv) {phase : Phase} {wqStop : Worker → Bool}
    (hdead : (∃ mode todo, machine.phase = .starting mode todo) →
      ∃ mode todo, phase = .starting mode todo)
    (hstopped : ∀ mode, phase = .stopped mode → machine.NoneAlive) :
    { machine with phase := phase, wqStop := wqStop : StreamMachine }.Inv where
  alive := h.alive
  past := h.past
  owed := h.owed
  visible := h.visible
  dead := fun hset => (h.dead hset).imp_right (Or.imp_right (Or.imp_right hdead))
  stopped := hstopped

/-- A restart that begins owes nothing. -/
theorem Inv.begin (h : machine.Inv) (hidle : machine.phase = .idle) (mode : Mode) :
    (machine.begin mode).Inv := by
  have hforgets :
      { machine with history := { machine.history with owed := [] } : StreamMachine }.Inv :=
    ⟨h.alive, h.past, List.nil_subset _, fun howed => absurd howed List.not_mem_nil, h.dead,
      h.stopped⟩
  have hnone : ¬∃ mode todo, machine.phase = .starting mode todo := not_starting hidle nofun
  unfold StreamMachine.begin
  simp only
  split
  · next hquiet => exact hforgets.phase (fun hstarting => absurd hstarting hnone) fun _ _ => hquiet
  · exact hforgets.phase (fun hstarting => absurd hstarting hnone) fun other hother => by
      cases hother

/-- New workers are of a start that has raised no fault, and owes none whatever the generations. -/
theorem Inv.start (h : machine.Inv) (hquiet : machine.NoneAlive) (mode : Mode)
    (sessionPhyGen phyGen : BitVec 32) :
    (StreamMachine.start
      { machine with sessionPhyGen := sessionPhyGen, phyGen := phyGen } mode).Inv := by
  have hnone : NoneAlive { machine with sessionPhyGen := sessionPhyGen, phyGen := phyGen } := hquiet
  unfold StreamMachine.start
  rw [if_pos hnone]
  exact {
    alive := fun worker incarnation halive => absurd halive hnone.not_alive
    past := fun incarnation hraised => Nat.le_succ_of_le (h.past incarnation hraised)
    owed := h.owed
    -- no fault is of a start yet to come
    visible := fun howed => absurd (h.past _ (h.owed howed)) (Nat.not_succ_le_self _)
    dead := fun _ => Or.inr (Or.inr (Or.inr ⟨mode, Worker.all, rfl⟩))
    stopped := fun other hother => by cases hother }

/-- The generations matter only to a fault that is owed. -/
theorem Inv.gens (h : machine.Inv) {sessionPhyGen phyGen : BitVec 32}
    (hvisible : machine.incarnation ∈ machine.history.owed →
      machine.sessionDead = true ∨ sessionPhyGen ≠ phyGen) :
    { machine with sessionPhyGen := sessionPhyGen, phyGen := phyGen : StreamMachine }.Inv :=
  ⟨h.alive, h.past, h.owed, hvisible, h.dead, h.stopped⟩

/-- The reset and the entry of `start_sm_work`. -/
theorem Inv.reset (h : machine.Inv) (hphase : machine.phase = .stopped mode) (ok : Bool) :
    (machine.reset mode ok).Inv := by
  have hquiet := h.stopped mode hphase
  unfold StreamMachine.reset
  split
  · split
    · exact h.start hquiet .hardReset _ _
    · exact h.phase (fun hstarting => absurd hstarting (not_starting hphase nofun))
        fun other hother => by cases hother
  · exact h.start hquiet _ machine.sessionPhyGen machine.phyGen

/-- A worker is started. -/
theorem Inv.spawn (h : machine.Inv) {todo : List Worker} (ok : Bool) :
    (machine.spawn worker mode todo ok).Inv where
  alive := by
    intro other incarnation halive
    unfold Alive StreamMachine.spawn at halive
    simp only at halive
    split at halive
    · by_cases hsame : other = worker
      · subst hsame
        simp only [Function.update_self, Status.running.injEq, reduceCtorEq, or_false] at halive
        exact halive.symm
      · rw [Function.update_of_ne hsame] at halive
        exact h.alive other incarnation halive
    · exact h.alive other incarnation halive
  past := h.past
  owed := h.owed
  visible := h.visible
  dead := fun _ => Or.inr (Or.inr (Or.inr ⟨mode, todo, rfl⟩))
  stopped := fun other hother => by cases hother

/-- The lock is given back. -/
theorem Inv.finish (h : machine.Inv) (hphase : machine.phase = .starting mode [])
    (hkept : machine.LatchKept .finish) : (machine.finish mode).Inv where
  alive := h.alive
  past := h.past
  owed := h.owed
  visible := h.visible
  dead := by
    intro hdead
    -- a restart has its relatch and its clear still to come, any other start has not
    by_cases hmode : mode = .restart
    · right
      left
      simp [StreamMachine.finish, hmode]
    · have hsame : (machine.finish mode).relatching = machine.relatching := if_neg hmode
      by_cases hrelatching : machine.relatching = 0
      · by_cases hclearing : machine.clearing = 0
        · exact Or.inl (hkept mode hphase hmode hrelatching hclearing hdead)
        · exact Or.inr (Or.inr (Or.inl hclearing))
      · exact Or.inr (Or.inl (hsame ▸ hrelatching))
  stopped := fun other hother => by cases hother

/-! ## Steps of the workers -/

/-- A worker that is not alive afterwards, or is alive as before, keeps the invariant. -/
theorem Inv.workers (h : machine.Inv) {status : Status} {wqStop : Worker → Bool}
    (halive : ∀ incarnation, status = .running incarnation ∨ status = .faulting incarnation →
      machine.Alive worker incarnation) :
    { machine with
      workers := Function.update machine.workers worker status
      wqStop := wqStop : StreamMachine }.Inv where
  alive := by
    intro other incarnation hother
    unfold Alive at hother
    simp only at hother
    by_cases hsame : other = worker
    · subst hsame
      rw [Function.update_self] at hother
      exact h.alive other incarnation (halive incarnation hother)
    · rw [Function.update_of_ne hsame] at hother
      exact h.alive other incarnation hother
  past := h.past
  owed := h.owed
  visible := h.visible
  dead := h.dead
  stopped := by
    intro mode hmode other hother
    have hquiet := h.stopped mode hmode
    simp only
    by_cases hsame : other = worker
    · subst hsame
      rw [Function.update_self]
      -- a status that is alive would have been so before
      cases hstatus : status with
      | stopped => rfl
      | running incarnation =>
          exact absurd (halive incarnation (Or.inl hstatus)) hquiet.not_alive
      | faulting incarnation =>
          exact absurd (halive incarnation (Or.inr hstatus)) hquiet.not_alive
    · rw [Function.update_of_ne hsame]
      exact hquiet other hother

/-- A fault of the running start is noted while the session is dead. -/
theorem Inv.noteFault (h : machine.Inv) (hcurrent : incarnation = machine.incarnation)
    {sessionDead : Bool} (hdead : sessionDead = true) :
    { machine.noteFault incarnation with sessionDead := sessionDead : StreamMachine }.Inv where
  alive := h.alive
  past := by
    intro other hother
    rcases List.mem_cons.mp hother with rfl | hbefore
    · exact hcurrent.le
    · exact h.past other hbefore
  owed := List.cons_subset_cons incarnation h.owed
  visible := fun _ => Or.inl hdead
  dead := fun _ => Or.inl (hcurrent ▸ List.mem_cons_self)
  stopped := h.stopped

/-! ## Runs -/

/-- A step that keeps the latch keeps the invariant. -/
theorem next_inv (h : machine.Inv) (hkept : machine.LatchKept event)
    (hnext : machine.next event = some following) : following.Inv := by
  cases event with
  | begin mode =>
      obtain ⟨hguard, rfl⟩ := of_guard hnext
      exact h.begin hguard.1 mode
  | exit worker =>
      simp only [next] at hnext
      split at hnext
      · obtain ⟨-, rfl⟩ := of_guard hnext
        refine h.workers fun incarnation halive => ?_
        rcases halive with halive | halive <;> cases halive
      · cases hnext
  | stopped =>
      simp only [next] at hnext
      split at hnext
      · next mode hphase =>
          obtain ⟨hquiet, rfl⟩ := of_guard hnext
          exact h.phase (fun hstarting => absurd hstarting (not_starting hphase nofun))
            fun _ _ => hquiet
      · cases hnext
  | timeout =>
      simp only [next] at hnext
      split at hnext
      · next mode hphase =>
          obtain rfl := Option.some.inj hnext
          exact h.phase (fun hstarting => absurd hstarting (not_starting hphase nofun))
            fun other hother => by cases hother
      · cases hnext
  | reset ok =>
      simp only [next] at hnext
      split at hnext
      · next mode hphase =>
          obtain rfl := Option.some.inj hnext
          exact h.reset hphase ok
      · cases hnext
  | spawn ok =>
      simp only [next] at hnext
      split at hnext
      · obtain rfl := Option.some.inj hnext
        exact h.spawn ok
      · cases hnext
  | finish =>
      simp only [next] at hnext
      split at hnext
      · next mode hphase =>
          obtain rfl := Option.some.inj hnext
          exact h.finish hphase hkept
      · cases hnext
  -- `hkept`: a fault that is owed stays in the latch, or the generations refuse the session
  | relatch =>
      simp only [next, Option.ite_none_left_eq_some, Option.some.injEq] at hnext
      obtain ⟨-, rfl⟩ := hnext
      exact ⟨h.alive, h.past, h.owed, fun howed => Or.inl (hkept howed),
        fun _ => Or.inr (Or.inr (Or.inl (Nat.succ_ne_zero _))), h.stopped⟩
  | clear =>
      simp only [next, Option.ite_none_left_eq_some, Option.some.injEq] at hnext
      obtain ⟨-, rfl⟩ := hnext
      exact ⟨h.alive, h.past, h.owed, fun howed => Or.inr (hkept howed),
        fun hdead => absurd hdead Bool.false_ne_true, h.stopped⟩
  | faultRead worker =>
      simp only [next] at hnext
      split at hnext
      · next incarnation hrunning =>
          simp only [Option.ite_none_left_eq_some, Option.some.injEq] at hnext
          obtain ⟨-, rfl⟩ := hnext
          have hcurrent := h.alive worker incarnation (Or.inl hrunning)
          unfold StreamMachine.faultRead
          split
          · -- the latch is set already, so nothing is left to write
            next hdead => exact h.noteFault hcurrent hdead
          · refine h.workers fun other halive => ?_
            simp only [reduceCtorEq, Status.faulting.injEq, false_or] at halive
            exact halive ▸ Or.inl hrunning
      · cases hnext
  | faultWrite worker =>
      simp only [next] at hnext
      split at hnext
      · next incarnation hfaulting =>
          obtain rfl := Option.some.inj hnext
          refine (h.noteFault (h.alive worker incarnation (Or.inr hfaulting)) rfl).workers
            fun other halive => ?_
          simp only [reduceCtorEq, Status.running.injEq, or_false] at halive
          exact halive ▸ Or.inr hfaulting
      · cases hnext
  | genBump =>
      obtain rfl := Option.some.inj hnext
      exact h.gens hkept

/-- A step that does not keep the latch loses a fault, or leaves one behind. -/
theorem latchKept_of_faultsKept (hnext : machine.next event = some following)
    (hfollowing : following.FaultsKept) : machine.LatchKept event := by
  obtain ⟨hvisible, hown⟩ := hfollowing
  cases event with
  | clear =>
      simp only [next, Option.ite_none_left_eq_some, Option.some.injEq] at hnext
      obtain ⟨-, rfl⟩ := hnext
      intro howed
      exact (sessionOk_eq_false.mp (hvisible howed)).resolve_left Bool.false_ne_true
  | relatch =>
      simp only [next, Option.ite_none_left_eq_some, Option.some.injEq] at hnext
      obtain ⟨-, rfl⟩ := hnext
      intro howed
      exact (sessionOk_eq_false.mp (hvisible howed)).resolve_right fun hne => hne rfl
  | genBump =>
      obtain rfl := Option.some.inj hnext
      exact fun howed => sessionOk_eq_false.mp (hvisible howed)
  | finish =>
      intro mode hphase hmode hrelatching hclearing hdead
      simp only [next, hphase, Option.some.injEq] at hnext
      subst hnext
      by_contra hraised
      have hsettled : (machine.finish mode).Settled := by
        refine ⟨rfl, ?_, hclearing⟩
        exact (if_neg hmode).trans hrelatching
      exact absurd (hdead.symm.trans (hown hsettled hraised)) Bool.noConfusion
  | _ => trivial

/-- In every run from the module init, every fault of the running workers is visible until the next
restart begins, and no other one stops them once their start is over, exactly when every step keeps
the latch. -/
theorem faultsKept_iff_latchKept (events : List Event) :
    Always next FaultsKept init events ↔ Guarded next LatchKept init events := by
  refine always_iff_everyStep (fun machine event following h hkept hnext => ?_)
    (fun machine h => h.faultsKept) (fun machine event following h hnext hfollowing => ?_) init_inv
  · exact next_inv h hkept hnext
  · exact latchKept_of_faultsKept hnext hfollowing

/-- The new RX worker finds its lane parked on its first pass, before the restart has cleared the
latch: the session is taken for healthy. -/
theorem first_fault_lost : ¬∀ events : List Event, Always next FaultsKept init events := by
  intro h
  have hrun := h
    [.spawn true, .spawn true, .spawn true, .finish,
      .begin .restart, .exit .rx, .exit .tx, .exit .usb, .stopped, .reset true,
      .spawn true, .faultRead .rx, .faultWrite .rx, .spawn true, .spawn true, .finish,
      .relatch, .clear]
  exact absurd hrun (by decide)

end StreamMachine

end RfnmDriver.Session
