import Mathlib.Data.Option.Basic
import Mathlib.Data.List.Basic

/-!
# Runs of a guarded step function

A system is given by a partial step function `next : State → Event → Option State`, where the
event carries every choice the environment makes and `none` says the event is not enabled.
`Always` is a property of every state of a run, and `EveryStep` a property of every step it
takes. Read `always_iff_everyStep` first: an invariant that a step keeps exactly when the step
meets a condition turns a statement about all states of a run into one about its steps.
-/

namespace StepSystem

variable {State Event : Type*}

/-- Execute the events in order; an event that is not enabled fails the run. -/
def run (next : State → Event → Option State) : State → List Event → Option State
  | state, [] => some state
  | state, event :: rest => next state event >>= fun following => run next following rest

/-- The property holds in the first state of the run and in every state it reaches. A run ends
at its first event that is not enabled. -/
def Always (next : State → Event → Option State) (property : State → Prop) :
    State → List Event → Prop
  | state, [] => property state
  | state, event :: rest =>
      property state ∧ ∀ following ∈ next state event, Always next property following rest

/-- Every step the run takes satisfies the relation, given as the state before the step, the
event, and the state after it. -/
def EveryStep (next : State → Event → Option State) (relation : State → Event → State → Prop) :
    State → List Event → Prop
  | _, [] => True
  | state, event :: rest =>
      ∀ following ∈ next state event,
        relation state event following ∧ EveryStep next relation following rest

/-- Every step the run takes meets a condition on the event and the state before it. -/
abbrev Guarded (next : State → Event → Option State) (condition : State → Event → Prop) :
    State → List Event → Prop :=
  EveryStep next fun state event _ => condition state event

/-- A decidable property can be checked along a run by executing it. -/
instance Always.decidable (next : State → Event → Option State) (property : State → Prop)
    [DecidablePred property] : ∀ state events, Decidable (Always next property state events)
  | state, [] => inferInstanceAs (Decidable (property state))
  | state, event :: rest =>
      have := fun following => Always.decidable next property following rest
      inferInstanceAs (Decidable (property state ∧
        ∀ following ∈ next state event, Always next property following rest))

/-- A decidable relation can be checked on every step of a run by executing it. -/
instance EveryStep.decidable (next : State → Event → Option State)
    (relation : State → Event → State → Prop)
    [∀ state event following, Decidable (relation state event following)] :
    ∀ state events, Decidable (EveryStep next relation state events)
  | _, [] => inferInstanceAs (Decidable True)
  | state, event :: rest =>
      have := fun following => EveryStep.decidable next relation following rest
      inferInstanceAs (Decidable (∀ following ∈ next state event,
        relation state event following ∧ EveryStep next relation following rest))

variable {next : State → Event → Option State} {property invariant : State → Prop}
  {condition : State → Event → Prop} {relation : State → Event → State → Prop}
  {state following : State} {event : Event} {events : List Event}

/-- A guarded step is taken only where its guard holds. -/
theorem of_guard {guard : Prop} [Decidable guard] {reached : State}
    (h : (if guard then some reached else none) = some following) :
    guard ∧ following = reached := by
  obtain ⟨hguard, hsome⟩ := Option.ite_none_right_eq_some.mp h
  exact ⟨hguard, (Option.some.inj hsome).symm⟩

/-- A property that holds along a run holds at its start. -/
theorem Always.here (h : Always next property state events) : property state := by
  cases events with
  | nil => exact h
  | cons => exact h.1

/-- A property of the states of a run is a condition on its steps. -/
theorem Always.guarded (h : Always next property state events) :
    Guarded next (fun state _ => property state) state events := by
  induction events generalizing state with
  | nil => trivial
  | cons event rest ih => exact fun following hstep => ⟨h.1, ih (h.2 following hstep)⟩

/-- Where a step that reaches the property meets a condition, every step of a run along which the
property holds meets it. -/
theorem Always.guarded_of_reached (h : Always next property state events)
    (hcondition : ∀ state event following, next state event = some following →
      property following → condition state event) : Guarded next condition state events := by
  induction events generalizing state with
  | nil => trivial
  | cons event rest ih =>
      intro following hstep
      have hrest := h.2 following hstep
      exact ⟨hcondition _ _ _ hstep hrest.here, ih hrest⟩

/-- A property that holds along a run holds in the state the run ends in. -/
theorem Always.final (h : Always next property state events)
    (hrun : run next state events = some following) : property following := by
  induction events generalizing state with
  | nil =>
      obtain rfl := Option.some.inj hrun
      exact h
  | cons event rest ih =>
      simp only [run, bind, Option.bind_eq_some_iff] at hrun
      obtain ⟨middle, hstep, hrest⟩ := hrun
      exact ih (h.2 middle hstep) hrest

/-- A property holds along a run in two parts when it holds along the first, and along the second
from where the first ends. -/
theorem Always.append {first rest : List Event} (h : Always next property state first)
    (hrest : ∀ middle, run next state first = some middle → Always next property middle rest) :
    Always next property state (first ++ rest) := by
  induction first generalizing state with
  | nil => exact hrest state rfl
  | cons event tail ih =>
      refine ⟨h.1, fun following hstep => ih (h.2 following hstep) fun middle hrun => ?_⟩
      refine hrest middle ?_
      rw [run, Option.mem_def.mp hstep]
      exact hrun

/-- A run in two parts. -/
theorem run_append (first rest : List Event) :
    run next state (first ++ rest) =
      run next state first >>= fun middle => run next middle rest := by
  induction first generalizing state with
  | nil => rfl
  | cons event tail ih =>
      simp only [List.cons_append, run, bind_assoc]
      exact congrArg _ (funext fun following => ih)

/-- A property may be weakened along a run. -/
theorem Always.mono {weaker : State → Prop} (h : Always next property state events)
    (himp : ∀ state, property state → weaker state) : Always next weaker state events := by
  induction events generalizing state with
  | nil => exact himp _ h
  | cons event rest ih =>
      exact ⟨himp _ h.1, fun following hstep => ih (h.2 following hstep)⟩

/-- A relation may be weakened on every step of a run. -/
theorem EveryStep.mono {weaker : State → Event → State → Prop}
    (h : EveryStep next relation state events)
    (himp : ∀ state event following, relation state event following →
      weaker state event following) : EveryStep next weaker state events := by
  induction events generalizing state with
  | nil => trivial
  | cons event rest ih =>
      intro following hstep
      obtain ⟨hhere, hrest⟩ := h following hstep
      exact ⟨himp _ _ _ hhere, ih hrest⟩

/-- Two relations that hold of every step of a run hold of it together. -/
theorem EveryStep.and {other : State → Event → State → Prop}
    (h : EveryStep next relation state events) (hother : EveryStep next other state events) :
    EveryStep next (fun state event following =>
      relation state event following ∧ other state event following) state events := by
  induction events generalizing state with
  | nil => trivial
  | cons event rest ih =>
      intro following hstep
      obtain ⟨hhere, hrest⟩ := h following hstep
      obtain ⟨hotherhere, hotherrest⟩ := hother following hstep
      exact ⟨⟨hhere, hotherhere⟩, ih hrest hotherrest⟩

/-- A relation that holds of every step of a run holds of the step it takes after some of its
events. -/
theorem EveryStep.after {middle : State} {first rest : List Event}
    (h : EveryStep next relation state (first ++ event :: rest))
    (hrun : run next state first = some middle) (hstep : next middle event = some following) :
    relation middle event following := by
  induction first generalizing state with
  | nil =>
      obtain rfl := Option.some.inj hrun
      exact (h following hstep).1
  | cons head tail ih =>
      simp only [run, bind, Option.bind_eq_some_iff] at hrun
      obtain ⟨reached, hhead, htail⟩ := hrun
      exact ih (h reached hhead).2 htail

/-- A run that carries history variables has the steps of the run without them. -/
theorem EveryStep.project {Plain : Type*} {plain : Plain → Event → Option Plain}
    {relation : Plain → Event → Plain → Prop} (project : State → Plain)
    (hproject : ∀ state event, plain (project state) event = (next state event).map project)
    (h : EveryStep next (fun state event following =>
      relation (project state) event (project following)) state events) :
    EveryStep plain relation (project state) events := by
  induction events generalizing state with
  | nil => trivial
  | cons event rest ih =>
      intro following hstep
      rw [hproject, Option.mem_def, Option.map_eq_some_iff] at hstep
      obtain ⟨reached, hnext, rfl⟩ := hstep
      obtain ⟨hhere, hrest⟩ := h reached hnext
      exact ⟨hhere, ih hrest⟩

/-- The steps of a plainer system that the steps of a run stand for, of none or of several. -/
def trace {Step : Type*} (next : State → Event → Option State)
    (steps : State → Event → List Step) : State → List Event → List Step
  | _, [] => []
  | state, event :: rest => steps state event ++
      match next state event with
      | some following => trace next steps following rest
      | none => []

/-- Where every step is the run of the plainer steps it stands for, so is every run. -/
theorem run_trace {Plain Step : Type*} {plain : Plain → Step → Option Plain}
    {steps : State → Event → List Step} (project : State → Plain)
    (hstep : ∀ state event following, next state event = some following →
      run plain (project state) (steps state event) = some (project following)) {final : State}
    (hrun : run next state events = some final) :
    run plain (project state) (trace next steps state events) = some (project final) := by
  induction events generalizing state with
  | nil =>
      obtain rfl := Option.some.inj hrun
      rfl
  | cons event rest ih =>
      simp only [run, bind, Option.bind_eq_some_iff] at hrun
      obtain ⟨middle, hhead, hrest⟩ := hrun
      rw [trace, hhead, run_append, hstep state event middle hhead]
      exact ih hrest

/-- An invariant kept by every step that meets the condition holds along every run whose steps
all meet it. -/
theorem always_of_guarded
    (hkeep : ∀ state event following, invariant state → condition state event →
      next state event = some following → invariant following)
    (hstart : invariant state) (hguard : Guarded next condition state events) :
    Always next invariant state events := by
  induction events generalizing state with
  | nil => exact hstart
  | cons event rest ih =>
      refine ⟨hstart, fun following hstep => ?_⟩
      obtain ⟨hcondition, hrest⟩ := hguard following hstep
      exact ih (hkeep _ _ _ hstart hcondition hstep) hrest

/-- An invariant kept by every step holds along every run. -/
theorem always_of_inductive
    (hkeep : ∀ state event following, invariant state →
      next state event = some following → invariant following)
    (hstart : invariant state) : Always next invariant state events := by
  induction events generalizing state with
  | nil => exact hstart
  | cons event rest ih =>
      exact ⟨hstart, fun following hstep => ih (hkeep _ _ _ hstart hstep)⟩

/-- A relation that every step has, whatever the state it is taken in. -/
theorem everyStep_of_forall
    (h : ∀ state event following, next state event = some following →
      relation state event following) : EveryStep next relation state events := by
  induction events generalizing state with
  | nil => trivial
  | cons event rest ih => exact fun following hstep => ⟨h _ _ _ hstep, ih⟩

/-- In a guarded run an invariant of the guarded steps may be used to establish a relation
between the two ends of every step. -/
theorem everyStep_of_guarded
    (hkeep : ∀ state event following, invariant state → condition state event →
      next state event = some following → invariant following)
    (hrelation : ∀ state event following, invariant state → condition state event →
      next state event = some following → relation state event following)
    (hstart : invariant state) (hguard : Guarded next condition state events) :
    EveryStep next relation state events := by
  induction events generalizing state with
  | nil => trivial
  | cons event rest ih =>
      intro following hstep
      obtain ⟨hcondition, hrest⟩ := hguard following hstep
      exact ⟨hrelation _ _ _ hstart hcondition hstep,
        ih (hkeep _ _ _ hstart hcondition hstep) hrest⟩

/-- An invariant of all steps may be used to establish a relation between the two ends of every
step. -/
theorem everyStep_of_inductive
    (hkeep : ∀ state event following, invariant state →
      next state event = some following → invariant following)
    (hrelation : ∀ state event following, invariant state →
      next state event = some following → relation state event following)
    (hstart : invariant state) : EveryStep next relation state events := by
  induction events generalizing state with
  | nil => trivial
  | cons event rest ih =>
      intro following hstep
      exact ⟨hrelation _ _ _ hstart hstep, ih (hkeep _ _ _ hstart hstep)⟩

/-- When the invariant gives the property, a step that meets the condition keeps the invariant,
and one that does not breaks the property, the property holds in every state of a run exactly
when every step of the run meets the condition. -/
theorem always_iff_everyStep
    (hkeep : ∀ state event following, invariant state → condition state event →
      next state event = some following → invariant following)
    (hproperty : ∀ state, invariant state → property state)
    (hbreak : ∀ state event following, invariant state →
      next state event = some following → property following → condition state event)
    (hstart : invariant state) :
    Always next property state events ↔ Guarded next condition state events := by
  constructor
  · intro h
    induction events generalizing state with
    | nil => trivial
    | cons event rest ih =>
        intro following hstep
        have hcondition := hbreak _ _ _ hstart hstep (h.2 following hstep).here
        exact ⟨hcondition, ih (hkeep _ _ _ hstart hcondition hstep) (h.2 following hstep)⟩
  · intro h
    exact (always_of_guarded hkeep hstart h).mono hproperty

/-- When a step from the invariant has the relation exactly if it meets the condition, and keeps
the invariant if it has it, every step of a run has the relation exactly if every step meets the
condition. -/
theorem everyStep_iff_guarded
    (hstep : ∀ state event following, invariant state → next state event = some following →
      (relation state event following ↔ condition state event))
    (hkeep : ∀ state event following, invariant state → relation state event following →
      next state event = some following → invariant following)
    (hstart : invariant state) :
    EveryStep next relation state events ↔ Guarded next condition state events := by
  induction events generalizing state with
  | nil => exact Iff.rfl
  | cons event rest ih =>
      constructor
      · intro h following hnext
        obtain ⟨hhere, hrest⟩ := h following hnext
        exact ⟨(hstep _ _ _ hstart hnext).mp hhere,
          (ih (hkeep _ _ _ hstart hhere hnext)).mp hrest⟩
      · intro h following hnext
        obtain ⟨hhere, hrest⟩ := h following hnext
        have hrelation := (hstep _ _ _ hstart hnext).mpr hhere
        exact ⟨hrelation, (ih (hkeep _ _ _ hstart hrelation hnext)).mpr hrest⟩

/-! ## Loops -/

section Loop

variable {Item : Type*} {body : State → Item → State} {items : List Item}

/-- A loop that keeps an invariant, does its work for the item at hand and leaves the work done
for others, has done the work for every item. -/
theorem foldl_establishes (invariant : State → Prop) (done : Item → State → Prop)
    (hbody : ∀ item ∈ items, ∀ state, invariant state → invariant (body state item) ∧
      done item (body state item) ∧ ∀ other, done other state → done other (body state item))
    (hstart : invariant state) :
    invariant (items.foldl body state) ∧ ∀ item ∈ items, done item (items.foldl body state) := by
  have hwork : invariant (items.foldl body state) ∧
      (∀ item ∈ items, done item (items.foldl body state)) ∧
      ∀ other, done other state → done other (items.foldl body state) := by
    induction items generalizing state with
    | nil => exact ⟨hstart, nofun, fun _ hdone => hdone⟩
    | cons item rest ih =>
        obtain ⟨hkept, hitem, hothers⟩ := hbody item List.mem_cons_self state hstart
        obtain ⟨hend, hrest, hleft⟩ :=
          ih (fun other hother => hbody other (List.mem_cons_of_mem _ hother)) hkept
        refine ⟨hend, fun other hother => ?_, fun other hdone => hleft other (hothers other hdone)⟩
        obtain rfl | hlater := List.mem_cons.mp hother
        · exact hleft _ hitem
        · exact hrest other hlater
  exact ⟨hwork.1, hwork.2.1⟩

end Loop

end StepSystem
