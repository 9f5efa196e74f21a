import Mathlib.Data.Option.Basic

/-!
# Procedures of calls that a device may refuse

A driver talks to a device by a sequence of calls. A call that the device refuses, because it is
not legal or for reasons of its own, leaves the device as it was and ends the procedure; what the
driver and the device have done before stays done. `Proc` is a procedure over a state that holds
both, run against a list of answers, and `Meets` says where it ends for every list of answers: with
a value, or refused. The `meets_*` rules take a procedure apart from its first step on.
-/

namespace RefusableCalls

variable {State α β : Type}

/-- From a state and the device's next answers: the value if nothing was refused, the state, and
the answers left. -/
def Proc (State α : Type) : Type := State → List Bool → Option α × State × List Bool

namespace Proc

instance : Monad (Proc State) where
  pure value := fun state answers => (some value, state, answers)
  bind first rest := fun state answers =>
    match first state answers with
    | (some value, reached, left) => rest value reached left
    | (none, reached, left) => (none, reached, left)

/-- The driver gives up. -/
def fail : Proc State α := fun state answers => (none, state, answers)

/-- What the driver reads of the state by itself. -/
def read (view : State → α) : Proc State α :=
  fun state answers => (some (view state), state, answers)

/-- What the driver keeps by itself. -/
def modify (change : State → State) : Proc State Unit :=
  fun state answers => (some (), change state, answers)

/-- A call. The device may refuse a legal one; when the answers run out it refuses none. -/
def call (effect : State → Option State) : Proc State Unit := fun state answers =>
  match answers.headD true, effect state with
  | true, some reached => (some (), reached, answers.tail)
  | _, _ => (none, state, answers.tail)

/-- A call that only reads. -/
def query (view : State → α) : Proc State α := fun state answers =>
  if answers.headD true then (some (view state), state, answers.tail)
  else (none, state, answers.tail)

/-- A step that some requests leave out. -/
def onlyIf (condition : Bool) (first : Proc State Unit) : Proc State Unit :=
  if condition then first else pure ()

/-- A procedure whose refusal the driver survives; whether it went through. -/
def attempt (first : Proc State α) : Proc State Bool := fun state answers =>
  match first state answers with
  | (value, reached, left) => (some value.isSome, reached, left)

end Proc

open Proc

/-- A run ended with a value and a state that have `post`, or refused in a state that has
`refused`. -/
def Ended (post : α → State → Prop) (refused : State → Prop) :
    Option α × State × List Bool → Prop
  | (some value, reached, _) => post value reached
  | (none, reached, _) => refused reached

/-- From this state the procedure ends so, whatever the device answers. -/
def Meets (first : Proc State α) (post : α → State → Prop) (refused : State → Prop)
    (state : State) : Prop :=
  ∀ answers, Ended post refused (first state answers)

variable {first : Proc State α} {rest : α → Proc State β} {post post' : α → State → Prop}
  {after : β → State → Prop} {refused refused' : State → Prop} {state : State}

theorem meets_pure {value : α} (h : post value state) :
    Meets (pure value : Proc State α) post refused state :=
  fun _ => h

section Bind

variable {answers left : List Bool} {reached : State}

theorem bind_of_some {value : α} (h : first state answers = (some value, reached, left)) :
    (first >>= rest) state answers = rest value reached left := by
  show (match first state answers with
    | (some value, reached, left) => rest value reached left
    | (none, reached, left) => (none, reached, left)) = _
  rw [h]

theorem bind_of_none (h : first state answers = (none, reached, left)) :
    (first >>= rest) state answers = (none, reached, left) := by
  show (match first state answers with
    | (some value, reached, left) => rest value reached left
    | (none, reached, left) => (none, reached, left)) = _
  rw [h]

end Bind

section Call

variable {effect : State → Option State} {left : List Bool} {reached : State}

theorem call_of_some (h : effect state = some reached) :
    call effect state (true :: left) = (some (), reached, left) := by
  show (match true, effect state with
    | true, some reached => (some (), reached, left)
    | _, _ => (none, state, left)) = _
  rw [h]

end Call

/-- One procedure after another: the second starts where the first ends. -/
theorem meets_bind (h : Meets first (fun value => Meets (rest value) after refused) refused state) :
    Meets (first >>= rest) after refused state := by
  intro answers
  have hfirst := h answers
  rcases hrun : first state answers with ⟨_ | value, reached, left⟩ <;> rw [hrun] at hfirst
  · rw [bind_of_none hrun]
    exact hfirst
  · rw [bind_of_some hrun]
    exact hfirst left

/-- What a procedure comes to may be weakened. -/
theorem Meets.mono (h : Meets first post refused state)
    (hpost : ∀ value reached, post value reached → post' value reached)
    (hrefused : ∀ reached, refused reached → refused' reached) :
    Meets first post' refused' state := by
  intro answers
  have hfirst := h answers
  rcases hrun : first state answers with ⟨_ | value, reached, left⟩ <;> rw [hrun] at hfirst
  · exact hrefused _ hfirst
  · exact hpost _ _ hfirst

/-- Of a procedure that is not looked into: what holds of every end. -/
theorem meets_of_forall (hpost : ∀ value reached, post value reached)
    (hrefused : ∀ reached, refused reached) : Meets first post refused state := by
  intro answers
  rcases first state answers with ⟨_ | value, reached, left⟩
  · exact hrefused reached
  · exact hpost value reached

theorem meets_fail (h : refused state) : Meets (fail : Proc State α) post refused state :=
  fun _ => h

theorem meets_read {view : State → α} (h : post (view state) state) :
    Meets (read view) post refused state :=
  fun _ => h

theorem meets_modify {change : State → State} {post : Unit → State → Prop}
    (h : post () (change state)) : Meets (modify change) post refused state :=
  fun _ => h

/-- A call ends where its effect says, or is refused. -/
theorem meets_call {effect : State → Option State} {post : Unit → State → Prop}
    (h : ∀ reached ∈ effect state, post () reached) (hrefused : refused state) :
    Meets (call effect) post refused state := by
  intro answers
  unfold call
  cases answers.headD true with
  | false => exact hrefused
  | true =>
      cases heffect : effect state with
      | none => exact hrefused
      | some reached => exact h reached heffect

theorem meets_query {view : State → α} (h : post (view state) state) (hrefused : refused state) :
    Meets (query view) post refused state := by
  intro answers
  unfold query
  cases answers.headD true with
  | false => exact hrefused
  | true => exact h

theorem meets_onlyIf {condition : Bool} {first : Proc State Unit} {post : Unit → State → Prop}
    (h : condition = true → Meets first post refused state)
    (hnot : condition = false → post () state) :
    Meets (onlyIf condition first) post refused state := by
  cases condition with
  | false => exact meets_pure (hnot rfl)
  | true => exact h rfl

/-- A procedure that may be refused, and what the driver does then. -/
theorem meets_attempt {post : Bool → State → Prop}
    (h : Meets first (fun _ => post true) (post false) state) :
    Meets (attempt first) post refused state := by
  intro answers
  have hfirst := h answers
  unfold attempt
  rcases hrun : first state answers with ⟨_ | value, reached, left⟩ <;> rw [hrun] at hfirst
  · exact hfirst
  · exact hfirst

/-! ## Invariants of a procedure -/

/-- Whatever the device answers, the procedure keeps the property, refused or not. -/
def Keeps (invariant : State → Prop) (first : Proc State α) : Prop :=
  ∀ state, invariant state → Meets first (fun _ => invariant) invariant state

section Keeps

variable {invariant : State → Prop}

theorem keeps_pure {value : α} : Keeps invariant (pure value) :=
  fun _ h => meets_pure h

theorem keeps_fail : Keeps invariant (fail : Proc State α) :=
  fun _ h => meets_fail h

theorem keeps_call {effect : State → Option State}
    (h : ∀ state, invariant state → ∀ reached ∈ effect state, invariant reached) :
    Keeps invariant (call effect) :=
  fun state hstate => meets_call (h state hstate) hstate

theorem keeps_bind (h : Keeps invariant first) (hrest : ∀ value, Keeps invariant (rest value)) :
    Keeps invariant (first >>= rest) :=
  fun state hstate => meets_bind ((h state hstate).mono (fun value => hrest value) fun _ h => h)

theorem keeps_onlyIf {condition : Bool} {first : Proc State Unit} (h : Keeps invariant first) :
    Keeps invariant (onlyIf condition first) :=
  fun state hstate => meets_onlyIf (fun _ => h state hstate) fun _ => hstate

theorem keeps_attempt (h : Keeps invariant first) : Keeps invariant (attempt first) :=
  fun state hstate => meets_attempt (h state hstate)

end Keeps

/-! ## Procedures whose calls are all legal -/

/-- The procedure makes so many calls, each of them legal: it goes through exactly when the device
refuses none of them. -/
def Asks (count : Nat) (first : Proc State α) : Prop :=
  ∀ state answers,
    (first state answers).1.isSome = (answers.take count).all id ∧
      ((first state answers).1.isSome = true → (first state answers).2.2 = answers.drop count)

theorem asks_pure {value : α} : Asks 0 (pure value : Proc State α) :=
  fun _ _ => ⟨rfl, fun _ => rfl⟩

theorem asks_call {effect : State → Option State} (h : ∀ state, (effect state).isSome = true) :
    Asks 1 (call effect) := by
  intro state answers
  obtain ⟨reached, heffect⟩ := Option.isSome_iff_exists.mp (h state)
  unfold call
  rw [heffect]
  cases answers with
  | nil => exact ⟨rfl, fun _ => rfl⟩
  | cons answer rest =>
      cases answer with
      | false => exact ⟨rfl, nofun⟩
      | true => exact ⟨rfl, fun _ => rfl⟩

/-- One procedure after another asks for the calls of both. -/
theorem asks_bind (count more : Nat) (h : Asks count first)
    (hrest : ∀ value, Asks more (rest value)) : Asks (count + more) (first >>= rest) := by
  intro state answers
  obtain ⟨hsome, hleft⟩ := h state answers
  have hall : (answers.take (count + more)).all id =
      ((answers.take count).all id && ((answers.drop count).take more).all id) := by
    rw [List.take_add, List.all_append]
  rcases hrun : first state answers with ⟨_ | value, reached, left⟩ <;>
    rw [hrun] at hsome hleft <;> rw [hall, ← hsome]
  · rw [bind_of_none hrun]
    exact ⟨rfl, fun hdone => Bool.noConfusion hdone⟩
  · obtain rfl : left = answers.drop count := hleft rfl
    obtain ⟨hrestSome, hrestLeft⟩ := hrest value reached (answers.drop count)
    rw [bind_of_some hrun, ← List.drop_drop]
    exact ⟨hrestSome, hrestLeft⟩

theorem asks_onlyIf {count : Nat} {condition : Bool} {first : Proc State Unit}
    (h : condition = true → Asks count first) (hnot : condition = false → count = 0) :
    Asks count (onlyIf condition first) := by
  cases condition with
  | false => exact hnot rfl ▸ asks_pure
  | true => exact h rfl

end RefusableCalls
