import Mathlib.Data.List.Basic

/-!
# Procedures of register reads and writes

A driver reads and writes the registers of a device of which nothing is known: what a read gives may
depend on all that has been done before. The operations are kept, the newest first, and a procedure
is run from what has been kept. `Meets` says what holds of the operations and of the value behind a
procedure, and the `meets_*` rules take a procedure apart.
-/

namespace DeviceLog

variable {Reg Val α β : Type}

/-- A register operation, with the value read or written. -/
inductive Op (Reg Val : Type)
  | read (reg : Reg) (val : Val)
  | write (reg : Reg) (val : Val)

/-- What a read gives behind these operations. -/
abbrev Device (Reg Val : Type) := List (Op Reg Val) → Reg → Val

/-- The value, and the operations with those before. -/
def Proc (Reg Val α : Type) : Type :=
  Device Reg Val → List (Op Reg Val) → α × List (Op Reg Val)

namespace Proc

instance : Monad (Proc Reg Val) where
  pure value := fun _ log => (value, log)
  bind first rest := fun device log =>
    let reached := first device log
    rest reached.1 device reached.2

/-- Read a register. -/
def read (reg : Reg) : Proc Reg Val Val := fun device log =>
  (device log reg, .read reg (device log reg) :: log)

/-- Write a register. -/
def write (reg : Reg) (val : Val) : Proc Reg Val Unit := fun _ log =>
  ((), .write reg val :: log)

/-- What the device will have done by itself, such as the time it takes. -/
def ask (view : List (Op Reg Val) → α) : Proc Reg Val α := fun _ log => (view log, log)

end Proc

/-- From operations with the first property, a procedure leaves those with the second. -/
def Meets (device : Device Reg Val) (pre : List (Op Reg Val) → Prop) (proc : Proc Reg Val α)
    (post : α → List (Op Reg Val) → Prop) : Prop :=
  ∀ log, pre log → post (proc device log).1 (proc device log).2

variable {device : Device Reg Val} {pre stronger : List (Op Reg Val) → Prop}
  {proc : Proc Reg Val α} {rest : α → Proc Reg Val β} {post weaker : α → List (Op Reg Val) → Prop}
  {final : β → List (Op Reg Val) → Prop}

theorem meets_pure {value : α} (h : ∀ log, pre log → post value log) :
    Meets device pre (pure value) post := h

theorem meets_bind (hfirst : Meets device pre proc post)
    (hrest : ∀ value, Meets device (post value) (rest value) final) :
    Meets device pre (proc >>= rest) final :=
  fun log hpre => hrest _ _ (hfirst log hpre)

theorem meets_read {reg : Reg} {after : Val → List (Op Reg Val) → Prop}
    (h : ∀ log val, pre log → after val (.read reg val :: log)) :
    Meets device pre (Proc.read reg) after :=
  fun log hpre => h log _ hpre

theorem meets_write {reg : Reg} {val : Val} {after : Unit → List (Op Reg Val) → Prop}
    (h : ∀ log, pre log → after () (.write reg val :: log)) :
    Meets device pre (Proc.write reg val) after := h

theorem meets_ask {view : List (Op Reg Val) → α}
    (h : ∀ log value, pre log → post value log) : Meets device pre (Proc.ask view) post :=
  fun log hpre => h log _ hpre

theorem meets_ite {condition : Prop} [Decidable condition] {other : Proc Reg Val α}
    (hthen : condition → Meets device pre proc post)
    (helse : ¬ condition → Meets device pre other post) :
    Meets device pre (if condition then proc else other) post := by
  split
  · next hcondition => exact hthen hcondition
  · next hcondition => exact helse hcondition

/-- What some value has before the procedure is had by that value. -/
theorem meets_exists {γ : Type} {choice : γ → List (Op Reg Val) → Prop}
    (h : ∀ value, Meets device (choice value) proc post) :
    Meets device (fun log => ∃ value, choice value log) proc post :=
  fun log ⟨value, hchoice⟩ => h value log hchoice

/-- A fact that is not about the operations is one about the procedure. -/
theorem meets_fact {fact : Prop} (h : fact → Meets device pre proc post) :
    Meets device (fun log => fact ∧ pre log) proc post :=
  fun log hboth => h hboth.1 log hboth.2

theorem Meets.strengthen (h : Meets device pre proc post)
    (hstronger : ∀ log, stronger log → pre log) : Meets device stronger proc post :=
  fun log hlog => h log (hstronger log hlog)

theorem Meets.weaken (h : Meets device pre proc post)
    (hweaker : ∀ value log, post value log → weaker value log) : Meets device pre proc weaker :=
  fun log hlog => hweaker _ _ (h log hlog)

end DeviceLog
