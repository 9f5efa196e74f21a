import Mathlib.Data.Option.Basic
import Mathlib.Logic.Function.Basic

/-!
# Owners of slots

Each owner has at most one slot of a shared pool and may give it up. `Exclusive` says no slot has
two owners, `Apart` that no slot with an owner is also held from outside the owners. Giving slots
up keeps both (`Exclusive.weaken`, `Apart.weaken`); taking one keeps both when it has no other
owner and is not held (`Exclusive.take`, `Apart.take`).
-/

namespace Ownership

variable {Owner Slot : Type*} {owned weaker : Owner → Option Slot} {held more : Slot → Prop}

/-- No slot has two owners. -/
def Exclusive (owned : Owner → Option Slot) : Prop :=
  ∀ ⦃first second slot⦄, slot ∈ owned first → slot ∈ owned second → first = second

/-- No slot with an owner is held. -/
def Apart (owned : Owner → Option Slot) (held : Slot → Prop) : Prop :=
  ∀ ⦃owner slot⦄, slot ∈ owned owner → ¬held slot

/-- No owner but this one has the slot. -/
def Unowned (owned : Owner → Option Slot) (owner : Owner) (slot : Slot) : Prop :=
  ∀ ⦃other⦄, other ≠ owner → slot ∉ owned other

/-- Owners that give slots up take no other. -/
theorem Exclusive.weaken (h : Exclusive owned)
    (hweaker : ∀ owner slot, slot ∈ weaker owner → slot ∈ owned owner) : Exclusive weaker := by
  intro first second slot hfirst hsecond
  exact h (hweaker first slot hfirst) (hweaker second slot hsecond)

/-- With fewer slots owned, and no more of them held, none is both. -/
theorem Apart.weaken (h : Apart owned held)
    (hweaker : ∀ owner slot, slot ∈ weaker owner → slot ∈ owned owner)
    (hmore : ∀ owner slot, slot ∈ weaker owner → more slot → held slot) : Apart weaker more := by
  intro owner slot hslot hheld
  exact h (hweaker owner slot hslot) (hmore owner slot hslot hheld)

/-- What an owner has, no other owner does. -/
theorem Exclusive.unowned (h : Exclusive owned) {owner : Owner} {slot : Slot}
    (hslot : slot ∈ owned owner) : Unowned owned owner slot := by
  intro other hother howns
  exact hother (h howns hslot)

variable [DecidableEq Owner]

/-- An owner may take a slot no other owner has. -/
theorem Exclusive.take (h : Exclusive owned) {owner : Owner} {slot : Slot}
    (hfree : Unowned owned owner slot) :
    Exclusive (Function.update owned owner (some slot)) := by
  intro first second taken hfirst hsecond
  by_cases hone : first = owner <;> by_cases htwo : second = owner
  · exact hone.trans htwo.symm
  · subst hone
    simp only [Function.update_self, Function.update_of_ne htwo, Option.mem_def,
      Option.some.injEq] at hfirst hsecond
    subst hfirst
    exact absurd hsecond (hfree htwo)
  · subst htwo
    simp only [Function.update_self, Function.update_of_ne hone, Option.mem_def,
      Option.some.injEq] at hfirst hsecond
    subst hsecond
    exact absurd hfirst (hfree hone)
  · rw [Function.update_of_ne hone] at hfirst
    rw [Function.update_of_ne htwo] at hsecond
    exact h hfirst hsecond

/-- Where taking a slot leaves the owners exclusive, no other owner had it. -/
theorem Exclusive.unowned_of_take {owner : Owner} {slot : Slot}
    (h : Exclusive (Function.update owned owner (some slot))) :
    Unowned owned owner slot := by
  intro other hother howns
  have hkept : slot ∈ Function.update owned owner (some slot) other := by
    rw [Function.update_of_ne hother]
    exact howns
  have hown : slot ∈ Function.update owned owner (some slot) owner := by
    rw [Function.update_self]
    rfl
  exact hother (h hkept hown)

/-- An owner may take a slot that is not held. -/
theorem Apart.take (h : Apart owned held) {owner : Owner} {slot : Slot} (hfree : ¬held slot) :
    Apart (Function.update owned owner (some slot)) held := by
  intro other taken howns
  by_cases hsame : other = owner
  · subst hsame
    simp only [Function.update_self, Option.mem_def, Option.some.injEq] at howns
    exact howns ▸ hfree
  · rw [Function.update_of_ne hsame] at howns
    exact h howns

/-- An owner may take a slot exactly when no other owner has it and it is not held. -/
theorem take_iff (hexclusive : Exclusive owned) (hapart : Apart owned held) {owner : Owner}
    {slot : Slot} :
    Exclusive (Function.update owned owner (some slot)) ∧
        Apart (Function.update owned owner (some slot)) held ↔
      Unowned owned owner slot ∧ ¬held slot := by
  constructor
  · rintro ⟨htaken, hheld⟩
    refine ⟨htaken.unowned_of_take, @hheld owner slot ?_⟩
    rw [Function.update_self]
    rfl
  · rintro ⟨hunowned, hfree⟩
    exact ⟨hexclusive.take hunowned, hapart.take hfree⟩

/-- With one more slot held, the owners stay apart from what is held exactly when neither the slot
taken nor another owner's is the one now held. -/
theorem apart_take_iff {owner : Owner} {slot given : Slot} :
    Apart (Function.update owned owner (some slot)) (fun other => held other ∨ other = given) ↔
      Apart (Function.update owned owner (some slot)) held ∧ slot ≠ given ∧
        Unowned owned owner given := by
  constructor
  · intro h
    refine ⟨fun other taken howns hheld => h howns (Or.inl hheld), fun hsame => ?_, ?_⟩
    · refine @h owner slot ?_ (Or.inr hsame)
      rw [Function.update_self]
      rfl
    · intro other hother howns
      refine @h other given ?_ (Or.inr rfl)
      rwa [Function.update_of_ne hother]
  · rintro ⟨hapart, hne, hunowned⟩ other taken howns (hheld | rfl)
    · exact hapart howns hheld
    · by_cases hsame : other = owner
      · subst hsame
        rw [Function.update_self] at howns
        exact hne (Option.some.inj howns)
      · rw [Function.update_of_ne hsame] at howns
        exact hunowned hsame howns

end Ownership
