import Mathlib.Data.List.Pairwise

/-!
# Memories written in pieces

A piece replaces what a memory holds at some of its addresses. `applyAll_of_mem` says that pieces
that do not overlap are all there in the end, whatever their order, and `applyAll_of_uncovered` that
nothing else has changed.
-/

namespace Patches

variable {Addr Val : Type*}

/-- A piece of memory: where it goes, and what is there then. -/
structure Patch (Addr Val : Type*) where
  covers : Addr → Bool
  value : Addr → Val

/-- No address is in both pieces. -/
def Patch.Apart (patch other : Patch Addr Val) : Prop :=
  ∀ addr, ¬(patch.covers addr = true ∧ other.covers addr = true)

/-- Write one piece. -/
def apply (memory : Addr → Val) (patch : Patch Addr Val) : Addr → Val := fun addr =>
  if patch.covers addr then patch.value addr else memory addr

/-- Write one piece after another. -/
def applyAll (memory : Addr → Val) (patches : List (Patch Addr Val)) : Addr → Val :=
  patches.foldl apply memory

variable {memory : Addr → Val} {patches : List (Patch Addr Val)} {patch : Patch Addr Val}
  {addr : Addr}

/-- What no piece covers is left alone. -/
theorem applyAll_of_uncovered (h : ∀ patch ∈ patches, patch.covers addr = false) :
    applyAll memory patches addr = memory addr := by
  induction patches generalizing memory with
  | nil => rfl
  | cons head rest ih =>
      have hhead : head.covers addr = false := h head List.mem_cons_self
      show applyAll (apply memory head) rest addr = memory addr
      rw [ih fun patch hpatch => h patch (List.mem_cons_of_mem head hpatch)]
      simp [apply, hhead]

/-- A piece that no other overlaps is there in the end. -/
theorem applyAll_of_mem (hpieces : patches.Pairwise Patch.Apart) (hmem : patch ∈ patches)
    (hcovers : patch.covers addr = true) : applyAll memory patches addr = patch.value addr := by
  induction patches generalizing memory with
  | nil => cases hmem
  | cons head rest ih =>
      obtain ⟨hhead, hrest⟩ := List.pairwise_cons.mp hpieces
      show applyAll (apply memory head) rest addr = patch.value addr
      obtain rfl | hlater := List.mem_cons.mp hmem
      · -- no later piece covers the address
        rw [applyAll_of_uncovered fun other hother =>
          Bool.eq_false_iff.mpr fun hboth => hhead other hother addr ⟨hcovers, hboth⟩]
        simp [apply, hcovers]
      · exact ih hrest hlater

end Patches
