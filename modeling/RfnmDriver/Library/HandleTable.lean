import Mathlib.Data.List.FinRange
import Mathlib.Data.List.Perm.Basic
import Mathlib.Logic.Function.Basic

/-!
# Tables of handles swapped with `xchg`

An array of pointers, each slot null or one handle, written only by the atomic `xchg`. The caller
gets what was in the slot before, so handles are neither lost nor duplicated:
`handles_update_perm`.
-/

namespace HandleTable

variable {size : Nat} {Handle : Type*}

/-- Handles named by an index are compared by it. -/
scoped instance lawfulBEq_fin : LawfulBEq (Fin size) := inferInstance

/-- The handles resident in a table. -/
def handles (table : Fin size → Option Handle) : List Handle :=
  (List.finRange size).flatMap fun index => (table index).toList

/-- An array of null pointers holds no handle. -/
@[simp] theorem handles_none : handles (fun _ : Fin size => (none : Option Handle)) = [] := by
  simp [handles, List.flatMap_eq_nil_iff]

/-- `xchg(&table[index], new)` hands out the old content against the new one. -/
theorem handles_update_perm (table : Fin size → Option Handle) (index : Fin size)
    (new : Option Handle) :
    ((table index).toList ++ handles (Function.update table index new)).Perm
      (new.toList ++ handles table) := by
  obtain ⟨front, back, hsplit⟩ := List.append_of_mem (List.mem_finRange index)
  have hnodup := List.nodup_finRange size
  rw [hsplit] at hnodup
  have hother : ∀ list : List (Fin size), index ∉ list →
      (list.flatMap fun other => (Function.update table index new other).toList) =
        list.flatMap fun other => (table other).toList := by
    intro list hmem
    refine List.flatMap_congr fun other hother => ?_
    have hne : other ≠ index := by grind
    simp [hne]
  simp only [handles, hsplit, List.flatMap_append, List.flatMap_cons, Function.update_self,
    hother front (by grind), hother back (by grind)]
  -- both sides hold the two contents, and the rest of the table
  have hleft := List.perm_append_comm_assoc (table index).toList
    (front.flatMap fun other => (table other).toList)
    (new.toList ++ back.flatMap fun other => (table other).toList)
  have hright := List.perm_append_comm_assoc new.toList
    (front.flatMap fun other => (table other).toList)
    ((table index).toList ++ back.flatMap fun other => (table other).toList)
  refine hleft.trans ((List.Perm.append_left _ ?_).trans hright.symm)
  exact List.perm_append_comm_assoc _ _ _

end HandleTable
