import Mathlib.Logic.Function.Basic
import Mathlib.Data.List.Nodup

/-!
# Register files written in sequence

A register file is a function from registers to values, and a driver changes it by a list of
writes, of which later ones win. Two files written alike agree on every register the list drives
and on the others exactly where they did before: `store_eq_store_iff`, and `map_store_eq_iff` for
a list of registers read back.
-/

namespace RegisterFile

variable {Register Value : Type*}

/-- The registers that the writes drive. -/
def driven (writes : List (Register × Value)) : List Register :=
  writes.map Prod.fst

@[simp] theorem driven_append (first rest : List (Register × Value)) :
    driven (first ++ rest) = driven first ++ driven rest :=
  List.map_append

variable [DecidableEq Register]

/-- The file after the writes, in their order. -/
def store (file : Register → Value) (writes : List (Register × Value)) : Register → Value :=
  writes.foldl (fun written write => Function.update written write.1 write.2) file

variable {file other : Register → Value} {first rest writes : List (Register × Value)}
  {register : Register} {registers : List Register}

/-- Writing two lists one after the other. -/
theorem store_append : store file (first ++ rest) = store (store file first) rest :=
  List.foldl_append

/-- A register that no write drives keeps its value. -/
theorem store_of_not_driven (h : register ∉ driven writes) :
    store file writes register = file register := by
  induction writes generalizing file with
  | nil => rfl
  | cons write tail ih =>
      have hne : register ≠ write.1 := fun heq => h (heq ▸ List.mem_cons_self)
      have htail : register ∉ driven tail := fun hmem => h (List.mem_cons_of_mem _ hmem)
      calc store file (write :: tail) register
          = store (Function.update file write.1 write.2) tail register := rfl
        _ = Function.update file write.1 write.2 register := ih htail
        _ = file register := Function.update_of_ne hne _ _

/-- A register that some write drives no longer depends on the file written to. -/
theorem store_eq_of_driven (h : register ∈ driven writes) :
    store file writes register = store other writes register := by
  induction writes generalizing file other with
  | nil => exact absurd h List.not_mem_nil
  | cons write tail ih =>
      by_cases htail : register ∈ driven tail
      · exact ih htail
      · obtain heq | hmem := List.mem_cons.mp h
        · have hhead : ∀ written : Register → Value,
              store (Function.update written write.1 write.2) tail register = write.2 := by
            intro written
            rw [store_of_not_driven htail, heq, Function.update_self]
          exact (hhead file).trans (hhead other).symm
        · exact absurd hmem htail

/-- Written alike, two files agree on a register exactly if it is driven or they agreed on it. -/
theorem store_eq_store_iff :
    store file writes register = store other writes register ↔
      (register ∉ driven writes → file register = other register) := by
  by_cases h : register ∈ driven writes
  · exact iff_of_true (store_eq_of_driven h) fun hnot => absurd h hnot
  · rw [store_of_not_driven h, store_of_not_driven h]
    exact ⟨fun heq _ => heq, fun himp => himp h⟩

/-- Written alike, two files read back the same on a list of registers exactly if they agreed on
those of the list that are not driven. -/
theorem map_store_eq_iff :
    registers.map (store file writes) = registers.map (store other writes) ↔
      ∀ register ∈ registers, register ∉ driven writes → file register = other register := by
  rw [List.map_inj_left]
  exact forall₂_congr fun _ _ => store_eq_store_iff

/-- Of the writes only those of some registers count for one of them. -/
theorem store_filter (h : register ∈ registers) :
    store file (writes.filter fun write => write.1 ∈ registers) register =
      store file writes register := by
  induction writes generalizing file with
  | nil => rfl
  | cons write tail ih =>
      rw [List.filter_cons]
      split
      case isTrue => exact ih
      case isFalse hskip =>
          have hne : register ≠ write.1 := fun heq => hskip (decide_eq_true (heq ▸ h))
          rw [ih]
          exact (store_eq_store_iff.mpr fun _ => Function.update_of_ne hne _ _).symm

/-- The file has these values. -/
def Meets (file : Register → Value) (wanted : List (Register × Value)) : Prop :=
  ∀ want ∈ wanted, file want.1 = want.2

instance Meets.decidable [DecidableEq Value] (file : Register → Value)
    (wanted : List (Register × Value)) : Decidable (Meets file wanted) :=
  inferInstanceAs (Decidable (∀ want ∈ wanted, file want.1 = want.2))

/-- A write is there at the end if the others of its register are the same. -/
theorem store_eq_of_mem {write : Register × Value} (hmem : write ∈ writes)
    (hsame : ∀ other ∈ writes, other.1 = write.1 → other.2 = write.2) :
    store file writes write.1 = write.2 := by
  induction writes generalizing file with
  | nil => cases hmem
  | cons head tail ih =>
      by_cases htail : write ∈ tail
      · exact ih htail fun other hother => hsame other (List.mem_cons_of_mem _ hother)
      · obtain rfl := (List.mem_cons.mp hmem).resolve_right htail
        by_cases hdriven : write.1 ∈ driven tail
        · obtain ⟨other, hother, hregister⟩ := List.mem_map.mp hdriven
          have hvalue := hsame other (List.mem_cons_of_mem _ hother) hregister
          exact absurd (Prod.ext hregister hvalue ▸ hother) htail
        · show store (Function.update file write.1 write.2) tail write.1 = write.2
          rw [store_of_not_driven hdriven, Function.update_self]

/-- A register keeps its value under writes that all write this value to it. -/
theorem store_keeps (h : ∀ write ∈ writes, write.1 = register → write.2 = file register) :
    store file writes register = file register := by
  by_cases hdriven : register ∈ driven writes
  · obtain ⟨write, hmem, rfl⟩ := List.mem_map.mp hdriven
    rw [← h write hmem rfl]
    exact store_eq_of_mem hmem fun other hother heq =>
      (h other hother heq).trans (h write hmem rfl).symm
  · exact store_of_not_driven hdriven

/-- Where no two writes are of one register, all of them are there at the end. -/
theorem meets_store_of_nodup (h : (driven writes).Nodup) : Meets (store file writes) writes :=
  fun _ hwrite => store_eq_of_mem hwrite fun _ hother hregister =>
    congrArg Prod.snd (List.inj_on_of_nodup_map h hother hwrite hregister)

/-- Where only the middle of three lists can drive a register, it alone decides. -/
theorem middle_decides (hfirst : register ∉ driven first) (hrest : register ∉ driven rest) :
    (register ∈ driven (first ++ (writes ++ rest)) ↔ register ∈ driven writes) ∧
      ∀ file : Register → Value,
        store file (first ++ (writes ++ rest)) register = store file writes register := by
  constructor
  · simp only [driven_append, List.mem_append, hfirst, hrest, false_or, or_false]
  · intro file
    rw [store_append, store_append, store_of_not_driven hrest, store_eq_store_iff]
    exact fun _ => store_of_not_driven hfirst

/-- A file has these values after the writes exactly if it had those that no write drives, where the
writes drive the others to them. -/
theorem meets_store_iff {wanted : List (Register × Value)}
    (hdriven : ∀ want ∈ wanted, want.1 ∈ driven writes → store file writes want.1 = want.2) :
    Meets (store file writes) wanted ↔
      ∀ want ∈ wanted, want.1 ∉ driven writes → file want.1 = want.2 := by
  refine forall₂_congr fun want hwant => ?_
  by_cases h : want.1 ∈ driven writes
  · exact iff_of_true (hdriven want hwant h) fun hnot => absurd h hnot
  · rw [store_of_not_driven h]
    exact ⟨fun heq _ => heq, fun himp => himp h⟩

/-- Writes of other registers do not matter. -/
theorem meets_store_of_disjoint {wanted : List (Register × Value)}
    (h : ∀ want ∈ wanted, want.1 ∉ driven writes) :
    Meets (store file writes) wanted ↔ Meets file wanted :=
  forall₂_congr fun want hwant => by rw [store_of_not_driven (h want hwant)]

/-! ## Writes that change nothing -/

/-- The file is as the writes would leave it. -/
def Settled (file : Register → Value) (writes : List (Register × Value)) : Prop :=
  ∀ register ∈ driven writes, store file writes register = file register

instance Settled.decidable [DecidableEq Value] (file : Register → Value)
    (writes : List (Register × Value)) : Decidable (Settled file writes) :=
  inferInstanceAs (Decidable (∀ register ∈ driven writes, _))

theorem settled_store : Settled (store file writes) writes :=
  fun _ hdriven => store_eq_of_driven hdriven

/-- Only the registers that the writes drive count. -/
theorem Settled.congr (h : Settled file writes)
    (hsame : ∀ register ∈ driven writes, other register = file register) :
    Settled other writes := fun register hdriven =>
  (store_eq_of_driven hdriven).trans ((h register hdriven).trans (hsame register hdriven).symm)

/-! ## Writes that commute -/

/-- Two lists of writes give the same value to every register that both drive. -/
def Compatible (first rest : List (Register × Value)) : Prop :=
  ∀ file : Register → Value, ∀ register ∈ driven first, register ∈ driven rest →
    store file first register = store file rest register

theorem Compatible.refl (writes : List (Register × Value)) : Compatible writes writes :=
  fun _ _ _ _ => rfl

theorem Compatible.symm (h : Compatible first rest) : Compatible rest first :=
  fun file register hrest hfirst => (h file register hfirst hrest).symm

/-- What is driven later is what counts. -/
theorem store_append_of_driven (h : register ∈ driven rest) :
    store file (first ++ rest) register = store file rest register := by
  rw [store_append]
  exact store_eq_of_driven h

/-- What is not driven later is as it was. -/
theorem store_append_of_not_driven (h : register ∉ driven rest) :
    store file (first ++ rest) register = store file first register := by
  rw [store_append, store_of_not_driven h]

/-- Lists that come out the same in both orders, in some file, are compatible. -/
theorem compatible_of_swap (h : store file (first ++ rest) = store file (rest ++ first)) :
    Compatible first rest := by
  intro other register hfirst hrest
  calc store other first register
      = store file first register := store_eq_of_driven hfirst
    _ = store file (rest ++ first) register := (store_append_of_driven hfirst).symm
    _ = store file (first ++ rest) register := (congrFun h register).symm
    _ = store file rest register := store_append_of_driven hrest
    _ = store other rest register := store_eq_of_driven hrest

/-- Where no two writes of the first list are of one register, only its own values matter. -/
theorem compatible_iff_of_nodup (h : (driven first).Nodup) :
    Compatible first rest ↔ ∀ file : Register → Value, ∀ write ∈ first,
      write.1 ∈ driven rest → store file rest write.1 = write.2 := by
  constructor
  · intro hcompatible file write hwrite hrest
    rw [← hcompatible file write.1 (List.mem_map_of_mem hwrite) hrest]
    exact meets_store_of_nodup h write hwrite
  · intro hmeets file register hfirst hrest
    obtain ⟨write, hwrite, rfl⟩ := List.mem_map.mp hfirst
    rw [hmeets file write hwrite hrest]
    exact meets_store_of_nodup h write hwrite

section Family

variable {Index : Type*} {writes : Index → List (Register × Value)} {word other : List Index}
  {index : Index}

omit [DecidableEq Register] in
theorem mem_driven_flatMap :
    register ∈ driven (word.flatMap writes) ↔ ∃ index ∈ word, register ∈ driven (writes index) := by
  rw [driven, List.map_flatMap, List.mem_flatMap]
  rfl

/-- Among compatible lists, written in any order and any number of times, each that takes part gives
the registers it drives their values. -/
theorem store_flatMap (h : ∀ first rest, Compatible (writes first) (writes rest))
    (hindex : index ∈ word) (hdriven : register ∈ driven (writes index)) :
    store file (word.flatMap writes) register = store file (writes index) register := by
  induction word generalizing index with
  | nil => exact absurd hindex List.not_mem_nil
  | cons head tail ih =>
      rw [List.flatMap_cons]
      by_cases hlater : register ∈ driven (tail.flatMap writes)
      · obtain ⟨later, hmem, hboth⟩ := mem_driven_flatMap.mp hlater
        rw [store_append_of_driven hlater, ih hmem hboth]
        exact h later index file register hboth hdriven
      · have hhead : index ∉ tail := fun hmem => hlater (mem_driven_flatMap.mpr ⟨_, hmem, hdriven⟩)
        rw [store_append_of_not_driven hlater, (List.mem_cons.mp hindex).resolve_right hhead]

/-- A register that no list drives is left as it was. -/
theorem store_flatMap_of_not_driven (h : ∀ index ∈ word, register ∉ driven (writes index)) :
    store file (word.flatMap writes) register = file register :=
  store_of_not_driven fun hmem =>
    let ⟨index, hindex, hdriven⟩ := mem_driven_flatMap.mp hmem
    h index hindex hdriven

/-- Compatible lists come to the same in every order in which the same of them take part. -/
theorem store_flatMap_congr (h : ∀ first rest, Compatible (writes first) (writes rest))
    (hsame : ∀ index, index ∈ word ↔ index ∈ other) :
    store file (word.flatMap writes) = store file (other.flatMap writes) := by
  funext register
  by_cases hdriven : ∃ index ∈ word, register ∈ driven (writes index)
  · obtain ⟨index, hindex, hregister⟩ := hdriven
    rw [store_flatMap h hindex hregister, store_flatMap h ((hsame index).mp hindex) hregister]
  · have hnone : ∀ index ∈ word, register ∉ driven (writes index) := fun index hindex hregister =>
      hdriven ⟨index, hindex, hregister⟩
    rw [store_flatMap_of_not_driven hnone,
      store_flatMap_of_not_driven fun index hindex => hnone index ((hsame index).mpr hindex)]

end Family

end RegisterFile
