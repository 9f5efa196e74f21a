import Mathlib.Data.List.GetD
import Mathlib.Logic.Function.Basic

/-!
# Arrays in a memory of slots

A table of C: an array that begins somewhere in a memory, and a count of the entries in use. An
entry goes out, and one comes in, by a `memmove` of the entries behind it. On the list of the
entries that is `List.eraseIdx` and `List.insertIdx`. A loop that walks over entries as long as a
test holds is `seek`.
-/

namespace SlotArray

variable {Slot : Type*}

/-- The array that begins at a slot. -/
def view (memory : ℕ → Slot) (base : ℕ) : ℕ → Slot :=
  fun i => memory (base + i)

/-- The first entries of an array. -/
def entries (array : ℕ → Slot) (count : ℕ) : List Slot :=
  (List.range count).map array

/-- `memmove`: the target gets what the source held before. -/
def move (memory : ℕ → Slot) (dst src count : ℕ) : ℕ → Slot :=
  fun slot => if dst ≤ slot ∧ slot < dst + count then memory (src + (slot - dst)) else memory slot

/-- The index at which a loop over some more entries stops, because the test fails or they are
over. -/
def seek (test : ℕ → Bool) : ℕ → ℕ → ℕ
  | 0, start => start
  | left + 1, start => if test start then seek test left (start + 1) else start

variable {memory array : ℕ → Slot} {base other i n : ℕ} {slot : Slot}

/-! ## Entries -/

@[simp]
theorem length_entries : (entries array n).length = n := by
  simp [entries]

@[simp]
theorem getElem_entries (h : i < (entries array n).length) : (entries array n)[i] = array i := by
  simp [entries]

theorem getElem?_entries (h : i < n) : (entries array n)[i]? = some (array i) := by
  simp [entries, h]

@[simp]
theorem mem_entries : slot ∈ entries array n ↔ ∃ i < n, array i = slot := by
  simp [entries]

theorem entries_succ : entries array (n + 1) = entries array n ++ [array n] := by
  simp [entries, List.range_succ]

theorem entries_succ_eq_cons :
    entries array (n + 1) = array 0 :: entries (fun i => array (i + 1)) n := by
  simp [entries, List.range_succ_eq_map, Function.comp_def]

theorem entries_congr {others : ℕ → Slot} (h : ∀ i < n, array i = others i) :
    entries array n = entries others n :=
  List.map_congr_left fun i hi => h i (List.mem_range.mp hi)

/-- The entries are in order when those with the smaller index come first. -/
theorem pairwise_entries {order : Slot → Slot → Prop} :
    (entries array n).Pairwise order ↔ ∀ j < n, ∀ i < j, order (array i) (array j) := by
  rw [List.pairwise_iff_getElem]
  constructor
  · intro h j hj i hi
    have horder := h i j (by simp; omega) (by simpa using hj) hi
    rwa [getElem_entries, getElem_entries] at horder
  · intro h i j _ hj hlt
    rw [getElem_entries, getElem_entries]
    exact h j (by simpa using hj) i hlt

/-- Every list is the entries of an array. -/
theorem entries_getD (slots : List Slot) (default : Slot) :
    entries (slots.getD · default) slots.length = slots := by
  refine List.ext_getElem length_entries fun i _ hi => ?_
  rw [getElem_entries, List.getD_eq_getElem _ _ hi]

/-! ## Moves -/

theorem move_of_mem {dst src count : ℕ} (hle : dst ≤ i) (hlt : i < dst + count) :
    move memory dst src count i = memory (src + (i - dst)) :=
  if_pos ⟨hle, hlt⟩

theorem move_of_not_mem {dst src count : ℕ} (h : i < dst ∨ dst + count ≤ i) :
    move memory dst src count i = memory i :=
  if_neg (by omega)

/-- A move within an array. -/
theorem view_move (memory : ℕ → Slot) (base dst src count : ℕ) :
    view (move memory (base + dst) (base + src) count) base =
      move (view memory base) dst src count := by
  funext i
  unfold view
  by_cases hmem : dst ≤ i ∧ i < dst + count
  · rw [move_of_mem (by omega) (by omega), move_of_mem hmem.1 hmem.2]
    congr 1
    omega
  · rw [move_of_not_mem (by omega), move_of_not_mem (by omega)]

/-- A write to an array. -/
theorem view_update (memory : ℕ → Slot) (base i : ℕ) (slot : Slot) :
    view (Function.update memory (base + i) slot) base =
      Function.update (view memory base) i slot := by
  funext j
  unfold view
  by_cases hsame : j = i
  · rw [hsame, Function.update_self, Function.update_self]
  · rw [Function.update_of_ne (by omega), Function.update_of_ne hsame]

/-- An entry goes out: those behind it move up. -/
theorem entries_move_down (h : i < n) :
    entries (move array i (i + 1) (n - i - 1)) (n - 1) = (entries array n).eraseIdx i := by
  have hlength : (entries (move array i (i + 1) (n - i - 1)) (n - 1)).length =
      ((entries array n).eraseIdx i).length := by
    rw [List.length_eraseIdx_of_lt (by simpa using h)]
    simp
  refine List.ext_getElem hlength fun j hj _ => ?_
  rw [length_entries] at hj
  rw [getElem_entries, List.getElem_eraseIdx]
  split
  case isTrue hbefore => rw [move_of_not_mem (.inl hbefore), getElem_entries]
  case isFalse hbehind =>
    rw [move_of_mem (by omega) (by omega), getElem_entries]
    congr 1
    omega

/-- An entry comes in: those behind it move down. -/
theorem entries_move_up (h : i ≤ n) :
    entries (Function.update (move array (i + 1) i (n - i)) i slot) (n + 1) =
      (entries array n).insertIdx i slot := by
  have hlength : (entries (Function.update (move array (i + 1) i (n - i)) i slot) (n + 1)).length =
      ((entries array n).insertIdx i slot).length := by
    rw [List.length_insertIdx_of_le_length (by simpa using h)]
    simp
  refine List.ext_getElem hlength fun j hj _ => ?_
  rw [length_entries] at hj
  rw [getElem_entries, List.getElem_insertIdx]
  split
  case isTrue hbefore =>
    rw [Function.update_of_ne (Nat.ne_of_lt hbefore), move_of_not_mem (by omega), getElem_entries]
  case isFalse hnotbefore =>
    split
    case isTrue hsame => rw [hsame, Function.update_self]
    case isFalse hother =>
      rw [Function.update_of_ne hother, move_of_mem (by omega) (by omega), getElem_entries]
      congr 1
      omega

/-- What is put in front of the first entry that fails a test stands between the entries ahead of
that one and the rest. -/
theorem insertIdx_takeWhile (test : Slot → Bool) (slots : List Slot) (slot : Slot) :
    slots.insertIdx (slots.takeWhile test).length slot =
      slots.takeWhile test ++ slot :: slots.dropWhile test := by
  induction slots with
  | nil => rfl
  | cons head rest ih =>
      cases htest : test head with
      | false => simp [htest]
      | true => simpa [htest] using ih

/-! ## Loops -/

section Seek

variable {test : ℕ → Bool} {left start : ℕ}

theorem le_seek (left start : ℕ) : start ≤ seek test left start := by
  induction left generalizing start with
  | zero => exact Nat.le_refl start
  | succ left ih =>
      rw [seek]
      split
      · exact Nat.le_trans (Nat.le_succ start) (ih (start + 1))
      · exact Nat.le_refl start

theorem seek_le (left start : ℕ) : seek test left start ≤ start + left := by
  induction left generalizing start with
  | zero => exact Nat.le_refl start
  | succ left ih =>
      rw [seek]
      split
      · have hle := ih (start + 1)
        omega
      · exact Nat.le_add_right _ _

/-- The test holds of all the loop has passed. -/
theorem of_lt_seek (hle : start ≤ i) (hlt : i < seek test left start) : test i = true := by
  induction left generalizing start with
  | zero => exact absurd hlt (Nat.not_lt.mpr hle)
  | succ left ih =>
      rw [seek] at hlt
      split at hlt
      case isTrue htest =>
        rcases Nat.eq_or_lt_of_le hle with rfl | hpast
        · exact htest
        · exact ih hpast hlt
      case isFalse => exact absurd hlt (Nat.not_lt.mpr hle)

/-- Where the loop stops the test fails, or the entries are over. -/
theorem seek_stops (left start : ℕ) :
    seek test left start = start + left ∨ test (seek test left start) = false := by
  induction left generalizing start with
  | zero => exact .inl rfl
  | succ left ih =>
      rw [seek]
      split
      case isTrue =>
        rcases ih (start + 1) with hover | hfails
        · exact .inl (by omega)
        · exact .inr hfails
      case isFalse htest => exact .inr (Bool.eq_false_iff.mpr htest)

/-- From the first entry on, the loop passes the entries that `List.takeWhile` takes. -/
theorem seek_eq_length_takeWhile (test : Slot → Bool) (array : ℕ → Slot) (n : ℕ) :
    seek (fun i => test (array i)) n 0 = ((entries array n).takeWhile test).length := by
  have hfrom (left start : ℕ) : seek (fun i => test (array i)) left start =
      start + ((entries (fun i => array (start + i)) left).takeWhile test).length := by
    induction left generalizing start with
    | zero => rfl
    | succ left ih =>
        rw [seek, entries_succ_eq_cons, List.takeWhile_cons]
        simp only [Nat.add_zero]
        by_cases htest : test (array start) = true
        · rw [if_pos htest, if_pos htest, ih, List.length_cons]
          simp only [Nat.add_assoc, Nat.add_comm 1]
        · rw [if_neg htest, if_neg htest]
          rfl
  simpa using hfrom n 0

end Seek

end SlotArray
