import Mathlib.Algebra.Group.Nat.Defs
import Mathlib.Algebra.Order.Group.Int
import Mathlib.Algebra.Order.Group.Unbundled.Abs
import RfnmDriver.Library.TolerantChoice

/-!
# Transmit states by the power they give

The power map of a Lime board has a record for each measured state of the transmit front end: at
a frequency, with an amplifier mask and a pad code, so many hundredths of a dBm.
`rfnm_lime_txdbm_pick` looks for the state that comes nearest to a requested level, between the two
map frequencies next to the requested one. Read `pick_nearest_iff` first: the state it picks can be
farther from the request than the nearest by more than the quarter of a dB that fewer amplifier
stages are worth, in some order of the records, and the condition says for which maps.
-/

namespace RfnmDriver.Lime

open TolerantChoice Preference

/-- The latch mask and the raw TXPAD code of a composition state. -/
structure DbmState where
  mask : UInt8
  code : UInt8
  deriving DecidableEq, Repr

/-- `struct rfnm_txdbm_rec`. -/
structure TxdbmRec where
  freqKhz : UInt32
  mask : UInt8
  code : UInt8
  cdbm : Int16
  deriving DecidableEq, Repr

def TxdbmRec.state (rec : TxdbmRec) : DbmState := ⟨rec.mask, rec.code⟩

/-- `txdbm_map`, with as many records as `txdbm_n` says. -/
abbrev TxdbmMap := List TxdbmRec

namespace TxdbmMap

variable (map : TxdbmMap)

/-- What `rfnm_lime_txdbm_at` finds for a state at a map frequency: the last record counts. -/
def recordedAt (freqKhz : Nat) (state : DbmState) : Option Int :=
  map.foldl (fun found rec =>
    if rec.state = state ∧ rec.freqKhz.toNat = freqKhz then some rec.cdbm.toInt else found) none

/-- `rfnm_lime_txdbm_at`; none for `INT_MIN`. -/
def txdbmAt (f0 f1 fq : Nat) (state : DbmState) : Option Int :=
  match map.recordedAt f0 state, map.recordedAt f1 state with
  | some v0, some v1 =>
      some (if f1 = f0 then v0 else v0 + ((v1 - v0) * ((fq : Int) - f0)).tdiv ((f1 : Int) - f0))
  | _, _ => none

/-- The last map frequency that is not above, 0 if there is none. -/
def below (fq : Nat) : Nat :=
  map.foldl (fun f0 rec =>
    if rec.freqKhz.toNat ≤ fq ∧ f0 < rec.freqKhz.toNat then rec.freqKhz.toNat else f0) 0

/-- The first map frequency that is not below, `0xFFFFFFFF` if there is none. -/
def above (fq : Nat) : Nat :=
  map.foldl (fun f1 rec =>
    if fq ≤ rec.freqKhz.toNat ∧ rec.freqKhz.toNat < f1 then rec.freqKhz.toNat else f1) 0xFFFFFFFF

/-- The bracketing map frequencies, clamped at the ends. -/
def bracket (fq : Nat) : Option (Nat × Nat) :=
  let f0 := if map.below fq = 0 then map.above fq else map.below fq
  let f1 := if map.above fq = 0xFFFFFFFF then f0 else map.above fq
  if f0 = 0 ∨ f1 = 0xFFFFFFFF then none else some (f0, f1)

end TxdbmMap

/-- What `rfnm_lime_txdbm_pick` reports: `*out_mask` and `*out_code`, and `*out_pred`. -/
structure DbmPick where
  state : DbmState
  pred : Int
  deriving DecidableEq, Repr

/-- `pas`: the amplifier stages of a state. -/
def DbmState.pas (state : DbmState) : Nat :=
  (state.mask &&& 1).toNat + ((state.mask >>> 1) &&& 1).toNat

/-- `err`. -/
def levelErr (req v : Int) : Int :=
  if req < v then v - req else req - v

/-- What the loop holds after a state with a level. -/
def DbmPick.better (req : Int) (best : Option DbmPick) (pick : DbmPick) : Option DbmPick :=
  match best with
  | none => some pick
  | some held =>
      if levelErr req pick.pred + 25 < levelErr req held.pred ∨
          levelErr req pick.pred ≤ levelErr req held.pred + 25 ∧
            pick.state.pas < held.state.pas then some pick
      else best

namespace TxdbmMap

variable (map : TxdbmMap)

/-- `fq`. -/
def freqKhz (freqHz : Nat) : Nat := freqHz / 1000 % 2 ^ 32

/-- A round of the loop of `rfnm_lime_txdbm_pick`. -/
def consider (f0 f1 fq : Nat) (req : Int) (best : Option DbmPick) (rec : TxdbmRec) :
    Option DbmPick :=
  if rec.freqKhz.toNat ≠ f0 then best
  else
    match map.txdbmAt f0 f1 fq rec.state with
    | none => best
    | some v => DbmPick.better req best ⟨rec.state, v⟩

/-- `rfnm_lime_txdbm_pick`; none for -1. -/
def txdbmPick (freqHz : Nat) (req : Int) : Option DbmPick :=
  match map.bracket (freqKhz freqHz) with
  | none => none
  | some (f0, f1) => map.foldl (map.consider f0 f1 (freqKhz freqHz) req) none

/-! ## Candidates -/

/-- The level of a state at the requested frequency, if it is present at both bracketing map
frequencies. -/
def level (freqHz : Nat) (state : DbmState) : Option Int :=
  (map.bracket (freqKhz freqHz)).bind fun (f0, f1) =>
    map.txdbmAt f0 f1 (freqKhz freqHz) state

/-- The state of a record at the lower bracketing frequency, if it has a level. -/
def stateOf (f0 f1 fq : Nat) (rec : TxdbmRec) : Option DbmState :=
  if rec.freqKhz.toNat = f0 ∧ (map.txdbmAt f0 f1 fq rec.state).isSome then some rec.state else none

/-- The states with a level, in the order of their records. -/
def candidates (freqHz : Nat) : List DbmState :=
  match map.bracket (freqKhz freqHz) with
  | none => []
  | some (f0, f1) => map.filterMap (map.stateOf f0 f1 (freqKhz freqHz))

/-- The preference of the loop: a quarter of a dB is what fewer stages are worth. -/
def preference (freqHz : Nat) (req : Int) : Preference DbmState where
  dist state := levelErr req ((map.level freqHz state).getD 0)
  cost := DbmState.pas
  slack := 25
  slack_nonneg := Int.natCast_nonneg 25

/-- The same records in another order, with the same level for each state and map frequency. -/
structure Reordered (other : TxdbmMap) : Prop where
  perm : other.Perm map
  same : ∀ freqKhz state, other.recordedAt freqKhz state = map.recordedAt freqKhz state

variable {map} {other : TxdbmMap} {freqHz f0 f1 : Nat} {req : Int} {state : DbmState}

/-- Only the records of the state at the frequency count. -/
theorem recordedAt_eq (map : TxdbmMap) (freqKhz : Nat) (state : DbmState) :
    map.recordedAt freqKhz state =
      ((map.filter fun rec => rec.state = state ∧ rec.freqKhz.toNat = freqKhz).foldl
        (fun _ rec => some rec.cdbm.toInt) none) := by
  rw [List.foldl_filter]
  simp only [decide_eq_true_eq]
  rfl

/-- A level is recorded in a record. -/
theorem exists_of_recordedAt {freqKhz : Nat} {v : Int} (h : map.recordedAt freqKhz state = some v) :
    ∃ rec ∈ map, rec.state = state ∧ rec.freqKhz.toNat = freqKhz := by
  rw [recordedAt_eq] at h
  cases hmatches : map.filter fun rec => rec.state = state ∧ rec.freqKhz.toNat = freqKhz with
  | nil =>
      rw [hmatches] at h
      cases h
  | cons rec rest =>
      have hrec : rec ∈ map.filter fun rec => rec.state = state ∧ rec.freqKhz.toNat = freqKhz :=
        hmatches ▸ List.mem_cons_self ..
      obtain ⟨hmem, hmatch⟩ := List.mem_filter.mp hrec
      exact ⟨rec, hmem, of_decide_eq_true hmatch⟩

theorem level_eq (hbracket : map.bracket (freqKhz freqHz) = some (f0, f1)) (state : DbmState) :
    map.level freqHz state = map.txdbmAt f0 f1 (freqKhz freqHz) state := by
  unfold level
  rw [hbracket]
  rfl

/-- A state with a level is recorded at both bracketing frequencies. -/
theorem level_isSome_iff (hbracket : map.bracket (freqKhz freqHz) = some (f0, f1)) :
    (map.level freqHz state).isSome ↔
      (map.recordedAt f0 state).isSome ∧ (map.recordedAt f1 state).isSome := by
  rw [level_eq hbracket]
  unfold txdbmAt
  cases map.recordedAt f0 state <;> cases map.recordedAt f1 state <;> simp

theorem mem_candidates_iff : state ∈ map.candidates freqHz ↔ (map.level freqHz state).isSome := by
  cases hbracket : map.bracket (freqKhz freqHz) with
  | none => simp [candidates, level, hbracket]
  | some ends =>
      obtain ⟨f0, f1⟩ := ends
      unfold candidates
      rw [hbracket]
      simp only [List.mem_filterMap, stateOf, Option.ite_none_right_eq_some, Option.some.injEq]
      constructor
      · rintro ⟨rec, -, ⟨-, hlevel⟩, rfl⟩
        rwa [level_eq hbracket]
      · intro hlevel
        obtain ⟨v0, hv0⟩ := Option.isSome_iff_exists.mp ((level_isSome_iff hbracket).mp hlevel).1
        obtain ⟨rec, hrec, rfl, hfreq⟩ := exists_of_recordedAt hv0
        exact ⟨rec, hrec, ⟨hfreq, level_eq hbracket _ ▸ hlevel⟩, rfl⟩

/-- What is reported of a state. -/
def pickOf (map : TxdbmMap) (freqHz : Nat) (state : DbmState) : DbmPick :=
  ⟨state, (map.level freqHz state).getD 0⟩

/-- A round of the loop is a round of the scan. -/
theorem better_pickOf (held new : DbmState) :
    DbmPick.better req (some (map.pickOf freqHz held)) (map.pickOf freqHz new) =
      some (map.pickOf freqHz ((map.preference freqHz req).keep held new)) := by
  unfold keep
  show (if (map.preference freqHz req).Beats new held then _ else _) = _
  split <;> rfl

variable (req) in
/-- A round passes a record over, or it is a round of the scan. -/
theorem consider_eq (hbracket : map.bracket (freqKhz freqHz) = some (f0, f1)) (rec : TxdbmRec) :
    (∀ best, map.consider f0 f1 (freqKhz freqHz) req best rec = best) ∧
        map.stateOf f0 f1 (freqKhz freqHz) rec = none ∨
      (∀ best, map.consider f0 f1 (freqKhz freqHz) req best rec =
          DbmPick.better req best (map.pickOf freqHz rec.state)) ∧
        map.stateOf f0 f1 (freqKhz freqHz) rec = some rec.state := by
  unfold consider stateOf pickOf
  rw [level_eq hbracket]
  by_cases hfreq : rec.freqKhz.toNat = f0
  · cases map.txdbmAt f0 f1 (freqKhz freqHz) rec.state <;> simp [hfreq]
  · simp [hfreq]

/-- The loop over the records that are left, with the state it holds. -/
theorem foldl_consider (hbracket : map.bracket (freqKhz freqHz) = some (f0, f1))
    (records : TxdbmMap) (held : DbmState) :
    records.foldl (map.consider f0 f1 (freqKhz freqHz) req) (some (map.pickOf freqHz held)) =
      some (map.pickOf freqHz ((records.filterMap (map.stateOf f0 f1 (freqKhz freqHz))).foldl
        (map.preference freqHz req).keep held)) := by
  induction records generalizing held with
  | nil => rfl
  | cons rec records ih =>
      obtain ⟨hconsider, hstate⟩ | ⟨hconsider, hstate⟩ := consider_eq req hbracket rec
      · rw [List.foldl_cons, hconsider, List.filterMap_cons_none hstate]
        exact ih held
      · rw [List.foldl_cons, hconsider, List.filterMap_cons_some hstate, better_pickOf]
        exact ih _

/-- Before the first candidate the loop holds none. -/
theorem foldl_consider_none (hbracket : map.bracket (freqKhz freqHz) = some (f0, f1))
    (records : TxdbmMap) :
    records.foldl (map.consider f0 f1 (freqKhz freqHz) req) none =
      ((map.preference freqHz req).choose
        (records.filterMap (map.stateOf f0 f1 (freqKhz freqHz)))).map (map.pickOf freqHz) := by
  induction records with
  | nil => rfl
  | cons rec records ih =>
      obtain ⟨hconsider, hstate⟩ | ⟨hconsider, hstate⟩ := consider_eq req hbracket rec
      · rw [List.foldl_cons, hconsider, List.filterMap_cons_none hstate]
        exact ih
      · rw [List.foldl_cons, hconsider, List.filterMap_cons_some hstate]
        exact foldl_consider hbracket records rec.state

/-- The loop is the scan of the candidates. -/
theorem txdbmPick_eq (map : TxdbmMap) (freqHz : Nat) (req : Int) :
    map.txdbmPick freqHz req =
      ((map.preference freqHz req).choose (map.candidates freqHz)).map (map.pickOf freqHz) := by
  unfold txdbmPick candidates
  cases hbracket : map.bracket (freqKhz freqHz) with
  | none => rfl
  | some ends => exact foldl_consider_none hbracket map

/-! ## Reordered maps -/

/-- The bracket does not depend on the order. -/
theorem bracket_perm (hperm : other.Perm map) (fq : Nat) : other.bracket fq = map.bracket fq := by
  have hbelow : other.below fq = map.below fq := by
    refine hperm.foldl_eq' (fun a _ b _ f0 => ?_) 0
    grind
  have habove : other.above fq = map.above fq := by
    refine hperm.foldl_eq' (fun a _ b _ f1 => ?_) _
    grind
  unfold bracket
  rw [hbelow, habove]

theorem Reordered.txdbmAt_eq (h : map.Reordered other) (f0 f1 fq : Nat) :
    other.txdbmAt f0 f1 fq = map.txdbmAt f0 f1 fq := by
  funext state
  unfold txdbmAt
  rw [h.same, h.same]

theorem Reordered.stateOf_eq (h : map.Reordered other) (f0 f1 fq : Nat) :
    other.stateOf f0 f1 fq = map.stateOf f0 f1 fq := by
  unfold stateOf
  rw [h.txdbmAt_eq]

theorem Reordered.level_eq (h : map.Reordered other) (freqHz : Nat) :
    other.level freqHz = map.level freqHz := by
  funext state
  unfold level
  rw [bracket_perm h.perm]
  refine congrArg _ (funext fun ends => ?_)
  dsimp only
  rw [h.txdbmAt_eq]

theorem Reordered.preference_eq (h : map.Reordered other) (freqHz : Nat) (req : Int) :
    other.preference freqHz req = map.preference freqHz req := by
  unfold preference
  rw [h.level_eq]

/-- The candidates of a reordered map are the candidates of the map. -/
theorem Reordered.candidates_perm (h : map.Reordered other) (freqHz : Nat) :
    (other.candidates freqHz).Perm (map.candidates freqHz) := by
  cases hbracket : map.bracket (freqKhz freqHz) with
  | none =>
      unfold candidates
      rw [bracket_perm h.perm, hbracket]
  | some ends =>
      obtain ⟨f0, f1⟩ := ends
      unfold candidates
      rw [bracket_perm h.perm, hbracket]
      dsimp only
      rw [h.stateOf_eq]
      exact h.perm.filterMap _

/-- A map arranged by the states of its records. -/
theorem reordered_arrange (map : TxdbmMap) (tests : List (DbmState → Bool)) :
    map.Reordered (arrange (tests.map fun test rec => test (TxdbmRec.state rec)) map) where
  perm := arrange_perm _ map
  same freqKhz state := by
    have hkept : (arrange (tests.map fun test rec => test (TxdbmRec.state rec)) map).filter
          (fun rec => rec.state = state ∧ rec.freqKhz.toNat = freqKhz) =
        map.filter fun rec => rec.state = state ∧ rec.freqKhz.toNat = freqKhz := by
      refine filter_arrange (fun test htest a b ha hb => ?_) map
      obtain ⟨plain, -, rfl⟩ := List.mem_map.mp htest
      show plain a.state = plain b.state
      rw [(of_decide_eq_true ha).1, (of_decide_eq_true hb).1]
    rw [recordedAt_eq, hkept, ← recordedAt_eq]

/-- Its candidates are arranged in the same way. -/
theorem candidates_arrange (map : TxdbmMap) (tests : List (DbmState → Bool)) (freqHz : Nat) :
    candidates (arrange (tests.map fun test rec => test (TxdbmRec.state rec)) map) freqHz =
      arrange tests (map.candidates freqHz) := by
  have hreordered := reordered_arrange map tests
  unfold candidates
  rw [bracket_perm hreordered.perm]
  cases hbracket : map.bracket (freqKhz freqHz) with
  | none => exact (arrange_perm tests []).eq_nil.symm
  | some ends =>
      obtain ⟨f0, f1⟩ := ends
      dsimp only
      rw [hreordered.stateOf_eq]
      refine filterMap_arrange (fun rec state hstate => ?_) tests map
      exact Option.some.inj (Option.ite_none_right_eq_some.mp hstate).2

/-! ## The nearest state -/

theorem pas_le (state : DbmState) : state.pas ≤ 2 := by
  have hlow : ∀ bits : UInt8, (bits &&& 1).toNat ≤ 1 := fun bits => by
    rw [UInt8.toNat_and]
    exact Nat.and_le_right
  have hfirst := hlow state.mask
  have hsecond := hlow (state.mask >>> 1)
  unfold DbmState.pas
  omega

/-- The state picked is nearest to the request, but for the slack. -/
def Nearest (map : TxdbmMap) (freqHz : Nat) (req : Int) (pick : DbmPick) : Prop :=
  ∀ state ∈ map.candidates freqHz, ∀ v ∈ map.level freqHz state,
    |pick.pred - req| ≤ |v - req| + 25

theorem levelErr_eq (req v : Int) : levelErr req v = |v - req| := by
  unfold levelErr
  split
  case isTrue h => rw [abs_of_pos (Int.sub_pos_of_lt h)]
  case isFalse h => rw [abs_of_nonpos (by omega), Int.neg_sub]

/-- It is, exactly if it is near in the sense of the scan. -/
theorem nearest_pickOf_iff (state : DbmState) :
    map.Nearest freqHz req (map.pickOf freqHz state) ↔
      (map.preference freqHz req).Near (map.candidates freqHz) state := by
  unfold Nearest
  refine forall₂_congr fun other hother => ?_
  obtain ⟨v, hv⟩ := Option.isSome_iff_exists.mp (mem_candidates_iff.mp hother)
  show (∀ v ∈ map.level freqHz other, _) ↔
    levelErr req ((map.level freqHz state).getD 0) ≤
      levelErr req ((map.level freqHz other).getD 0) + 25
  rw [hv, levelErr_eq, levelErr_eq]
  simp [pickOf]

/-- A successful pick is a candidate with its interpolated level, in every map. It is the nearest,
but for a quarter of a dB, in every order of the records exactly if the candidates do not climb. -/
theorem pick_nearest_iff (map : TxdbmMap) (freqHz : Nat) (req : Int) :
    (∀ pick ∈ map.txdbmPick freqHz req,
      pick.state ∈ map.candidates freqHz ∧ map.level freqHz pick.state = some pick.pred) ∧
    ((∀ other, map.Reordered other → ∀ pick ∈ other.txdbmPick freqHz req,
        map.Nearest freqHz req pick) ↔
      ¬ (map.preference freqHz req).Climbs (map.candidates freqHz)) := by
  -- the loop keeps a state; its level is looked up when it is done
  have hpick : ∀ (records : TxdbmMap), ∀ pick ∈ records.txdbmPick freqHz req, ∃ state ∈
      (records.preference freqHz req).choose (records.candidates freqHz),
        pick = records.pickOf freqHz state := by
    intro records pick hfound
    rw [txdbmPick_eq] at hfound
    obtain ⟨state, hstate, rfl⟩ := Option.map_eq_some_iff.mp hfound
    exact ⟨state, hstate, rfl⟩
  refine ⟨fun pick hfound => ?_, fun h hclimbs => ?_, fun h other hother pick hfound => ?_⟩
  · obtain ⟨state, hstate, rfl⟩ := hpick map pick hfound
    have hmem := choose_mem hstate
    obtain ⟨v, hv⟩ := Option.isSome_iff_exists.mp (mem_candidates_iff.mp hmem)
    refine ⟨hmem, ?_⟩
    show map.level freqHz state = some ((map.level freqHz state).getD 0)
    rw [hv]
    rfl
  · -- the order in which the scan ends far is an order of the records
    obtain ⟨held, new, last, state, hstate, hfar⟩ :=
      far_of_climbs (fun state _ => pas_le state) hclimbs
    have hother := reordered_arrange map ((map.preference freqHz req).ascent held new last)
    generalize hmap : (arrange (List.map _ _) map : TxdbmMap) = other at hother
    have hcandidates := candidates_arrange map
      ((map.preference freqHz req).ascent held new last) freqHz
    rw [hmap] at hcandidates
    have hfound : map.pickOf freqHz state ∈ txdbmPick other freqHz req := by
      rw [txdbmPick_eq, hother.preference_eq, hcandidates, Option.mem_def.mp hstate]
      exact congrArg some (congrArg (DbmPick.mk state) (by rw [hother.level_eq]))
    exact hfar ((nearest_pickOf_iff state).mp (h other hother _ hfound))
  · obtain ⟨state, hstate, rfl⟩ := hpick other pick hfound
    rw [hother.preference_eq] at hstate
    have hnear := (choose_near_iff fun state _ => pas_le state).mpr h (other.candidates freqHz)
      (hother.candidates_perm freqHz) state hstate
    have hsame : other.pickOf freqHz state = map.pickOf freqHz state := by
      unfold pickOf
      rw [hother.level_eq]
    rw [hsame]
    exact (nearest_pickOf_iff state).mpr hnear

/-- Four states at 1 GHz: the first is a quarter of a dB off 10 dBm, the second is 10 dBm, and each
of the others has a stage less than the one before and is a quarter of a dB farther off. -/
def stairs : TxdbmMap :=
  [⟨1000000, 3, 0, 1025⟩, ⟨1000000, 3, 1, 1000⟩, ⟨1000000, 1, 0, 1050⟩, ⟨1000000, 0, 0, 1075⟩]

/-- For 10 dBm the last is picked, three quarters of a dB off. -/
theorem stairs_not_nearest :
    stairs.txdbmPick 1000000000 1000 = some ⟨⟨0, 0⟩, 1075⟩ ∧
      ¬ stairs.Nearest 1000000000 1000 ⟨⟨0, 0⟩, 1075⟩ := by
  refine ⟨by decide, fun h => ?_⟩
  have hsecond := h ⟨3, 1⟩ (by decide) 1000 (by decide)
  revert hsecond
  decide

end TxdbmMap

end RfnmDriver.Lime
