import Mathlib.Data.List.Chain
import Mathlib.Data.List.TakeWhile

/-!
# Streaks

Observations are kept in a list, the newest first. `streak` counts how many of the newest have a
property, and a counter that is cleared by an observation without it, and by reaching a threshold,
is the streak up to multiples of the threshold (`tally_streak`). Where observations are some time
apart, a streak has lasted (`Spaced.lasted`).
-/

namespace Streak

variable {Observation : Type*} (has : Observation → Bool)

/-- How many of the newest observations have the property. -/
def streak (history : List Observation) : Nat := (history.takeWhile has).length

/-- The counter behind another observation, and whether the threshold has been reached. -/
def tally (threshold count : Nat) (found : Bool) : Nat × Bool :=
  if found then if threshold ≤ count + 1 then (0, true) else (count + 1, false) else (0, false)

variable {has} {history : List Observation} {latest : Observation}

theorem streak_cons (latest : Observation) (history : List Observation) :
    streak has (latest :: history) = if has latest then streak has history + 1 else 0 := by
  unfold streak
  rw [List.takeWhile_cons]
  split
  · rfl
  · rfl

/-- The observations of a streak have the property. -/
theorem of_mem_take {count : Nat} (h : count ≤ streak has history) :
    ∀ observation ∈ history.take count, has observation = true := by
  intro observation hobservation
  have hfront : history.take count <+: history.takeWhile has :=
    List.prefix_of_prefix_length_le (List.take_prefix ..) (List.takeWhile_prefix ..)
      (Nat.le_trans (List.length_take_le ..) h)
  exact List.mem_takeWhile_imp (hfront.subset hobservation)

theorem streak_le_length : streak has history ≤ history.length :=
  (List.takeWhile_prefix ..).length_le

/-- The counter is the streak up to multiples of the threshold, and reaches it at these. -/
theorem tally_streak {threshold : Nat} (hthreshold : 0 < threshold) (latest : Observation)
    (history : List Observation) :
    tally threshold (streak has history % threshold) (has latest) =
      (streak has (latest :: history) % threshold,
        decide (0 < streak has (latest :: history) ∧
          threshold ∣ streak has (latest :: history))) := by
  have hlt := Nat.mod_lt (streak has history) hthreshold
  rw [streak_cons]
  unfold tally
  cases hhas : has latest with
  | false => simp
  | true =>
      simp only [if_true, Nat.zero_lt_succ, true_and]
      have hsucc : (streak has history + 1) % threshold =
          (streak has history % threshold + 1) % threshold := (Nat.mod_add_mod ..).symm
      split
      · next hreached =>
        have hend : streak has history % threshold + 1 = threshold := by omega
        rw [hsucc, hend, Nat.mod_self, decide_eq_true]
        exact Nat.dvd_of_mod_eq_zero (by rw [hsucc, hend, Nat.mod_self])
      · next hshort =>
        have hmod : (streak has history + 1) % threshold = streak has history % threshold + 1 := by
          rw [hsucc]
          exact Nat.mod_eq_of_lt (by omega)
        rw [hmod, decide_eq_false]
        intro hdvd
        have hzero := Nat.mod_eq_zero_of_dvd hdvd
        omega

/-! ## Time -/

/-- Each observation is at least a gap later than the one before it. -/
def Spaced (gap : Nat) (time : Observation → Nat) (history : List Observation) : Prop :=
  history.IsChain fun latest former => time former + gap ≤ time latest

/-- A number of gaps lie between an observation and the newest. -/
theorem Spaced.lasted {gap : Nat} {time : Observation → Nat}
    (h : Spaced gap time (latest :: history)) {back : Nat} {former : Observation}
    (hformer : (latest :: history)[back]? = some former) :
    time former + back * gap ≤ time latest := by
  induction back generalizing latest history with
  | zero =>
      obtain rfl := Option.some.inj hformer
      omega
  | succ back ih =>
      obtain ⟨next, rest, rfl⟩ : ∃ next rest, history = next :: rest := by
        cases history with
        | nil => cases hformer
        | cons next rest => exact ⟨next, rest, rfl⟩
      obtain ⟨hgap, hrest⟩ := List.isChain_cons_cons.mp h
      have hlasted := ih hrest hformer
      rw [Nat.succ_mul]
      omega

end Streak
