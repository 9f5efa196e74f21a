import Mathlib.Algebra.Order.Field.Power
import Mathlib.Data.Int.Log
import Mathlib.Data.Rat.Floor
import Mathlib.Tactic.FieldSimp
import Mathlib.Tactic.Linarith
import Mathlib.Tactic.Positivity
import Mathlib.Tactic.Ring

/-!
# Binary floating-point patterns

A pattern without its sign is an exponent field over a fraction field, and counts a number of least
positive values. The count grows with the pattern (`units_strictMono`), so a value has one pattern.
`truncate` cuts a rational toward zero to a number of significant bits; `truncate_natCast_mul` and
`truncate_neg` say what it gives of a scaled integer.
-/

namespace FloatBits

/-! ## Patterns -/

/-- The least positive values that a pattern counts: a zero exponent field has no leading one. -/
def units (fraction pattern : ℕ) : ℕ :=
  if pattern / 2 ^ fraction = 0 then pattern % 2 ^ fraction
  else (2 ^ fraction + pattern % 2 ^ fraction) * 2 ^ (pattern / 2 ^ fraction - 1)

variable {fraction exponent field pattern : ℕ}

/-- A pattern put together of its fields. -/
theorem units_add (hfield : field < 2 ^ fraction) (hexponent : 0 < exponent) :
    units fraction (2 ^ fraction * exponent + field) =
      (2 ^ fraction + field) * 2 ^ (exponent - 1) := by
  have hpos : 0 < 2 ^ fraction := by positivity
  have hdiv : (2 ^ fraction * exponent + field) / 2 ^ fraction = exponent := by
    rw [Nat.mul_add_div hpos, Nat.div_eq_of_lt hfield, Nat.add_zero]
  have hmod : (2 ^ fraction * exponent + field) % 2 ^ fraction = field := by
    rw [Nat.mul_add_mod, Nat.mod_eq_of_lt hfield]
  unfold units
  rw [hdiv, hmod, if_neg hexponent.ne']

/-- A pattern with a zero exponent field. -/
theorem units_of_lt (hfield : field < 2 ^ fraction) : units fraction field = field := by
  unfold units
  rw [if_pos (Nat.div_eq_of_lt hfield), Nat.mod_eq_of_lt hfield]

/-- Larger patterns have larger values. -/
theorem units_strictMono (fraction : ℕ) : StrictMono (units fraction) := by
  refine strictMono_nat_of_lt_succ fun pattern => ?_
  have hpos : 0 < 2 ^ fraction := by positivity
  obtain ⟨exponent, field, hfield, rfl⟩ :
      ∃ exponent field, field < 2 ^ fraction ∧ pattern = 2 ^ fraction * exponent + field :=
    ⟨_, _, Nat.mod_lt pattern hpos, (Nat.div_add_mod pattern _).symm⟩
  have hscale : 0 < 2 ^ (exponent - 1) := by positivity
  obtain hroom | hlast := Nat.lt_or_ge (field + 1) (2 ^ fraction)
  · -- the fraction field has room for one more
    obtain rfl | hexponent := Nat.eq_zero_or_pos exponent
    · rw [Nat.mul_zero, Nat.zero_add, units_of_lt hfield, units_of_lt hroom]
      exact Nat.lt_succ_self field
    · rw [Nat.add_assoc, units_add hfield hexponent, units_add hroom hexponent]
      exact Nat.mul_lt_mul_of_pos_right (by omega) hscale
  · -- the next pattern has the next exponent
    have hcarry : 2 ^ fraction * exponent + field + 1 = 2 ^ fraction * (exponent + 1) + 0 := by
      rw [Nat.mul_succ]
      omega
    rw [hcarry, units_add hpos (Nat.succ_pos exponent), Nat.succ_eq_add_one, Nat.add_sub_cancel]
    obtain rfl | hexponent := Nat.eq_zero_or_pos exponent
    · rw [Nat.mul_zero, Nat.zero_add, units_of_lt hfield, pow_zero]
      omega
    · rw [units_add hfield hexponent]
      obtain ⟨before, rfl⟩ : ∃ before, exponent = before + 1 := ⟨exponent - 1, by omega⟩
      rw [Nat.add_sub_cancel, pow_succ]
      have hbefore : 0 < 2 ^ before := by positivity
      calc (2 ^ fraction + field) * 2 ^ before < (2 ^ fraction * 2) * 2 ^ before :=
            Nat.mul_lt_mul_of_pos_right (by omega) hbefore
        _ = (2 ^ fraction + 0) * (2 ^ before * 2) := by ring

/-! ## Truncation -/

/-- The weight of the last of so many significant bits. -/
def lastBit (digits : ℕ) (x : ℚ) : ℚ :=
  2 ^ (Int.log 2 x + 1 - digits)

/-- A nonnegative rational cut to so many significant bits. -/
def chop (digits : ℕ) (x : ℚ) : ℚ :=
  ⌊x / lastBit digits x⌋ * lastBit digits x

/-- A rational cut toward zero to so many significant bits. -/
def truncate (digits : ℕ) (x : ℚ) : ℚ :=
  if x < 0 then -chop digits (-x) else chop digits x

/-- Zero stays zero. -/
theorem truncate_zero (digits : ℕ) : truncate digits 0 = 0 := by
  simp [truncate, chop]

/-- Cutting toward zero keeps the sign apart. -/
theorem truncate_neg {digits : ℕ} {x : ℚ} (hx : 0 < x) :
    truncate digits (-x) = -truncate digits x := by
  unfold truncate
  rw [if_pos (neg_lt_zero.mpr hx), if_neg hx.le.not_gt, neg_neg]

/-- The leading bit of a scaled integer. -/
theorem log_natCast_mul {n : ℕ} (hn : n ≠ 0) (scale : ℤ) :
    Int.log 2 ((n : ℚ) * 2 ^ scale) = n.log2 + scale := by
  have hnpos : (0 : ℚ) < n := by exact_mod_cast Nat.pos_of_ne_zero hn
  have hscale : (0 : ℚ) < 2 ^ scale := by positivity
  have hpos : (0 : ℚ) < n * 2 ^ scale := mul_pos hnpos hscale
  have hlow : ((2 : ℕ) : ℚ) ^ ((n.log2 : ℤ) + scale) ≤ n * 2 ^ scale := by
    have hle : ((2 ^ n.log2 : ℕ) : ℚ) ≤ n := by exact_mod_cast Nat.log2_self_le hn
    rw [zpow_add₀ (by norm_num), zpow_natCast]
    push_cast at hle ⊢
    exact mul_le_mul_of_nonneg_right hle hscale.le
  have hhigh : (n : ℚ) * 2 ^ scale < ((2 : ℕ) : ℚ) ^ ((n.log2 : ℤ) + scale + 1) := by
    have hlt : (n : ℚ) < ((2 ^ (n.log2 + 1) : ℕ) : ℚ) := by exact_mod_cast Nat.lt_log2_self
    rw [add_right_comm, zpow_add₀ (by norm_num), ← Nat.cast_succ, zpow_natCast]
    push_cast at hlt ⊢
    exact mul_lt_mul_of_pos_right hlt hscale
  have hge := (Int.zpow_le_iff_le_log (by norm_num) hpos).mp hlow
  have hle := (Int.lt_zpow_iff_log_lt (by norm_num) hpos).mp hhigh
  omega

/-- A scaled integer cut to its leading bits. -/
theorem truncate_natCast_mul {n : ℕ} (hn : n ≠ 0) (scale : ℤ) {digits drop : ℕ}
    (hdrop : n.log2 + 1 = digits + drop) :
    truncate digits ((n : ℚ) * 2 ^ scale) = ((n / 2 ^ drop * 2 ^ drop : ℕ) : ℚ) * 2 ^ scale := by
  have hnonneg : (0 : ℚ) ≤ n * 2 ^ scale := by positivity
  have hlast : lastBit digits ((n : ℚ) * 2 ^ scale) = 2 ^ drop * 2 ^ scale := by
    unfold lastBit
    rw [log_natCast_mul hn, ← zpow_natCast, ← zpow_add₀ (by norm_num)]
    congr 1
    omega
  have hquotient : (n : ℚ) * 2 ^ scale / (2 ^ drop * 2 ^ scale) = (n : ℚ) / (2 ^ drop : ℕ) := by
    push_cast
    field_simp
  unfold truncate chop
  rw [if_neg hnonneg.not_gt, hlast, hquotient, Rat.floor_natCast_div_natCast,
    ← Int.natCast_div, Int.cast_natCast, Nat.cast_mul]
  push_cast
  ring

/-- A scaled integer with no more than so many bits is not cut. -/
theorem truncate_of_short {n : ℕ} (hn : n ≠ 0) (scale : ℤ) {digits : ℕ}
    (hshort : n.log2 + 1 ≤ digits) :
    truncate digits ((n : ℚ) * 2 ^ scale) = (n : ℚ) * 2 ^ scale := by
  obtain ⟨spare, rfl⟩ := Nat.exists_eq_add_of_le hshort
  have hnonneg : (0 : ℚ) ≤ n * 2 ^ scale := by positivity
  have hlast : lastBit (n.log2 + 1 + spare) ((n : ℚ) * 2 ^ scale) = 2 ^ (scale - spare) := by
    unfold lastBit
    rw [log_natCast_mul hn]
    congr 1
    push_cast
    ring
  have hscale : (2 : ℚ) ^ scale = 2 ^ spare * 2 ^ (scale - spare) := by
    rw [← zpow_natCast, ← zpow_add₀ (by norm_num)]
    congr 1
    ring
  have hquotient : (n : ℚ) * 2 ^ scale / 2 ^ (scale - spare) = (n * 2 ^ spare : ℕ) := by
    rw [hscale]
    push_cast
    field_simp
  unfold truncate chop
  rw [if_neg hnonneg.not_gt, hlast, hquotient, Int.floor_natCast, hscale]
  push_cast
  ring

end FloatBits
