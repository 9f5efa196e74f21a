import Mathlib.Algebra.Order.Ring.Int
import Mathlib.Order.Interval.Set.UnorderedInterval

/-!
# Linear interpolation with a division that truncates

The line through two points of whole numbers, read at a whole number: `tdiv` takes the rise over
the first point, which may be negative, towards zero. At either point the line has that point's
value, and between them a value between theirs, whichever way the points and the values run.
-/

namespace TruncatedLine

/-- The line through `(x0, y0)` and `(x1, y1)`, read at `x`. -/
def line (y0 y1 x0 x1 x : ℤ) : ℤ :=
  y0 + ((y1 - y0) * (x - x0)).tdiv (x1 - x0)

variable {y0 y1 x0 x1 x rise run whole : ℤ}

theorem line_left (y0 y1 x0 x1 : ℤ) : line y0 y1 x0 x1 x0 = y0 := by
  rw [line, sub_self, mul_zero, Int.zero_tdiv, add_zero]

theorem line_right (hne : x0 ≠ x1) : line y0 y1 x0 x1 x1 = y1 := by
  rw [line, Int.mul_tdiv_cancel _ (sub_ne_zero.mpr hne.symm), add_sub_cancel]

/-- A part of a rise that is not negative. -/
theorem tdiv_part (hrise : 0 ≤ rise) (hrun : 0 ≤ run) (hle : run ≤ whole) (hpos : 0 < whole) :
    0 ≤ (rise * run).tdiv whole ∧ (rise * run).tdiv whole ≤ rise := by
  constructor
  · exact Int.tdiv_nonneg (Int.mul_nonneg hrise hrun) hpos.le
  · calc
      (rise * run).tdiv whole ≤ (rise * whole).tdiv whole :=
        Int.tdiv_le_tdiv hpos (Int.mul_le_mul_of_nonneg_left hle hrise)
      _ = rise := Int.mul_tdiv_cancel _ hpos.ne'

/-- A part of a rise is between nothing and the rise. -/
theorem tdiv_mem_uIcc (hrun : 0 ≤ run) (hle : run ≤ whole) (hpos : 0 < whole) :
    (rise * run).tdiv whole ∈ Set.uIcc 0 rise := by
  rw [Set.mem_uIcc]
  rcases le_total 0 rise with hrise | hrise
  · exact .inl (tdiv_part hrise hrun hle hpos)
  · obtain ⟨hnonneg, hless⟩ := tdiv_part (neg_nonneg.mpr hrise) hrun hle hpos
    rw [neg_mul, Int.neg_tdiv] at hnonneg hless
    exact .inr ⟨neg_le_neg_iff.mp hless, neg_nonneg.mp hnonneg⟩

/-- Between the points the line is between their values. -/
theorem line_mem_uIcc (hne : x0 ≠ x1) (hx : x ∈ Set.uIcc x0 x1) :
    line y0 y1 x0 x1 x ∈ Set.uIcc y0 y1 := by
  have hpart : ((y1 - y0) * (x - x0)).tdiv (x1 - x0) ∈ Set.uIcc 0 (y1 - y0) := by
    rcases Set.mem_uIcc.mp hx with ⟨hleft, hright⟩ | ⟨hright, hleft⟩
    · exact tdiv_mem_uIcc (sub_nonneg.mpr hleft) (sub_le_sub_right hright x0)
        (sub_pos.mpr (lt_of_le_of_ne (hleft.trans hright) hne))
    · -- both the run and the whole are counted the other way
      have hflip : ((y1 - y0) * (x0 - x)).tdiv (x0 - x1) ∈ Set.uIcc 0 (y1 - y0) :=
        tdiv_mem_uIcc (sub_nonneg.mpr hleft) (sub_le_sub_left hright x0)
          (sub_pos.mpr (lt_of_le_of_ne (hright.trans hleft) hne.symm))
      rwa [← neg_sub x x0, ← neg_sub x1 x0, mul_neg, Int.neg_tdiv, Int.tdiv_neg, neg_neg] at hflip
  rw [Set.mem_uIcc] at hpart ⊢
  unfold line
  omega

end TruncatedLine
