import Mathlib.Algebra.Order.Ring.Abs
import Mathlib.Algebra.Order.Ring.Int

/-!
# Checked 64-bit arithmetic

The operations of C on signed 64-bit values, over the integers: each is exact, or stops with the
reason for which C does not promise its result. `Gives` carries a bound on the magnitude of a
result from operation to operation; its rules are one to an operation.
-/

namespace RfnmDriver.CheckedInt

/-- Why an operation has no value. -/
inductive Trap where
  | divByZero
  | overflow
  | badShift
  | lossyCast
  deriving DecidableEq, Repr

/-- A computation that may stop. -/
abbrev Checked := Except Trap

/-- In the range of a signed 64-bit value. -/
def InS64 (x : Int) : Prop := -9223372036854775808 ≤ x ∧ x < 9223372036854775808

instance (x : Int) : Decidable (InS64 x) := inferInstanceAs (Decidable (_ ∧ _))

/-- In the range of a signed 32-bit value. -/
def InS32 (x : Int) : Prop := -2147483648 ≤ x ∧ x < 2147483648

instance (x : Int) : Decidable (InS32 x) := inferInstanceAs (Decidable (_ ∧ _))

/-! ## Operations -/

/-- A result that has to be in range. -/
def s64 (x : Int) : Checked Int := if InS64 x then .ok x else .error .overflow

def add64 (x y : Int) : Checked Int := s64 (x + y)

def sub64 (x y : Int) : Checked Int := s64 (x - y)

def mul64 (x y : Int) : Checked Int := s64 (x * y)

def neg64 (x : Int) : Checked Int := s64 (-x)

/-- `x < 0 ? -x : x`. -/
def abs64 (x : Int) : Checked Int := if x < 0 then neg64 x else .ok x

/-- `x << k`. -/
def shl64 (x k : Int) : Checked Int :=
  if 0 ≤ k ∧ k < 64 then s64 (x * 2 ^ k.toNat) else .error .badShift

/-- `x >> k`, which rounds down. -/
def sar64 (x k : Int) : Checked Int :=
  if 0 ≤ k ∧ k < 64 then .ok (x / 2 ^ k.toNat) else .error .badShift

/-- `x / y`, which rounds towards zero. -/
def div64 (x y : Int) : Checked Int :=
  if y = 0 then .error .divByZero else s64 (x.tdiv y)

/-- `(s32)x`. -/
def toS32 (x : Int) : Checked Int := if InS32 x then .ok x else .error .lossyCast

/-- `s += a[m] * b[m]` over the given places. -/
def mac64 {Place : Type} (a b : Place → Int) (places : List Place) : Checked Int :=
  places.foldlM (fun s m => do add64 s (← mul64 (a m) (b m))) 0

/-! ## Computations that succeed -/

/-- A computation that comes to a value. -/
def Succeeds {α : Type} (c : Checked α) : Prop := ∃ value, c = .ok value

theorem ok_bind {α β : Type} (value : α) (f : α → Checked β) :
    ((.ok value : Checked α) >>= f) = f value :=
  rfl

/-- A computation in two parts that comes to a value comes to one in both. -/
theorem of_bind_ok {α β : Type} {c : Checked α} {f : α → Checked β} {result : β}
    (h : c >>= f = .ok result) : ∃ value, c = .ok value ∧ f value = .ok result := by
  cases c with
  | error trap => cases h
  | ok value => exact ⟨value, rfl, h⟩

theorem succeeds_ok {α : Type} (value : α) : Succeeds (.ok value : Checked α) :=
  ⟨value, rfl⟩

/-- A computation that stops stops the rest. -/
theorem succeeds_bind_iff {α β : Type} {c : Checked α} {f : α → Checked β} :
    Succeeds (c >>= f) ↔ ∃ value, c = .ok value ∧ Succeeds (f value) := by
  cases c with
  | error trap =>
      refine iff_of_false (fun h => ?_) fun h => ?_
      · obtain ⟨_, h⟩ := h
        cases h
      · obtain ⟨_, h, _⟩ := h
        cases h
  | ok value =>
      constructor
      · exact fun h => ⟨value, rfl, h⟩
      · rintro ⟨_, h, hrest⟩
        cases h
        exact hrest

/-- Where the rest does not depend on the value, it is one more condition. -/
theorem succeeds_bind_of_forall {α β : Type} {c : Checked α} {f : α → Checked β} {rest : Prop}
    (h : ∀ value, Succeeds (f value) ↔ rest) : Succeeds (c >>= f) ↔ Succeeds c ∧ rest := by
  rw [succeeds_bind_iff]
  constructor
  · rintro ⟨value, hvalue, hrest⟩
    exact ⟨⟨value, hvalue⟩, (h value).mp hrest⟩
  · rintro ⟨⟨value, hvalue⟩, hrest⟩
    exact ⟨value, hvalue, (h value).mpr hrest⟩

theorem s64_eq_ok_iff {x value : Int} : s64 x = .ok value ↔ InS64 x ∧ x = value := by
  unfold s64
  split
  · next h => exact ⟨fun heq => ⟨h, Except.ok.inj heq⟩, fun heq => congrArg _ heq.2⟩
  · next h => exact ⟨fun heq => (nomatch heq), fun heq => absurd heq.1 h⟩

/-! ## Bounds -/

/-- A computation with this value, of no larger magnitude than the bound. -/
structure Gives (c : Checked Int) (value bound : Int) : Prop where
  eq : c = .ok value
  abs_le : |value| ≤ bound

section Rules

variable {x y a b : Int}

theorem Gives.bind {α : Type} {c : Checked Int} (h : Gives c x a) (f : Int → Checked α) :
    (c >>= f) = f x := by
  rw [h.eq, ok_bind]

theorem Gives.mono {c : Checked Int} (h : Gives c x a) (hle : a ≤ b) : Gives c x b :=
  ⟨h.eq, h.abs_le.trans hle⟩

theorem gives_s64 (hx : |x| ≤ a) (ha : a < 9223372036854775808) : Gives (s64 x) x a := by
  have hrange := abs_le.mp hx
  exact ⟨if_pos ⟨by omega, by omega⟩, hx⟩

theorem gives_add64 (hx : |x| ≤ a) (hy : |y| ≤ b) (h : a + b < 9223372036854775808) :
    Gives (add64 x y) (x + y) (a + b) :=
  gives_s64 ((abs_add_le x y).trans (Int.add_le_add hx hy)) h

theorem gives_sub64 (hx : |x| ≤ a) (hy : |y| ≤ b) (h : a + b < 9223372036854775808) :
    Gives (sub64 x y) (x - y) (a + b) :=
  gives_s64 ((abs_sub x y).trans (Int.add_le_add hx hy)) h

theorem gives_mul64 (hx : |x| ≤ a) (hy : |y| ≤ b) (h : a * b < 9223372036854775808) :
    Gives (mul64 x y) (x * y) (a * b) := by
  refine gives_s64 ?_ h
  rw [abs_mul]
  exact mul_le_mul hx hy (abs_nonneg y) ((abs_nonneg x).trans hx)

theorem gives_abs64 (hx : |x| ≤ a) (ha : a < 9223372036854775808) : Gives (abs64 x) |x| a := by
  unfold abs64
  split
  · next hneg =>
      have habs : |x| = -x := abs_of_neg hneg
      have hnegated : Gives (neg64 x) (-x) a := gives_s64 ((abs_neg x).le.trans hx) ha
      rwa [habs]
  · next hnonneg =>
      have habs : |x| = x := abs_of_nonneg (not_lt.mp hnonneg)
      refine ⟨congrArg _ habs.symm, ?_⟩
      rwa [abs_abs]

theorem gives_shl64 {k : Nat} (hx : |x| ≤ a) (hk : k < 64) (h : a * 2 ^ k < 9223372036854775808) :
    Gives (shl64 x k) (x * 2 ^ k) (a * 2 ^ k) := by
  have hpower : (0 : Int) ≤ 2 ^ k := Int.pow_nonneg (by omega)
  have hscaled : |x * 2 ^ k| ≤ a * 2 ^ k := by
    rw [abs_mul, abs_of_nonneg hpower]
    exact mul_le_mul_of_nonneg_right hx hpower
  unfold shl64
  rw [if_pos ⟨by omega, by omega⟩, Int.toNat_natCast]
  exact gives_s64 hscaled h

theorem gives_sar64 {k : Nat} (hx : |x| ≤ a * 2 ^ k) (hk : k < 64) :
    Gives (sar64 x k) (x / 2 ^ k) a := by
  have hpower : (0 : Int) < 2 ^ k := Int.pow_pos (by omega)
  have hrange := abs_le.mp hx
  refine ⟨?_, abs_le.mpr ⟨?_, ?_⟩⟩
  · unfold sar64
    rw [if_pos ⟨by omega, by omega⟩, Int.toNat_natCast]
  · rw [Int.le_ediv_iff_mul_le hpower, Int.neg_mul]
    exact hrange.1
  · exact Int.ediv_le_of_le_mul hpower hrange.2

theorem gives_div64 (hy : 0 < y) (hx : |x| ≤ a * y) (ha : a < 9223372036854775808) :
    Gives (div64 x y) (x.tdiv y) a := by
  unfold div64
  rw [if_neg (by omega)]
  refine gives_s64 ?_ ha
  have hmagnitude : |x.tdiv y| = |x| / y := by
    rw [Int.abs_eq_natAbs, Int.natAbs_tdiv, Int.abs_eq_natAbs]
    show ((x.natAbs / y.natAbs : Nat) : Int) = x.natAbs / y
    rw [Int.natCast_ediv, Int.natAbs_of_nonneg hy.le]
  rw [hmagnitude]
  exact Int.ediv_le_of_le_mul hy hx

/-- A division by anything but zero gives no larger magnitude than the dividend's. -/
theorem gives_div64_of_ne (hy : y ≠ 0) (hx : |x| ≤ a) (ha : a < 9223372036854775808) :
    Gives (div64 x y) (x.tdiv y) a := by
  unfold div64
  rw [if_neg hy]
  refine gives_s64 (le_trans ?_ hx) ha
  rw [Int.abs_eq_natAbs, Int.natAbs_tdiv, Int.abs_eq_natAbs]
  exact Int.ofNat_le.mpr (Nat.div_le_self _ _)

/-- A sum of products. -/
theorem gives_mac64 {Place : Type} {left right : Place → Int} {places : List Place}
    (hleft : ∀ m ∈ places, |left m| ≤ a) (hright : ∀ m ∈ places, |right m| ≤ b)
    (h : places.length * (a * b) < 9223372036854775808) :
    Gives (mac64 left right places) (places.map fun m => left m * right m).sum
      (places.length * (a * b)) := by
  -- the induction is on the places left, with the sum so far
  have hrun : ∀ (rest : List Place) (s bound : Int), (∀ m ∈ rest, m ∈ places) → |s| ≤ bound →
      bound + rest.length * (a * b) ≤ places.length * (a * b) →
      Gives (rest.foldlM (fun s m => do add64 s (← mul64 (left m) (right m))) s)
        (s + (rest.map fun m => left m * right m).sum) (bound + rest.length * (a * b)) := by
    intro rest
    induction rest with
    | nil =>
        intro s bound _ hs _
        simp only [List.map_nil, List.sum_nil, List.length_nil, Int.add_zero]
        exact ⟨rfl, by simpa using hs⟩
    | cons m rest ih =>
        intro s bound hrest hs hbound
        have hplace := hrest m List.mem_cons_self
        have hnonneg : 0 ≤ a * b := Int.mul_nonneg ((abs_nonneg _).trans (hleft m hplace))
          ((abs_nonneg _).trans (hright m hplace))
        have hlast : 0 ≤ (rest.length : Int) * (a * b) :=
          Int.mul_nonneg (Int.natCast_nonneg _) hnonneg
        have hsplit : ((m :: rest).length : Int) * (a * b) = a * b + rest.length * (a * b) := by
          rw [List.length_cons, Nat.cast_succ, Int.add_mul, Int.one_mul, Int.add_comm]
        rw [hsplit] at hbound ⊢
        have hbound0 := (abs_nonneg s).trans hs
        have hmul := gives_mul64 (hleft m hplace) (hright m hplace) (by omega)
        have hadd := gives_add64 hs hmul.abs_le (by omega)
        have htail := ih (s + left m * right m) (bound + a * b)
          (fun m hm => hrest m (List.mem_cons_of_mem _ hm)) hadd.abs_le (by omega)
        rw [List.foldlM_cons, hmul.bind, hadd.bind, List.map_cons, List.sum_cons, ← Int.add_assoc,
          ← Int.add_assoc]
        exact htail
  have hall := hrun places 0 0 (fun _ h => h) (abs_zero.le) (by omega)
  rwa [Int.zero_add, Int.zero_add] at hall

end Rules

/-! ## Quotients -/

/-- A quotient is at most a bound exactly if the dividend is less than one more. -/
theorem tdiv_le_iff {x y bound : Int} (hy : 0 < y) (hbound : 0 ≤ bound) :
    x.tdiv y ≤ bound ↔ x < (bound + 1) * y := by
  obtain hx | hx := le_or_gt 0 x
  · rw [Int.tdiv_eq_ediv_of_nonneg hx, ← Int.lt_add_one_iff, Int.ediv_lt_iff_lt_mul hy]
  · have hnonneg : 0 ≤ (-x).tdiv y := Int.tdiv_nonneg (by omega) hy.le
    rw [Int.neg_tdiv] at hnonneg
    have hproduct : 0 < (bound + 1) * y := Int.mul_pos (by omega) hy
    exact iff_of_true (by omega) (hx.trans hproduct)

theorem neg_le_tdiv_iff {x y bound : Int} (hy : 0 < y) (hbound : 0 ≤ bound) :
    -bound ≤ x.tdiv y ↔ -((bound + 1) * y) < x := by
  have hflip := tdiv_le_iff (x := -x) hy hbound
  rw [Int.neg_tdiv] at hflip
  omega

end RfnmDriver.CheckedInt
