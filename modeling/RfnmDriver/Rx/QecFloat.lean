import Mathlib.Tactic.LinearCombination
import RfnmDriver.Library.FloatBits

/-!
# Model coefficients as single-precision words

`rfnm_qec` keeps its model in Q20 and hands it to the DSP as IEEE singles, which `q20_to_f32` puts
together without a floating-point unit. Read `q20ToF32_toNat` first: it gives the three fields for
every nonzero argument. `qecWriteStruct_single` is what that means for the words staged for the
DMA.
-/

namespace RfnmDriver.Rx.Qec

open FloatBits

/-! ## The conversion -/

/-- `fls` and `fls64`. -/
def fls {w : Nat} (a : BitVec w) : Nat :=
  if a.toNat = 0 then 0 else a.toNat.log2 + 1

/-- `q20_to_f32`. -/
def q20ToF32 (v : BitVec 32) : BitVec 32 :=
  if v = 0#32 then 0#32
  else
    let s := if v.slt 0#32 then 1#32 <<< 31 else 0#32
    let a := if v.slt 0#32 then -v else v
    let msb := BitVec.ofNat 32 (fls a) - 1#32
    let e := msb - 20#32 + 127#32
    let m := if msb ≥ 23#32 then (a >>> (msb - 23#32)) &&& 0x7FFFFF#32
      else (a <<< (23#32 - msb)) &&& 0x7FFFFF#32
    s ||| (e <<< 23) ||| m

/-- The model of `struct qec_state`, in Q20. -/
structure Model where
  mEps : BitVec 32
  mPhi : BitVec 32
  mTau : BitVec 32
  mDcre : BitVec 32
  mDcim : BitVec 32
  deriving DecidableEq, Repr

/-- `qec_d1_q20`. -/
def qecD1Q20 : List Int :=
  [353371, -1057859, -16402, 1077529, -356918]

/-- `h1_q20`. -/
def h1Q20 (model : Model) (tauQ20 : BitVec 32) (k : Nat) : BitVec 32 :=
  let tap := ((tauQ20.signExtend 64 * BitVec.ofInt 64 (qecD1Q20.getD k 0)).sshiftRight 20).setWidth
    32
  if k = 2 then tap + (1#32 <<< 20 + model.mEps) else tap

/-- `ftaps_q20`: f2, f1 and the taps of h1 in descending order. -/
def ftapsQ20 (model : Model) (tauQ20 : BitVec 32) (i : Nat) : BitVec 32 :=
  if i = 1 then -model.mPhi
  else if i = 6 then 1#32 <<< 20
  else if 3 ≤ i ∧ i % 2 = 1 then h1Q20 model tauQ20 (4 - (i - 3) / 2)
  else 0#32

/-- The Q20 values of the struct; `IQImb_delay`, in place 12, is none. -/
def coefficientQ20 (model : Model) (tauQ20 : BitVec 32) (i : Nat) : BitVec 32 :=
  if i < 12 then ftapsQ20 model tauQ20 i
  else if i = 13 then model.mDcre
  else model.mDcim

/-- The words `qec_write_struct` stages for the DMA. -/
def qecWriteStruct (model : Model) (tauQ20 : BitVec 32) : List (BitVec 32) :=
  (List.range 15).map fun i =>
    if i = 12 then 5#32 else q20ToF32 (coefficientQ20 model tauQ20 i)

/-- The exponent field of a single. -/
def exponentField (bits : BitVec 32) : BitVec 8 :=
  bits.extractLsb' 23 8

/-- The value of a single; infinities and NaNs have none. -/
def single (bits : BitVec 32) : Option ℚ :=
  if exponentField bits = 255#8 then none
  else some ((if bits.msb then -1 else 1) * (units 23 (bits.toNat % 2 ^ 31) * 2 ^ (-149 : ℤ)))

/-- The pattern of a value; that of zero has no sign. -/
def IsSingle (bits : BitVec 32) (x : ℚ) : Prop :=
  single bits = some x ∧ (x = 0 → bits = 0#32)

variable {bits other v : BitVec 32} {x : ℚ}

/-! ## Values and patterns -/

/-- The value of a pattern with this sign that counts so many least values. -/
theorem single_of_fields {count : ℕ} {negative : Bool} (hfinite : exponentField bits ≠ 255#8)
    (hmsb : bits.msb = negative) (hunits : units 23 (bits.toNat % 2 ^ 31) = count) :
    single bits = some ((if negative then -1 else 1) * ((count : ℚ) * 2 ^ (-149 : ℤ))) := by
  rw [single, if_neg hfinite, hmsb, hunits]

/-- The value of a pattern that has one. -/
theorem value_of_single (h : single bits = some x) :
    x = (if bits.msb then -1 else 1) * (units 23 (bits.toNat % 2 ^ 31) * 2 ^ (-149 : ℤ)) := by
  unfold single at h
  split at h
  · cases h
  · exact (Option.some.inj h).symm

/-- The magnitude of a value gives the pattern but for the sign. -/
theorem abs_of_single (h : single bits = some x) :
    |x| = units 23 (bits.toNat % 2 ^ 31) * 2 ^ (-149 : ℤ) := by
  have hnonneg : (0 : ℚ) ≤ units 23 (bits.toNat % 2 ^ 31) * 2 ^ (-149 : ℤ) := by positivity
  rw [value_of_single h]
  split
  · rw [neg_one_mul, abs_neg, abs_of_nonneg hnonneg]
  · rw [one_mul, abs_of_nonneg hnonneg]

/-- The sign of a value that is not zero. -/
theorem msb_of_single (h : single bits = some x) (hx : x ≠ 0) : bits.msb = true ↔ x < 0 := by
  have hpos : 0 < |x| := abs_pos.mpr hx
  rw [abs_of_single h] at hpos
  rw [value_of_single h]
  cases bits.msb
  · simp only [Bool.false_eq_true, if_false, one_mul]
    exact iff_of_false id hpos.le.not_gt
  · simp only [if_true, neg_one_mul, Left.neg_neg_iff]
    exact iff_of_true trivial hpos

/-- A pattern is its sign and the rest. -/
theorem eq_of_msb_of_mod (hsign : bits.msb = other.msb)
    (hrest : bits.toNat % 2 ^ 31 = other.toNat % 2 ^ 31) : bits = other := by
  have hsign' := decide_eq_decide.mp (BitVec.msb_eq_decide bits ▸ BitVec.msb_eq_decide other ▸ hsign)
  have hbits := bits.isLt
  have hother := other.isLt
  apply BitVec.eq_of_toNat_eq
  omega

/-- A value has one pattern. -/
theorem IsSingle.unique (h : IsSingle bits x) (hother : IsSingle other x) : bits = other := by
  by_cases hx : x = 0
  · rw [h.2 hx, hother.2 hx]
  · have hunits : units 23 (bits.toNat % 2 ^ 31) = units 23 (other.toNat % 2 ^ 31) := by
      have hvalues := (abs_of_single h.1).symm.trans (abs_of_single hother.1)
      have hscale : (2 : ℚ) ^ (-149 : ℤ) ≠ 0 := by positivity
      exact_mod_cast mul_right_cancel₀ hscale hvalues
    refine eq_of_msb_of_mod ?_ ((units_strictMono 23).injective hunits)
    rw [Bool.eq_iff_iff, msb_of_single h.1 hx, msb_of_single hother.1 hx]

/-! ## What the conversion puts together -/

/-- `a` is the magnitude, also that of the least value. -/
theorem toNat_magnitude (v : BitVec 32) :
    (if v.slt 0#32 then -v else v).toNat = v.toInt.natAbs := by
  have hlt := v.isLt
  have hsign : v.slt 0#32 ↔ 2 ^ 31 ≤ v.toNat := by
    rw [BitVec.slt_zero_iff_msb_cond, BitVec.msb_eq_decide, decide_eq_true_iff]
  rw [BitVec.toInt_eq_toNat_cond]
  by_cases hnegative : v.slt 0#32
  · have hge := hsign.mp hnegative
    rw [if_pos hnegative, if_neg (by omega), BitVec.toNat_neg]
    omega
  · have hsmall := mt hsign.mpr hnegative
    rw [if_neg hnegative, if_pos (by omega), Int.natAbs_natCast]

/-- The three fields of a word put together. -/
theorem toNat_fields {e m : BitVec 32} (negative : Bool) (he : e.toNat < 256)
    (hm : m.toNat < 2 ^ 23) :
    ((if negative then 1#32 <<< 31 else 0#32) ||| (e <<< 23) ||| m).toNat =
      (if negative then 2 ^ 31 else 0) + (2 ^ 23 * e.toNat + m.toNat) := by
  have hfield : (e <<< 23).toNat = 2 ^ 23 * e.toNat := by
    rw [BitVec.toNat_shiftLeft, Nat.shiftLeft_eq, Nat.mod_eq_of_lt (by omega), Nat.mul_comm]
  have hlow : (e <<< 23 ||| m).toNat = 2 ^ 23 * e.toNat + m.toNat := by
    rw [BitVec.toNat_or, hfield, Nat.two_pow_add_eq_or_of_lt hm]
  rw [BitVec.or_assoc, BitVec.toNat_or, hlow]
  cases negative
  · simp
  · have hsign : (1#32 <<< 31).toNat = 2 ^ 31 * 1 := by decide
    rw [if_pos rfl, if_pos rfl, hsign, ← Nat.two_pow_add_eq_or_of_lt (by omega), Nat.mul_one]

/-- The significand of a magnitude: its leading 24 bits, with the leading one. -/
def significand (n : Nat) : Nat :=
  if 23 ≤ n.log2 then n / 2 ^ (n.log2 - 23) else n * 2 ^ (23 - n.log2)

/-- The significand has its leading one in bit 23. -/
theorem significand_bounds {n : Nat} (hn : n ≠ 0) :
    2 ^ 23 ≤ significand n ∧ significand n < 2 ^ 24 := by
  have hlow := Nat.log2_self_le hn
  have hhigh := Nat.lt_log2_self (n := n)
  unfold significand
  split
  · next hlarge =>
      obtain ⟨drop, hdrop⟩ := Nat.exists_eq_add_of_le hlarge
      rw [hdrop] at hlow hhigh
      rw [hdrop, Nat.add_sub_cancel_left]
      constructor
      · rw [Nat.le_div_iff_mul_le (by positivity), ← pow_add]
        exact hlow
      · rw [Nat.div_lt_iff_lt_mul (by positivity), ← pow_add]
        exact hhigh.trans_eq (by ring)
  · next hsmall =>
      obtain ⟨spare, hspare⟩ := Nat.exists_eq_add_of_le (Nat.le_of_not_le hsmall)
      have hdiff : 23 - n.log2 = spare := by omega
      have hscale : 0 < 2 ^ spare := by positivity
      rw [hdiff, show 2 ^ 23 = 2 ^ n.log2 * 2 ^ spare by rw [← pow_add, ← hspare],
        show 2 ^ 24 = 2 ^ (n.log2 + 1) * 2 ^ spare by rw [← pow_add]; congr 1; omega]
      exact ⟨Nat.mul_le_mul_right _ hlow, Nat.mul_lt_mul_of_pos_right hhigh hscale⟩

/-- `m` is the significand without its leading one. -/
theorem toNat_mantissa {a msb : BitVec 32} (ha : a.toNat ≠ 0)
    (hmsb : msb.toNat = a.toNat.log2) :
    (if msb ≥ 23#32 then (a >>> (msb - 23#32)) &&& 0x7FFFFF#32
      else (a <<< (23#32 - msb)) &&& 0x7FFFFF#32).toNat = significand a.toNat - 2 ^ 23 := by
  have hbounds := significand_bounds ha
  have hlt := a.isLt
  have hlog : a.toNat.log2 < 32 := (Nat.log2_lt ha).mpr hlt
  have hmask : ∀ x : BitVec 32, (x &&& 0x7FFFFF#32).toNat = x.toNat % 2 ^ 23 := fun x => by
    rw [BitVec.toNat_and]
    exact Nat.and_two_pow_sub_one_eq_mod x.toNat 23
  have hge : msb ≥ 23#32 ↔ 23 ≤ a.toNat.log2 := by
    rw [ge_iff_le, BitVec.le_def, hmsb]
    rfl
  unfold significand at hbounds ⊢
  -- 23 bits behind the leading one: cut off at the right, or filled up with zeros
  by_cases hlarge : 23 ≤ a.toNat.log2
  · rw [if_pos hlarge] at hbounds ⊢
    have hdiff : (msb - 23#32).toNat = a.toNat.log2 - 23 := by
      rw [BitVec.toNat_sub_of_le (hge.mpr hlarge), hmsb]
      rfl
    rw [if_pos (hge.mpr hlarge), hmask, BitVec.ushiftRight_eq', BitVec.toNat_ushiftRight, hdiff,
      Nat.shiftRight_eq_div_pow]
    omega
  · rw [if_neg hlarge] at hbounds ⊢
    have hle : msb ≤ 23#32 := by
      rw [BitVec.le_def, hmsb]
      exact Nat.le_of_not_le hlarge
    have hdiff : (23#32 - msb).toNat = 23 - a.toNat.log2 := by
      rw [BitVec.toNat_sub_of_le hle, hmsb]
      rfl
    rw [if_neg (fun h => hlarge (hge.mp h)), hmask, BitVec.shiftLeft_eq', BitVec.toNat_shiftLeft,
      hdiff, Nat.shiftLeft_eq]
    omega

/-- A word that is not zero. -/
theorem natAbs_toInt_ne_zero (hv : v ≠ 0#32) : v.toInt.natAbs ≠ 0 := by
  rw [Ne, Int.natAbs_eq_zero]
  exact fun hzero => hv (BitVec.eq_of_toInt_eq hzero)

/-- The fields of a nonzero word. -/
theorem q20ToF32_toNat (hv : v ≠ 0#32) :
    (q20ToF32 v).toNat = (if v.slt 0#32 then 2 ^ 31 else 0) +
      (2 ^ 23 * (v.toInt.natAbs.log2 + 107) + (significand v.toInt.natAbs - 2 ^ 23)) := by
  have hmagnitude := toNat_magnitude v
  have hne := natAbs_toInt_ne_zero hv
  unfold q20ToF32
  rw [if_neg hv]
  generalize (if v.slt 0#32 then -v else v) = a at hmagnitude
  have hlog : a.toNat.log2 < 32 := (Nat.log2_lt (hmagnitude ▸ hne)).mpr a.isLt
  have hmsb : (BitVec.ofNat 32 (fls a) - 1#32).toNat = a.toNat.log2 := by
    rw [fls, if_neg (hmagnitude ▸ hne), BitVec.ofNat_add]
    show (BitVec.ofNat 32 a.toNat.log2 + 1#32 - 1#32).toNat = _
    rw [BitVec.add_sub_cancel, BitVec.toNat_ofNat, Nat.mod_eq_of_lt (by omega)]
  have he : (BitVec.ofNat 32 (fls a) - 1#32 - 20#32 + 127#32).toNat = a.toNat.log2 + 107 := by
    have hbias : (20#32).toNat = 20 ∧ (127#32).toNat = 127 := ⟨rfl, rfl⟩
    rw [BitVec.toNat_add, BitVec.toNat_sub, hmsb, hbias.1, hbias.2]
    omega
  have hm := toNat_mantissa (hmagnitude ▸ hne) hmsb
  have hbounds := significand_bounds (hmagnitude ▸ hne : a.toNat ≠ 0)
  rw [toNat_fields (v.slt 0#32) (by rw [he]; omega) (by rw [hm]; omega), he, hm, hmagnitude]

/-! ## The truncated value -/

/-- The magnitude of a Q20 value, cut to 24 bits. -/
theorem truncate_q20 {n : Nat} (hn : n ≠ 0) :
    truncate 24 ((n : ℚ) * 2 ^ (-20 : ℤ)) =
      (significand n * 2 ^ (n.log2 + 106) : ℕ) * 2 ^ (-149 : ℤ) := by
  have hscale : ∀ m : ℕ, (2 : ℚ) ^ (m : ℤ) * 2 ^ (-149 : ℤ) = 2 ^ ((m : ℤ) - 149) := fun m => by
    rw [← zpow_add₀ (by norm_num)]
    rfl
  unfold significand
  split
  · next hlarge =>
      obtain ⟨drop, hdrop⟩ := Nat.exists_eq_add_of_le hlarge
      have hweight : (2 : ℚ) ^ (-20 : ℤ) * 2 ^ drop = 2 ^ (n.log2 + 106) * 2 ^ (-149 : ℤ) := by
        rw [← zpow_natCast, ← zpow_natCast, hscale, ← zpow_add₀ (by norm_num)]
        congr 1
        omega
      have hdigits : n.log2 + 1 = 24 + drop := by omega
      rw [truncate_natCast_mul hn _ hdigits, hdrop, Nat.add_sub_cancel_left]
      rw [hdrop] at hweight
      push_cast at hweight ⊢
      linear_combination (n / 2 ^ drop : ℕ) * hweight
  · next hsmall =>
      obtain ⟨spare, hspare⟩ := Nat.exists_eq_add_of_le (Nat.le_of_not_le hsmall)
      have hweight : (2 : ℚ) ^ (-20 : ℤ) = 2 ^ spare * 2 ^ (n.log2 + 106) * 2 ^ (-149 : ℤ) := by
        rw [mul_assoc, ← zpow_natCast, ← zpow_natCast, hscale, ← zpow_add₀ (by norm_num)]
        congr 1
        omega
      rw [truncate_of_short hn _ (by omega), show 23 - n.log2 = spare by omega]
      push_cast
      linear_combination (n : ℚ) * hweight

/-- The sign, the exponent field and the value of the word put together. -/
theorem q20ToF32_fields (hv : v ≠ 0#32) :
    (q20ToF32 v).msb = v.slt 0#32 ∧
      (exponentField (q20ToF32 v)).toNat = v.toInt.natAbs.log2 + 107 ∧
      units 23 ((q20ToF32 v).toNat % 2 ^ 31) =
        significand v.toInt.natAbs * 2 ^ (v.toInt.natAbs.log2 + 106) := by
  have hne := natAbs_toInt_ne_zero hv
  have hbounds := significand_bounds hne
  have htoNat := q20ToF32_toNat hv
  have hlog : v.toInt.natAbs.log2 < 32 := by
    rw [Nat.log2_lt hne, ← toNat_magnitude]
    exact BitVec.isLt _
  have hrest : (q20ToF32 v).toNat % 2 ^ 31 =
      2 ^ 23 * (v.toInt.natAbs.log2 + 107) + (significand v.toInt.natAbs - 2 ^ 23) := by
    split at htoNat <;> omega
  refine ⟨?_, ?_, ?_⟩
  · rw [BitVec.msb_eq_decide]
    cases hsign : v.slt 0#32 <;> rw [hsign] at htoNat
    · rw [if_neg Bool.false_ne_true] at htoNat
      exact decide_eq_false (by omega)
    · rw [if_pos rfl] at htoNat
      exact decide_eq_true (by omega)
  · rw [exponentField, BitVec.extractLsb'_toNat, Nat.shiftRight_eq_div_pow]
    omega
  · have hleading : 2 ^ 23 + (significand v.toInt.natAbs - 2 ^ 23) = significand v.toInt.natAbs :=
      Nat.add_sub_cancel' hbounds.1
    rw [hrest, units_add (by omega) (by omega), hleading]
    rfl

/-- A nonzero Q20 value, by its sign and its magnitude. -/
theorem toInt_eq_sign_mul (v : BitVec 32) :
    (v.toInt : ℚ) / 2 ^ 20 =
      (if v.slt 0#32 then -1 else 1) * ((v.toInt.natAbs : ℚ) * 2 ^ (-20 : ℤ)) := by
  have hscale : (2 : ℚ) ^ (-20 : ℤ) = 1 / 2 ^ 20 := by norm_num
  have hsign : v.slt 0#32 ↔ v.toInt < 0 := BitVec.slt_iff_toInt_lt
  rw [hscale]
  split
  · next hnegative =>
      have habs : ((v.toInt.natAbs : ℤ) : ℚ) = -v.toInt := by
        exact_mod_cast congrArg (Int.cast (R := ℚ))
          (Int.ofNat_natAbs_of_nonpos (hsign.mp hnegative).le)
      rw [Int.cast_natCast] at habs
      rw [habs]
      ring
  · next hpositive =>
      have habs : ((v.toInt.natAbs : ℤ) : ℚ) = v.toInt :=
        congrArg _ (Int.natAbs_of_nonneg (not_lt.mp (mt hsign.mpr hpositive)))
      rw [Int.cast_natCast] at habs
      rw [habs]
      ring

/-- The word is the pattern of the truncated value. -/
theorem isSingle_q20ToF32 (v : BitVec 32) :
    IsSingle (q20ToF32 v) (truncate 24 ((v.toInt : ℚ) / 2 ^ 20)) := by
  by_cases hv : v = 0#32
  · subst hv
    refine ⟨?_, fun _ => rfl⟩
    have hzero : ((0#32).toInt : ℚ) / 2 ^ 20 = 0 := by norm_num
    rw [hzero, truncate_zero]
    have hfields : exponentField (q20ToF32 0#32) ≠ 255#8 := by decide
    have hpattern : (q20ToF32 0#32).toNat % 2 ^ 31 = 0 := by decide
    rw [single, if_neg hfields, hpattern, units_of_lt (by positivity)]
    simp
  · obtain ⟨hmsb, hexponent, hunits⟩ := q20ToF32_fields hv
    have hne := natAbs_toInt_ne_zero hv
    have hbounds := significand_bounds hne
    have hlog : v.toInt.natAbs.log2 < 32 := by
      rw [Nat.log2_lt hne, ← toNat_magnitude]
      exact BitVec.isLt _
    -- at most 31 bits over 2^20 stay far from the exponents of infinity
    have hfinite : exponentField (q20ToF32 v) ≠ 255#8 := by
      intro h
      rw [h] at hexponent
      have h255 : (255#8).toNat = 255 := rfl
      omega
    have hpos : (0 : ℚ) < (v.toInt.natAbs : ℚ) * 2 ^ (-20 : ℤ) :=
      mul_pos (Nat.cast_pos.mpr (Nat.pos_of_ne_zero hne)) (zpow_pos two_pos _)
    have hcut : truncate 24 ((v.toInt : ℚ) / 2 ^ 20) = (if v.slt 0#32 then -1 else 1) *
        ((significand v.toInt.natAbs * 2 ^ (v.toInt.natAbs.log2 + 106) : ℕ) * 2 ^ (-149 : ℤ)) := by
      rw [toInt_eq_sign_mul, ← truncate_q20 hne]
      split
      · rw [neg_one_mul, truncate_neg hpos, neg_one_mul]
      · rw [one_mul, one_mul]
    rw [hcut]
    refine ⟨single_of_fields hfinite hmsb hunits, fun hzero => ?_⟩
    have hsignificand : 0 < significand v.toInt.natAbs :=
      Nat.lt_of_lt_of_le (Nat.two_pow_pos 23) hbounds.1
    have hcount : (0 : ℚ) <
        (significand v.toInt.natAbs * 2 ^ (v.toInt.natAbs.log2 + 106) : ℕ) * 2 ^ (-149 : ℤ) :=
      mul_pos (Nat.cast_pos.mpr (Nat.mul_pos hsignificand (Nat.two_pow_pos _)))
        (zpow_pos two_pos _)
    obtain hsign | hvalue := mul_eq_zero.mp hzero
    · split at hsign <;> simp at hsign
    · exact absurd hvalue hcount.ne'

/-- What a word of the DSP's struct means: for every Q20 value the pattern is the one of the value
cut to 24 significant bits. It is zero for zero, and else has the sign of the value and the exponent
of its leading bit. -/
theorem q20ToF32_single (v : BitVec 32) :
    (∀ bits, IsSingle bits (truncate 24 ((v.toInt : ℚ) / 2 ^ 20)) ↔ bits = q20ToF32 v) ∧
      (v = 0#32 → q20ToF32 v = 0#32) ∧
      (v ≠ 0#32 → ((q20ToF32 v).msb = true ↔ v.toInt < 0) ∧
        ((exponentField (q20ToF32 v)).toNat : ℤ) = Int.log 2 |(v.toInt : ℚ) / 2 ^ 20| + 127) := by
  refine ⟨fun bits => ⟨fun h => h.unique (isSingle_q20ToF32 v), ?_⟩, ?_, fun hv => ?_⟩
  · rintro rfl
    exact isSingle_q20ToF32 v
  · rintro rfl
    rfl
  · obtain ⟨hmsb, hexponent, -⟩ := q20ToF32_fields hv
    have hnonneg : (0 : ℚ) ≤ (v.toInt.natAbs : ℚ) * 2 ^ (-20 : ℤ) := by positivity
    have habs : |(v.toInt : ℚ) / 2 ^ 20| = (v.toInt.natAbs : ℚ) * 2 ^ (-20 : ℤ) := by
      rw [toInt_eq_sign_mul, abs_mul, abs_of_nonneg hnonneg]
      split <;> simp
    rw [hmsb, hexponent, habs, log_natCast_mul (natAbs_toInt_ne_zero hv)]
    refine ⟨BitVec.slt_iff_toInt_lt, ?_⟩
    push_cast
    ring

/-- Every word that the DSP reads as a number is the pattern of its truncated coefficient. -/
theorem qecWriteStruct_single (model : Model) (tauQ20 : BitVec 32) {i : Nat} (hi : i < 15)
    (hdelay : i ≠ 12) :
    ∀ word ∈ (qecWriteStruct model tauQ20)[i]?,
      IsSingle word (truncate 24 (((coefficientQ20 model tauQ20 i).toInt : ℚ) / 2 ^ 20)) := by
  intro word hword
  rw [qecWriteStruct, List.getElem?_map, List.getElem?_range hi, Option.map_some, if_neg hdelay,
    Option.mem_some_iff] at hword
  rw [← hword]
  exact isSingle_q20ToF32 _

end RfnmDriver.Rx.Qec
