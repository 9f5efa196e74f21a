import Mathlib.Data.Fin.VecNotation
import RfnmDriver.Rx.QecSolve

/-!
# The ranges of the solve

Up to the quotients the numbers of a window are bounded: the moments have 32 bits, the sums after
scaling 38 and 30, the determinant and its numerators 61. The quotients are not, and the casts of
the coefficients are where a window can go wrong. `qecSolve_succeeds` says for which windows nothing
does, and `tone_window_overflows` shows one.
-/

namespace RfnmDriver.Rx.Qec

open CheckedInt Lanes

/-! ## The moments -/

section Moments

variable {a : QecAcc} {count : Nat}

/-- A mean in Q8 has 20 bits. -/
theorem gives_mean8 {sum : Int} {n : Nat} (hn : 0 < n) (hwindow : n < 4294967296)
    (hsum : |sum| ≤ 2048 * n) :
    Gives (shl64 sum 8) (sum * 2 ^ 8) (2048 * n * 2 ^ 8) ∧
      Gives (div64 (sum * 2 ^ 8) n) (mean8 sum n) 524288 := by
  have hshl := gives_shl64 (k := 8) hsum (by omega) (by omega)
  exact ⟨hshl, gives_div64 (by omega) (hshl.abs_le.trans (by omega)) (by omega)⟩

/-- A central moment has 32 bits. -/
theorem gives_centralMoment {sum first second : Int} {cnt : Nat} (hcnt : 0 < cnt)
    (hwindow : cnt < 4294967296) (hsum : |sum| ≤ 4194304 * cnt) (hfirst : |first| ≤ 524288)
    (hsecond : |second| ≤ 524288) :
    Gives (centralMoment sum cnt first second) (moment sum cnt first second) 2147483648 := by
  have hshl : Gives (shl64 sum 8) (sum * 2 ^ 8) (4194304 * cnt * 2 ^ 8) :=
    gives_shl64 (k := 8) hsum (by omega) (by omega)
  have hdiv : Gives (div64 (sum * 2 ^ 8) cnt) ((sum * 2 ^ 8).tdiv cnt) 1073741824 :=
    gives_div64 (by omega) (hshl.abs_le.trans (by omega)) (by omega)
  have hmul := gives_mul64 hfirst hsecond (by omega)
  have hsar : Gives (sar64 (first * second) 8) (first * second / 2 ^ 8) 1073741824 :=
    gives_sar64 (k := 8) (hmul.abs_le.trans (by omega)) (by omega)
  have hsub := gives_sub64 hdiv.abs_le hsar.abs_le (by omega)
  refine Gives.mono ⟨?_, hsub.abs_le⟩ (by omega)
  unfold centralMoment
  rw [hshl.bind, hdiv.bind, hmul.bind, hsar.bind]
  exact hsub.eq

/-- The means of a window, and the counts of its lags. -/
theorem QecAcc.Holds.means (h : a.Holds count) (hcount : count ≠ 0)
    (hwindow : 576 * count < 4294967296) :
    |mean8 a.si a.n| ≤ 524288 ∧ |mean8 a.sq a.n| ≤ 524288 ∧
      ∀ m, 0 < a.cnt m ∧ a.cnt m < 4294967296 := by
  have hn := h.n
  have hsi : |a.si| ≤ 2048 * (a.n : Nat) := hn ▸ h.bounded.si
  have hsq : |a.sq| ≤ 2048 * (a.n : Nat) := hn ▸ h.bounded.sq
  refine ⟨(gives_mean8 (by omega) (by omega) hsi).2.abs_le,
    (gives_mean8 (by omega) (by omega) hsq).2.abs_le, fun m => ?_⟩
  have hm := m.isLt
  rw [h.cnt]
  exact ⟨Nat.mul_pos (by omega) (by omega),
    (Nat.mul_le_mul_right _ (Nat.sub_le _ _)).trans_lt hwindow⟩

/-- The bounds of the moments of a lag. -/
structure LagMoments.Bounded (x : LagMoments) : Prop where
  ra : |x.ra| ≤ 4294967296
  ia : |x.ia| ≤ 4294967296
  rc : |x.rc| ≤ 4294967296
  ic : |x.ic| ≤ 4294967296

/-- The moments of a lag are exact. -/
theorem lagMoments_eq (h : a.Holds count) (hcount : count ≠ 0)
    (hwindow : 576 * count < 4294967296) (m : Fin 4) :
    lagMoments a (mean8 a.si a.n) (mean8 a.sq a.n) m = .ok (exactLag a m) ∧
      (exactLag a m).Bounded := by
  obtain ⟨hmi, hmq, hcnt⟩ := h.means hcount hwindow
  have hmoment : ∀ {sum first second : Int}, |sum| ≤ 4194304 * ((576 - m) * count : Nat) →
      |first| ≤ 524288 → |second| ≤ 524288 →
      Gives (centralMoment sum (a.cnt m) first second) (moment sum (a.cnt m) first second)
        2147483648 := fun hsum hfirst hsecond =>
    gives_centralMoment (hcnt m).1 (hcnt m).2 (by rwa [h.cnt]) hfirst hsecond
  have hii := hmoment (h.bounded.pii m) hmi hmi
  have hqq := hmoment (h.bounded.pqq m) hmq hmq
  have hiq := hmoment (h.bounded.piq m) hmi hmq
  have hqi := hmoment (h.bounded.pqi m) hmi hmq
  have hra := gives_add64 hii.abs_le hqq.abs_le (by omega)
  have hia := gives_sub64 hiq.abs_le hqi.abs_le (by omega)
  have hrc := gives_sub64 hii.abs_le hqq.abs_le (by omega)
  have hic := gives_add64 hiq.abs_le hqi.abs_le (by omega)
  unfold lagMoments exactLag
  rw [hii.bind, hqq.bind, hiq.bind, hqi.bind, hra.bind, hia.bind]
  by_cases hlag : m.val < 3
  · rw [if_pos hlag, hrc.bind, hic.bind]
    dsimp only
    rw [if_pos hlag, if_pos hlag]
    exact ⟨rfl, hra.abs_le, hia.abs_le, hrc.abs_le, hic.abs_le⟩
  · rw [if_neg hlag]
    dsimp only
    rw [if_neg hlag, if_neg hlag]
    have hzero : |(0 : Int)| ≤ 4294967296 := by simp
    exact ⟨rfl, hra.abs_le, hia.abs_le, hzero, hzero⟩

/-- The moments of a window are exact. -/
theorem qecMoments_eq (h : a.Holds count) (hcount : count ≠ 0)
    (hwindow : 576 * count < 4294967296) :
    qecMoments a (mean8 a.si a.n) (mean8 a.sq a.n) = .ok (exactMoments a) ∧
      ∀ arr m, |exactMoments a arr m| ≤ 4294967296 := by
  have hlag := lagMoments_eq h hcount hwindow
  have hbound := fun m => (hlag m).2
  -- two of the moments are halves, rounded down
  have hhalf : Gives (sar64 (exactLag a (lag 2)).ia 1) ((exactLag a (lag 2)).ia / 2 ^ 1)
      4294967296 :=
    gives_sar64 (k := 1) ((hbound (lag 2)).ia.trans (by omega)) (by omega)
  have hsub := gives_sub64 (hbound (lag 3)).ia (hbound (lag 1)).ia (by omega)
  have hlast : Gives (sar64 ((exactLag a (lag 3)).ia - (exactLag a (lag 1)).ia) 1)
      (((exactLag a (lag 3)).ia - (exactLag a (lag 1)).ia) / 2 ^ 1) 4294967296 :=
    gives_sar64 (k := 1) (hsub.abs_le.trans (by omega)) (by omega)
  constructor
  · unfold qecMoments
    rw [(hlag (lag 0)).1, ok_bind, (hlag (lag 1)).1, ok_bind, (hlag (lag 2)).1, ok_bind,
      (hlag (lag 3)).1, ok_bind, hhalf.bind, hsub.bind, hlast.bind]
    refine congrArg Except.ok (funext fun arr => ?_)
    cases arr <;> rfl
  · have hall : ∀ {x y z : Int}, |x| ≤ 4294967296 → |y| ≤ 4294967296 → |z| ≤ 4294967296 →
        ∀ m : Fin 3, |threeLags x y z m| ≤ 4294967296 := by
      intro x y z hx hy hz m
      unfold threeLags
      split
      · exact hx
      · split
        · exact hy
        · exact hz
    intro arr
    cases arr with
    | ra => exact hall (hbound (lag 0)).ra (hbound (lag 1)).ra (hbound (lag 2)).ra
    | rc => exact hall (hbound (lag 0)).rc (hbound (lag 1)).rc (hbound (lag 2)).rc
    | iap => exact hall (hbound (lag 1)).ia hhalf.abs_le hlast.abs_le
    | ic => exact hall (hbound (lag 0)).ic (hbound (lag 1)).ic (hbound (lag 2)).ic

end Moments

/-! ## Scaling -/

/-- The peak is below a limit exactly if all values are. -/
theorem peak_spec (arrs : List Arr) {x : Values} {bound : Int}
    (hx : ∀ arr m, |x arr m| ≤ bound) (hbound : bound < 9223372036854775808) :
    ∃ mx, peak arrs x = .ok mx ∧ ∀ limit, 0 < limit → (mx < limit ↔ Below arrs limit x) := by
  have hrun : ∀ (places : List (Arr × Fin 3)) (start : Int), ∃ mx,
      places.foldlM (fun mx place => return max mx (← abs64 (x place.1 place.2))) start =
        (.ok mx : Checked Int) ∧
      ∀ limit, mx < limit ↔ start < limit ∧ ∀ place ∈ places, |x place.1 place.2| < limit := by
    intro places
    induction places with
    | nil => exact fun start => ⟨start, rfl, fun limit => by simp⟩
    | cons place rest ih =>
        intro start
        have habs := gives_abs64 (hx place.1 place.2) hbound
        obtain ⟨mx, hmx, hlimit⟩ := ih (max start |x place.1 place.2|)
        refine ⟨mx, ?_, fun limit => ?_⟩
        · rw [List.foldlM_cons, habs.bind]
          exact hmx
        · rw [hlimit, max_lt_iff, List.forall_mem_cons, and_assoc]
  obtain ⟨mx, hmx, hlimit⟩ := hrun (arrs.product lags) 0
  exact ⟨mx, hmx, fun limit hpositive => (hlimit limit).trans (and_iff_right hpositive)⟩

/-- Half of a value of so many bits. -/
theorem abs_half_le {x : Int} {k : Nat} (hx : |x| ≤ 2 ^ (k + 1)) : |x / 2| ≤ 2 ^ k := by
  have hpower : (2 : Int) ^ (k + 1) = 2 * 2 ^ k := Int.pow_succ' 2 k
  have hrange := abs_le.mp (hpower ▸ hx)
  rw [abs_le]
  omega

/-- A loop halves as often as it has to. -/
theorem normalise_eq (arrs : List Arr) (k sh : Nat) {x : Values}
    (hx : ∀ arr m, |x arr m| ≤ 2 ^ (k + sh)) (hwidth : k + sh < 63) :
    normalise arrs (2 ^ (k + 1)) sh x = .ok (reduced arrs (2 ^ (k + 1)) sh x) ∧
      ∀ place ∈ arrs.product lags,
        |reduced arrs (2 ^ (k + 1)) sh x place.1 place.2| ≤ 2 ^ (k + 1) := by
  have hlimit : (0 : Int) < 2 ^ (k + 1) := Int.pow_pos (by omega)
  induction sh generalizing x with
  | zero =>
      refine ⟨rfl, fun place _ => (hx place.1 place.2).trans ?_⟩
      exact pow_le_pow_right₀ (by omega) (by omega)
  | succ sh ih =>
      have hbound : (2 : Int) ^ (k + (sh + 1)) < 9223372036854775808 :=
        calc (2 : Int) ^ (k + (sh + 1)) ≤ 2 ^ 62 := pow_le_pow_right₀ (by omega) (by omega)
          _ < 9223372036854775808 := by omega
      obtain ⟨mx, hmx, hbelow⟩ := peak_spec arrs hx hbound
      unfold normalise reduced
      rw [hmx, ok_bind]
      by_cases h : Below arrs (2 ^ (k + 1)) x
      · rw [if_pos ((hbelow _ hlimit).mpr h), if_pos h]
        exact ⟨rfl, fun place hplace => (h place hplace).le⟩
      · rw [if_neg (mt (hbelow _ hlimit).mp h), if_neg h]
        exact ih (fun arr m => abs_half_le (hx arr m)) (by omega)

theorem mem_places {arrs : List Arr} {arr : Arr} (harr : arr ∈ arrs) (m : Fin 3) :
    (arr, m) ∈ arrs.product lags := by
  have hlag : ∀ m : Fin 3, m ∈ lags := by decide
  exact List.mem_product.mpr ⟨harr, hlag m⟩

/-! ## The sums -/

theorem gives_dot {x y : Fin 3 → Int} {bound : Int} (hx : ∀ m, |x m| ≤ bound)
    (hy : ∀ m, |y m| ≤ bound) (h : 3 * (bound * bound) < 9223372036854775808) :
    Gives (mac64 x y lags) (dot x y) (3 * (bound * bound)) :=
  gives_mac64 (fun m _ => hx m) (fun m _ => hy m) h

/-- A sum of squares. -/
theorem dot_self_nonneg (x : Fin 3 → Int) : 0 ≤ dot x x := by
  refine List.sum_nonneg fun term hterm => ?_
  obtain ⟨m, -, rfl⟩ := List.mem_map.mp hterm
  exact mul_self_nonneg (x m)

/-- The bounds of the sums. -/
structure NormalSums.Bounded (s : NormalSums) : Prop where
  rc : |s.rc| ≤ 206158430208
  rr : 0 ≤ s.rr
  rr2 : |s.rr2| ≤ 805306368
  ri : |s.ri| ≤ 805306368
  ii : |s.ii| ≤ 805306368
  rb : |s.rb| ≤ 805306368
  ib : |s.ib| ≤ 805306368

/-- The sums of a window are exact. -/
theorem normalSums_eq {a : QecAcc} (hx : ∀ arr m, |exactMoments a arr m| ≤ 4294967296) :
    ∃ eps phi, normalise [.ra, .rc] 262144 40 (exactMoments a) = .ok eps ∧
      normalise [.ra, .iap, .ic] 16384 40 (exactMoments a) = .ok phi ∧
      normalSums eps phi = .ok (exactSums a) ∧ (exactSums a).Bounded := by
  obtain ⟨heps, hepsBound⟩ := normalise_eq [.ra, .rc] 17 40
    (fun arr m => (hx arr m).trans (by omega)) (by omega)
  obtain ⟨hphi, hphiBound⟩ := normalise_eq [.ra, .iap, .ic] 13 40
    (fun arr m => (hx arr m).trans (by omega)) (by omega)
  have hmem := fun {arrs : List Arr} {arr : Arr} (harr : arr ∈ arrs) m => mem_places harr m
  have hra := fun m => hepsBound (.ra, m) (hmem (by decide) m)
  have hrc := fun m => hepsBound (.rc, m) (hmem (by decide) m)
  have hra2 := fun m => hphiBound (.ra, m) (hmem (by decide) m)
  have hiap := fun m => hphiBound (.iap, m) (hmem (by decide) m)
  have hic := fun m => hphiBound (.ic, m) (hmem (by decide) m)
  have hrr := gives_dot hra hra (by omega)
  have hrc := gives_dot hra hrc (by omega)
  have hrr2 := gives_dot hra2 hra2 (by omega)
  have hri := gives_dot hra2 hiap (by omega)
  have hii := gives_dot hiap hiap (by omega)
  have hrb := gives_dot hra2 hic (by omega)
  have hib := gives_dot hiap hic (by omega)
  refine ⟨_, _, heps, hphi, ?_, hrc.abs_le, dot_self_nonneg _, hrr2.abs_le, hri.abs_le, hii.abs_le,
    hrb.abs_le, hib.abs_le⟩
  unfold normalSums
  rw [hrr.bind, hrc.bind, hrr2.bind, hri.bind, hii.bind, hrb.bind, hib.bind]
  rfl

/-! ## Quotients -/

/-- `fls` of a magnitude with its lowest bit set. -/
theorem fls_magnitude {num : Int} (hnum : |num| < 2305843009213693952) :
    fls (BitVec.ofInt 64 |num| ||| 1#64) ≤ 61 ∧
      |num| < 2 ^ fls (BitVec.ofInt 64 |num| ||| 1#64) := by
  obtain ⟨size, hsize⟩ : ∃ size : Nat, |num| = size := ⟨num.natAbs, Int.abs_eq_natAbs num⟩
  have hlt : size < 2 ^ 61 := by omega
  have hword : (BitVec.ofInt 64 |num| ||| 1#64).toNat = size ||| 1 := by
    rw [hsize, BitVec.ofInt_natCast, BitVec.toNat_or, BitVec.toNat_ofNat]
    rw [Nat.mod_eq_of_lt (by omega)]
    rfl
  have hor : size ≤ size ||| 1 := Nat.left_le_or
  have hne : size ||| 1 ≠ 0 := by
    have hone : 1 ≤ size ||| 1 := Nat.right_le_or
    omega
  have hfls : fls (BitVec.ofInt 64 |num| ||| 1#64) = (size ||| 1).log2 + 1 := by
    unfold fls
    rw [hword, if_neg hne]
  have hbits : (size ||| 1).log2 < 61 := (Nat.log2_lt hne).mpr (Nat.or_lt_two_pow hlt (by omega))
  have hpower : size ||| 1 < 2 ^ ((size ||| 1).log2 + 1) := Nat.lt_log2_self
  rw [hfls, hsize]
  refine ⟨by omega, ?_⟩
  exact_mod_cast hor.trans_lt hpower

/-- A division in Q20 is the division of the shifted numbers: no shift is out of range, and the
divisor is never zero. -/
theorem qecDivQ20_eq {num den : Int} (hnum : |num| < 2305843009213693952) (hden : 0 < den) :
    qecDivQ20 num den = .ok ((q20Num num).tdiv (q20Den num den)) ∧ 0 < q20Den num den := by
  obtain ⟨hfls, hsize⟩ := fls_magnitude hnum
  have habs := gives_abs64 hnum.le (by omega)
  have hk1 : (if (62 - fls (BitVec.ofInt 64 |num| ||| 1#64) : Int) < 20 then
      (62 - fls (BitVec.ofInt 64 |num| ||| 1#64) : Int) else 20) = q20Shift num := by
    unfold q20Shift
    split <;> omega
  have hshift : q20Shift num ≤ 20 := Nat.min_le_left _ _
  have hroom : q20Shift num + fls (BitVec.ofInt 64 |num| ||| 1#64) ≤ 62 := by
    unfold q20Shift
    omega
  have hsar : sar64 den (20 - q20Shift num) = .ok (den / 2 ^ (20 - q20Shift num)) := by
    have hcast : (20 - q20Shift num : Int) = (20 - q20Shift num : Nat) := by omega
    unfold sar64
    rw [if_pos ⟨by omega, by omega⟩, hcast, Int.toNat_natCast]
  have hnonneg : 0 ≤ den / 2 ^ (20 - q20Shift num) :=
    Int.ediv_nonneg hden.le (Int.pow_nonneg (by omega))
  have hdivisor : (if den / 2 ^ (20 - q20Shift num) = 0 then 1
      else den / 2 ^ (20 - q20Shift num)) = q20Den num den := by
    unfold q20Den
    split <;> omega
  have hpositive : 0 < q20Den num den := by
    unfold q20Den
    omega
  -- the shift is chosen so that the numerator does not pass 2^62
  have hscaled : |num| * 2 ^ q20Shift num ≤ 2 ^ 62 :=
    calc |num| * 2 ^ q20Shift num
        ≤ 2 ^ fls (BitVec.ofInt 64 |num| ||| 1#64) * 2 ^ q20Shift num :=
          mul_le_mul_of_nonneg_right hsize.le (Int.pow_nonneg (by omega))
      _ = 2 ^ (fls (BitVec.ofInt 64 |num| ||| 1#64) + q20Shift num) := (pow_add _ _ _).symm
      _ ≤ 2 ^ 62 := pow_le_pow_right₀ (by omega) (by omega)
  have hshl := gives_shl64 (le_refl |num|) (show q20Shift num < 64 by omega) (by omega)
  have hquotient : |q20Num num| ≤ 4611686018427387904 * q20Den num den := by
    have hbound := hshl.abs_le.trans hscaled
    unfold q20Num
    omega
  refine ⟨?_, hpositive⟩
  unfold qecDivQ20
  rw [habs.bind]
  dsimp only
  rw [hk1, hsar, ok_bind, hshl.bind, hdivisor]
  exact (gives_div64 hpositive hquotient (by omega)).eq

/-- What the damping makes of a quotient. -/
theorem damped_succeeds (betaQ8 : BitVec 32) (q : Int) :
    Succeeds (damped betaQ8 q) ↔
      -549755813888 ≤ q * betaQ8.toInt ∧ q * betaQ8.toInt < 549755813888 := by
  have hsar : ∀ x : Int, sar64 x 8 = .ok (x / 2 ^ 8) := fun x => if_pos ⟨by omega, by omega⟩
  unfold damped mul64
  rw [succeeds_bind_iff]
  constructor
  · rintro ⟨product, hproduct, hrest⟩
    obtain ⟨-, rfl⟩ := s64_eq_ok_iff.mp hproduct
    rw [hsar, ok_bind, succeeds_bind_iff] at hrest
    obtain ⟨value, hcast, -⟩ := hrest
    have hrange : InS32 (q * betaQ8.toInt / 2 ^ 8) := by
      by_contra hnot
      rw [toS32, if_neg hnot] at hcast
      cases hcast
    unfold InS32 at hrange
    omega
  · intro h
    refine ⟨_, s64_eq_ok_iff.mpr ⟨⟨by omega, by omega⟩, rfl⟩, ?_⟩
    have hrange : InS32 (q * betaQ8.toInt / 2 ^ 8) := ⟨by omega, by omega⟩
    rw [hsar, ok_bind, toS32, if_pos hrange]
    exact succeeds_ok _

/-- The same without the quotient. -/
theorem reach_iff {beta num den : Int} (hden : 0 < den) :
    Reach beta num den ↔
      -549755813888 ≤ num.tdiv den * beta ∧ num.tdiv den * beta < 549755813888 := by
  have hdown : 0 ≤ reachDown beta := by
    unfold reachDown
    exact Int.ediv_nonneg (by split <;> omega) (abs_nonneg beta)
  have hup : 0 ≤ reachUp beta := by
    unfold reachUp
    exact Int.ediv_nonneg (by split <;> omega) (abs_nonneg beta)
  unfold Reach
  rw [← neg_le_tdiv_iff hden hdown, ← tdiv_le_iff hden hup]
  unfold reachDown reachUp
  obtain hneg | rfl | hpos := lt_trichotomy beta 0
  · have habs : 0 < |beta| := abs_pos.mpr hneg.ne
    have hproduct : num.tdiv den * |beta| = -(num.tdiv den * beta) := by
      rw [abs_of_neg hneg, Int.mul_neg]
    have hopposite : -num.tdiv den * |beta| = num.tdiv den * beta := by
      rw [Int.neg_mul, hproduct, Int.neg_neg]
    rw [if_neg (by omega), if_neg (by omega), or_iff_right hneg.ne, neg_le,
      Int.le_ediv_iff_mul_le habs, Int.le_ediv_iff_mul_le habs, hproduct, hopposite]
    omega
  · simp
  · have habs : 0 < |beta| := abs_pos.mpr hpos.ne'
    have hproduct : num.tdiv den * |beta| = num.tdiv den * beta := by rw [abs_of_pos hpos]
    have hopposite : -num.tdiv den * |beta| = -(num.tdiv den * beta) := by
      rw [Int.neg_mul, hproduct]
    rw [if_pos hpos, if_pos hpos, or_iff_right hpos.ne', neg_le,
      Int.le_ediv_iff_mul_le habs, Int.le_ediv_iff_mul_le habs, hproduct, hopposite]
    omega

/-! ## The solve -/

theorem gives_cross64 {x y z w : Int} (hx : |x| ≤ 805306368) (hy : |y| ≤ 805306368)
    (hz : |z| ≤ 805306368) (hw : |w| ≤ 805306368) :
    Gives (cross64 x y z w) (x * y - z * w) 1297036692682702848 := by
  have hxy := gives_mul64 hx hy (by omega)
  have hzw := gives_mul64 hz hw (by omega)
  have hsub := gives_sub64 hxy.abs_le hzw.abs_le (by omega)
  refine ⟨?_, hsub.abs_le⟩
  unfold cross64
  rw [hxy.bind, hzw.bind]
  exact hsub.eq

/-- Phase and delay in Q20. -/
def exactPhaseDelay (s : NormalSums) : Int × Int :=
  if 0 < s.det then
    ((q20Num s.phaseNum).tdiv (q20Den s.phaseNum s.det),
      (q20Num s.delayNum).tdiv (q20Den s.delayNum s.det))
  else (0, 0)

theorem phaseDelay_eq {s : NormalSums} (h : s.Bounded) :
    phaseDelay s = .ok (exactPhaseDelay s) := by
  have hdet := gives_cross64 h.rr2 h.ii h.ri h.ri
  have hphase := gives_cross64 h.rb h.ii h.ib h.ri
  have hdelay := gives_cross64 h.ib h.rr2 h.rb h.ri
  unfold phaseDelay exactPhaseDelay
  rw [hdet.bind]
  by_cases hpositive : 0 < s.det
  · have hp := (qecDivQ20_eq (hphase.abs_le.trans_lt (by omega)) hpositive).1
    have ht := (qecDivQ20_eq (hdelay.abs_le.trans_lt (by omega)) hpositive).1
    unfold NormalSums.det NormalSums.phaseNum NormalSums.delayNum at *
    rw [if_pos hpositive, if_pos hpositive, hphase.bind, hp, ok_bind, hdelay.bind, ht]
    rfl
  · rw [if_neg hpositive]
    exact if_neg hpositive

/-- The means of the two channels in Q20. -/
theorem dcQ20_eq {sum : Int} {n : Nat} (hn : 0 < n) (hwindow : n < 4294967296)
    (hsum : |sum| ≤ 2048 * n) :
    dcQ20 sum n = .ok ((sum * 2 ^ 20).tdiv (n * 2048)) := by
  have hshl : Gives (shl64 sum 20) (sum * 2 ^ 20) (2048 * n * 2 ^ 20) :=
    gives_shl64 (k := 20) hsum (by omega) (by omega)
  have hmul : Gives (mul64 n 2048) (n * 2048) 8796093022208 := by
    refine gives_s64 ?_ (by omega)
    rw [abs_of_nonneg (by omega)]
    omega
  have hdiv : Gives (div64 (sum * 2 ^ 20) (n * 2048)) ((sum * 2 ^ 20).tdiv (n * 2048)) 1048576 :=
    gives_div64 (by omega) (hshl.abs_le.trans (by omega)) (by omega)
  unfold dcQ20
  rw [hshl.bind, hmul.bind]
  exact hdiv.eq

/-- The alarm computes nothing that could overflow. -/
theorem driftAlarm_succeeds (params : SolveParams) (null : NullArm) {mi mq : Int}
    (hmi : |mi| ≤ 524288) (hmq : |mq| ≤ 524288) : Succeeds (driftAlarm params null mi mq) := by
  have hcount : ∀ {mean : Int}, |mean| ≤ 524288 → Gives (sar64 mean 8) (mean / 2 ^ 8) 2048 :=
    fun hmean => gives_sar64 (k := 8) (hmean.trans (by omega)) (by omega)
  have hdi := gives_abs64 (hcount hmi).abs_le (by omega)
  have hdq := gives_abs64 (hcount hmq).abs_le (by omega)
  have hfloor : |null.floor.val| ≤ 2048 := by
    rw [abs_of_nonneg null.floor.property.1]
    exact null.floor.property.2
  have hrenull : |params.dcRenullCounts.toInt| ≤ 2147483648 := by
    have hlow := BitVec.le_toInt params.dcRenullCounts
    have hhigh := BitVec.toInt_lt (x := params.dcRenullCounts)
    rw [abs_le]
    omega
  have hlimit := gives_add64 hfloor hrenull (by omega)
  unfold driftAlarm
  split
  · rw [(hcount hmi).bind, hdi.bind, (hcount hmq).bind, hdq.bind]
    dsimp only
    rw [hlimit.bind]
    exact succeeds_ok _
  · exact succeeds_ok _

/-- The model is updated exactly if none of the five ratios is out of reach. -/
theorem dampedModel_succeeds (params : SolveParams) (a : QecAcc) (model : Model) (e p t : Int)
    {dcI dcQ : Int} (hdcI : dcQ20 a.si a.n = .ok dcI) (hdcQ : dcQ20 a.sq a.n = .ok dcQ) :
    Succeeds (dampedModel params a model e p t) ↔
      Succeeds (damped params.betaQ8 e) ∧ Succeeds (damped params.betaQ8 p) ∧
        Succeeds (damped params.betaQ8 t) ∧ Succeeds (damped params.betaQ8 dcI) ∧
          Succeeds (damped params.betaQ8 dcQ) := by
  unfold dampedModel
  rw [hdcI, hdcQ]
  refine succeeds_bind_of_forall fun dEps => succeeds_bind_of_forall fun dPhi =>
    succeeds_bind_of_forall fun dTau => ?_
  rw [ok_bind]
  refine succeeds_bind_of_forall fun dRe => ?_
  rw [ok_bind, succeeds_bind_iff]
  exact ⟨fun ⟨value, hvalue, _⟩ => ⟨value, hvalue⟩,
    fun ⟨value, hvalue⟩ => ⟨value, hvalue, succeeds_ok _⟩⟩

/-- Zero is never out of range. -/
theorem damped_zero (betaQ8 : BitVec 32) : Succeeds (damped betaQ8 0) :=
  (damped_succeeds betaQ8 0).mpr (by omega)

theorem damped_phaseDelay (betaQ8 : BitVec 32) {s : NormalSums} (h : s.Bounded) :
    Succeeds (damped betaQ8 (exactPhaseDelay s).1) ∧
        Succeeds (damped betaQ8 (exactPhaseDelay s).2) ↔
      0 < s.det → Q20Reach betaQ8.toInt s.phaseNum s.det ∧
        Q20Reach betaQ8.toInt s.delayNum s.det := by
  have hphase := gives_cross64 h.rb h.ii h.ib h.ri
  have hdelay := gives_cross64 h.ib h.rr2 h.rb h.ri
  unfold exactPhaseDelay
  by_cases hpositive : 0 < s.det
  · have hp : 0 < q20Den s.phaseNum s.det :=
      (qecDivQ20_eq (hphase.abs_le.trans_lt (by omega)) hpositive).2
    have ht : 0 < q20Den s.delayNum s.det :=
      (qecDivQ20_eq (hdelay.abs_le.trans_lt (by omega)) hpositive).2
    rw [if_pos hpositive, damped_succeeds, damped_succeeds, ← reach_iff hp, ← reach_iff ht]
    exact ⟨fun h _ => h, fun h => h hpositive⟩
  · rw [if_neg hpositive]
    exact iff_of_true ⟨damped_zero _, damped_zero _⟩ fun hdet => absurd hdet hpositive

/-- An empty accumulator divides by zero. -/
theorem qecSolve_empty (params : SolveParams) {st : SolveState} (h : st.acc.n = 0) :
    ¬ Succeeds (qecSolve params st) := by
  unfold qecSolve
  dsimp only
  rw [h, succeeds_bind_iff]
  rintro ⟨shifted, -, value, hrest⟩
  cases hrest

variable {count : Nat}

/-- The solve of an accumulator with slots in it. -/
theorem qecSolve_succeeds_of_holds (params : SolveParams) {st : SolveState}
    (h : st.acc.Holds count) (hwindow : 576 * count < 4294967296) :
    Succeeds (qecSolve params st) ↔ Solvable params.betaQ8.toInt st.acc := by
  have hn := h.n
  obtain rfl | hcount := eq_or_ne count 0
  · exact iff_of_false (qecSolve_empty params h.n) fun hsolvable => hsolvable.sampled h.n
  have hpositive : 0 < st.acc.n := by omega
  have hbelow : st.acc.n < 4294967296 := by omega
  have hsi : |st.acc.si| ≤ 2048 * (st.acc.n : Nat) := hn ▸ h.bounded.si
  have hsq : |st.acc.sq| ≤ 2048 * (st.acc.n : Nat) := hn ▸ h.bounded.sq
  obtain ⟨hshlI, hmi⟩ := gives_mean8 hpositive hbelow hsi
  obtain ⟨hshlQ, hmq⟩ := gives_mean8 hpositive hbelow hsq
  obtain ⟨hmoments, hrange⟩ := qecMoments_eq h hcount hwindow
  obtain ⟨eps, phi, heps, hphi, hsums, hbounded⟩ := normalSums_eq hrange
  unfold qecSolve
  dsimp only
  rw [hshlI.bind, hmi.bind, hshlQ.bind, hmq.bind, hmoments, ok_bind, heps, ok_bind, hphi, ok_bind,
    hsums, ok_bind]
  -- without a reference there is nothing to solve
  by_cases hrr : (exactSums st.acc).rr = 0
  · rw [if_pos hrr]
    have hvoid : ∀ {P : Prop}, (exactSums st.acc).rr ≠ 0 → P := fun hne => absurd hrr hne
    exact iff_of_true (succeeds_ok _) ⟨by omega, hvoid, hvoid, hvoid, hvoid, hvoid⟩
  · have hgain := qecDivQ20_eq (hbounded.rc.trans_lt (by omega))
      (lt_of_le_of_ne hbounded.rr (Ne.symm hrr))
    have hdcI := dcQ20_eq hpositive hbelow hsi
    have hdcQ := dcQ20_eq hpositive hbelow hsq
    have hdcDen : (0 : Int) < st.acc.n * 2048 := by omega
    have halarm : ∀ model : Model, Succeeds (do
        let null ← driftAlarm params st.null (mean8 st.acc.si st.acc.n) (mean8 st.acc.sq st.acc.n)
        return (⟨.clear, model, st.statSolves + 1, null⟩ : SolveState)) ↔ True := fun model => by
      obtain ⟨null, hnull⟩ := driftAlarm_succeeds params st.null hmi.abs_le hmq.abs_le
      rw [hnull, ok_bind]
      exact iff_true_intro (succeeds_ok _)
    have hfits : ∀ {num den : Int}, 0 < den →
        (Succeeds (damped params.betaQ8 (num.tdiv den)) ↔ Reach params.betaQ8.toInt num den) :=
      fun hden => (damped_succeeds _ _).trans (reach_iff hden).symm
    rw [if_neg hrr, hgain.1, ok_bind, phaseDelay_eq hbounded, ok_bind,
      succeeds_bind_of_forall halarm, and_true, dampedModel_succeeds _ _ _ _ _ _ hdcI hdcQ]
    -- each of the five coefficients is in reach by itself; the phase and the delay share a divisor
    have hproblem := damped_phaseDelay params.betaQ8 hbounded
    constructor
    · rintro ⟨he, hp, ht, hi, hq⟩
      have hboth := hproblem.mp ⟨hp, ht⟩
      exact ⟨by omega, fun _ => (hfits hgain.2).mp he, fun _ hdet => (hboth hdet).1,
        fun _ hdet => (hboth hdet).2, fun _ => (hfits hdcDen).mp hi, fun _ => (hfits hdcDen).mp hq⟩
    · intro hsolvable
      have hboth := hproblem.mpr fun hdet =>
        ⟨hsolvable.phase hrr hdet, hsolvable.delay hrr hdet⟩
      exact ⟨(hfits hgain.2).mpr (hsolvable.gain hrr), hboth.1, hboth.2,
        (hfits hdcDen).mpr (hsolvable.dcI hrr), (hfits hdcDen).mpr (hsolvable.dcQ hrr)⟩

/-- At the default damping, and up to sixteen times it, the means are never out of reach. -/
theorem dcReach_of_damping {beta sum : Int} {n : Nat} (hbeta : |beta| ≤ 262144) (hn : 0 < n)
    (hsum : |sum| ≤ 2048 * n) : DcReach beta sum n := by
  have hden : (0 : Int) < n * 2048 := by omega
  have hscaled : |sum * 2 ^ 20| ≤ 1048576 * ((n : Int) * 2048) := by
    rw [abs_mul, abs_of_nonneg (by omega : (0 : Int) ≤ 2 ^ 20)]
    omega
  have hquotient := (gives_div64 hden hscaled (by omega)).abs_le
  have hproduct := (gives_mul64 hquotient hbeta (by omega)).abs_le
  have hrange := abs_le.mp hproduct
  exact (reach_iff hden).mpr ⟨by omega, by omega⟩

/-! ## A window of tones -/

/-- Half a slot of an alternating tone on both channels, half a slot of one at half the rate on
opposite channels, and one count. -/
def toneSample (k : Nat) : Int :=
  if k < 288 then (if k % 2 = 0 then 2000 else -2000)
  else if k < 292 then 0
  else if k % 4 = 0 ∨ k % 4 = 3 then 2000
  else -2000

def tonePayload : Payload := fun k =>
  let v := toneSample (k / 2)
  let sample := if k % 2 = 0 then (if k = 4 then v + 1 else v) else if k / 2 < 288 then v else -v
  BitVec.ofInt 16 (16 * sample)

def toneSlot : RingSlot := ⟨fun _ => ⟨0#32, 256, 0#32, 1⟩, tonePayload⟩

/-- The default parameters. -/
def SolveParams.default : SolveParams := ⟨64#32, true, 80#32⟩

/-- Its sums. -/
def toneSums : QecSums where
  si := 1#64
  sq := 0#64
  pii := fun m => BitVec.ofInt 64 (![2288004001, -1152004000, 16004000, -1136002000] m)
  pqq := fun m => BitVec.ofInt 64 (![2288000000, -1152000000, 16000000, -1136000000] m)
  piq := fun m => BitVec.ofInt 64 (![16002000, -1144002000, 2272002000, -1144002000] m)
  pqi := fun m => BitVec.ofInt 64 (![16002000, -1144002000, 2272002000, -1144000000] m)

theorem qecSlotScalar_tone : qecSlotScalar tonePayload = toneSums := by
  have hsums : (qecSlotScalar tonePayload).si = toneSums.si ∧
      (qecSlotScalar tonePayload).sq = toneSums.sq ∧
      ∀ m, (qecSlotScalar tonePayload).pii m = toneSums.pii m ∧
        (qecSlotScalar tonePayload).pqq m = toneSums.pqq m ∧
        (qecSlotScalar tonePayload).piq m = toneSums.piq m ∧
        (qecSlotScalar tonePayload).pqi m = toneSums.pqi m := by
    decide +kernel
  obtain ⟨hsi, hsq, hlags⟩ := hsums
  have hpii := funext fun m => (hlags m).1
  have hpqq := funext fun m => (hlags m).2.1
  have hpiq := funext fun m => (hlags m).2.2.1
  have hpqi := funext fun m => (hlags m).2.2.2
  calc qecSlotScalar tonePayload
      = ⟨(qecSlotScalar tonePayload).si, (qecSlotScalar tonePayload).sq,
          (qecSlotScalar tonePayload).pii, (qecSlotScalar tonePayload).pqq,
          (qecSlotScalar tonePayload).piq, (qecSlotScalar tonePayload).pqi⟩ := rfl
    _ = toneSums := by rw [hsi, hsq, hpii, hpqq, hpiq, hpqi]

/-- As many of these slots as the default `min_samples` asks for. -/
def toneAcc : QecAcc := .copies 6946 toneSums

/-- The delay comes out at more than 15000, and the largest that the cast carries is 8192. -/
theorem tone_out_of_reach : (exactSums toneAcc).rr ≠ 0 ∧ 0 < (exactSums toneAcc).det ∧
    ¬ Q20Reach 64 (exactSums toneAcc).delayNum (exactSums toneAcc).det := by
  unfold Q20Reach Reach
  decide +kernel

/-- Before its solve. -/
def toneState : SolveState :=
  ⟨toneAcc, ⟨0#32, 0#32, 0#32, 0#32, 0#32⟩, 0#32, ⟨false, false, ⟨0, level_zero⟩⟩⟩

theorem qecFold_tone :
    qecFold false (fun _ => 0#16) .clear (List.replicate 6946 toneSlot) = .ok toneState.acc ∧
      toneState.acc.Holds 6946 ∧ validSlots (List.replicate 6946 toneSlot) = 6946 := by
  have hvalid : qecSlotValid toneSlot = true := by decide
  have hsums : slotSums false (fun _ => 0#16) toneSlot = toneSums := qecSlotScalar_tone
  have hwindow : 576 * 6946 < 4294967296 := by omega
  obtain ⟨hfold, hholds⟩ := qecFold_replicate false (fun _ => 0#16) hvalid hwindow
  rw [hsums] at hfold hholds
  refine ⟨hfold, hholds, ?_⟩
  unfold validSlots
  rw [List.countP_replicate, if_pos hvalid]

/-- The solve of a window: nothing is undefined and nothing is cut off exactly if the window has a
slot in it and no ratio is out of reach. -/
theorem qecSolve_succeeds (params : SolveParams) (neon : Bool) (samp : Mem 16)
    {slots : List RingSlot} {st : SolveState} (hwindow : 576 * validSlots slots < 4294967296)
    (hfold : qecFold neon samp .clear slots = .ok st.acc) :
    Succeeds (qecSolve params st) ↔ Solvable params.betaQ8.toInt st.acc := by
  obtain ⟨acc, hacc, hholds⟩ := qecFold_window neon samp hwindow
  have heq : acc = st.acc := Except.ok.inj (hacc.symm.trans hfold)
  exact qecSolve_succeeds_of_holds params (heq ▸ hholds) hwindow

theorem qecSolve_succeeds_tone :
    Succeeds (qecSolve .default toneState) ↔ Solvable 64 toneState.acc := by
  obtain ⟨hfold, -, hcount⟩ := qecFold_tone
  exact qecSolve_succeeds .default false (fun _ => 0#16) (by rw [hcount]; omega) hfold

/-- A window of valid slots, as long as the default parameters ask for, whose delay does not fit the
cast. -/
theorem tone_window_overflows :
    validSlots (List.replicate 6946 toneSlot) = 6946 ∧
      qecFold false (fun _ => 0#16) .clear (List.replicate 6946 toneSlot) = .ok toneState.acc ∧
      ¬ Succeeds (qecSolve .default toneState) := by
  obtain ⟨hfold, hholds, hcount⟩ := qecFold_tone
  obtain ⟨hrr, hdet, hreach⟩ := tone_out_of_reach
  refine ⟨hcount, hfold, fun hsucceeds => ?_⟩
  have hsolvable := (qecSolve_succeeds_of_holds .default hholds (by omega)).mp hsucceeds
  exact hreach (hsolvable.delay hrr hdet)

end RfnmDriver.Rx.Qec
