import RfnmDriver.Rx.QecFloat
import RfnmDriver.Rx.QecFold

/-!
# The solve of the image estimator

`qec_solve` turns the sums of a window into central moments, scales them so that the products of
its two least-squares problems stay in 64 bits, and divides in Q20. Here it stands twice: as the
routine, where every operation is checked, and as the numbers it is meant to compute, with the
condition for the damped coefficients to fit their casts.
-/

namespace RfnmDriver.Rx.Qec

open CheckedInt Lanes

/-! ## The routine -/

/-- The arrays of moments: the first three lags of each. -/
inductive Arr where
  | ra
  | rc
  | iap
  | ic
  deriving DecidableEq, Repr

abbrev Values := Arr → Fin 3 → Int

theorem lagCount_pos : 0 < 4 := by omega

/-- A lag by its number. -/
def lag (m : Nat) : Fin 4 := ⟨m % 4, Nat.mod_lt m lagCount_pos⟩

/-- An array of the first three lags. -/
def threeLags (first second third : Int) (m : Fin 3) : Int :=
  if m.val = 0 then first else if m.val = 1 then second else third

/-- The loops over `m`. -/
def lags : List (Fin 3) := [0, 1, 2]

/-- `eii` and its likes: the mean of a product less the product of the means, in Q8. -/
def centralMoment (sum : Int) (cnt : Nat) (first second : Int) : Checked Int := do
  let mean ← div64 (← shl64 sum 8) cnt
  let square ← sar64 (← mul64 first second) 8
  sub64 mean square

/-- The moments of one lag. -/
structure LagMoments where
  ra : Int
  ia : Int
  rc : Int
  ic : Int

/-- The body of the loop over the lags. The last lag has no `rc` and `ic`. -/
def lagMoments (a : QecAcc) (mi mq : Int) (m : Fin 4) : Checked LagMoments := do
  let eii ← centralMoment (a.pii m) (a.cnt m) mi mi
  let eqq ← centralMoment (a.pqq m) (a.cnt m) mq mq
  let eiq ← centralMoment (a.piq m) (a.cnt m) mi mq
  let eqi ← centralMoment (a.pqi m) (a.cnt m) mi mq
  let ra ← add64 eii eqq
  let ia ← sub64 eiq eqi
  if m.val < 3 then
    return ⟨ra, ia, ← sub64 eii eqq, ← add64 eiq eqi⟩
  else
    return ⟨ra, ia, 0, 0⟩

/-- The moments before they are scaled. -/
def qecMoments (a : QecAcc) (mi mq : Int) : Checked Values := do
  let m0 ← lagMoments a mi mq (lag 0)
  let m1 ← lagMoments a mi mq (lag 1)
  let m2 ← lagMoments a mi mq (lag 2)
  let m3 ← lagMoments a mi mq (lag 3)
  let iap1 ← sar64 m2.ia 1
  let iap2 ← sar64 (← sub64 m3.ia m1.ia) 1
  return fun
    | .ra => threeLags m0.ra m1.ra m2.ra
    | .rc => threeLags m0.rc m1.rc m2.rc
    | .iap => threeLags m1.ia iap1 iap2
    | .ic => threeLags m0.ic m1.ic m2.ic

/-- `mx` of some of the arrays. -/
def peak (arrs : List Arr) (x : Values) : Checked Int :=
  (arrs.product lags).foldlM (fun mx place => return max mx (← abs64 (x place.1 place.2))) 0

/-- The two loops that halve some of the arrays until all are below a limit. -/
def normalise (arrs : List Arr) (limit : Int) : Nat → Values → Checked Values
  | 0, x => .ok x
  | sh + 1, x => do
      if (← peak arrs x) < limit then return x
      else normalise arrs limit sh fun arr m => x arr m / 2

/-- The sums of the two least-squares problems. -/
structure NormalSums where
  rr : Int
  rc : Int
  rr2 : Int
  ri : Int
  ii : Int
  rb : Int
  ib : Int

/-- The sums: `ra` and `rc` as scaled for the gain, `ra2`, `iap` and `ic` for phase and delay. -/
def normalSums (eps phi : Values) : Checked NormalSums := do
  let rr ← mac64 (eps .ra) (eps .ra) lags
  let rc ← mac64 (eps .ra) (eps .rc) lags
  let rr2 ← mac64 (phi .ra) (phi .ra) lags
  let ri ← mac64 (phi .ra) (phi .iap) lags
  let ii ← mac64 (phi .iap) (phi .iap) lags
  let rb ← mac64 (phi .ra) (phi .ic) lags
  let ib ← mac64 (phi .iap) (phi .ic) lags
  return ⟨rr, rc, rr2, ri, ii, rb, ib⟩

/-- `qec_div_q20`. -/
def qecDivQ20 (num den : Int) : Checked Int := do
  let magnitude ← abs64 num
  let head : Int := 62 - fls (BitVec.ofInt 64 magnitude ||| 1#64)
  let k1 := if head < 20 then head else 20
  let shifted ← sar64 den (20 - k1)
  let divisor := if shifted = 0 then 1 else shifted
  div64 (← shl64 num k1) divisor

/-- `x * y - z * w`. -/
def cross64 (x y z w : Int) : Checked Int := do
  sub64 (← mul64 x y) (← mul64 z w)

/-- `(s32)((q * beta_q8) >> 8)`. -/
def damped (betaQ8 : BitVec 32) (q : Int) : Checked (BitVec 32) := do
  return BitVec.ofInt 32 (← toS32 (← sar64 (← mul64 q betaQ8.toInt) 8))

/-- The mean in Q20 of the full scale. -/
def dcQ20 (sum : Int) (n : Nat) : Checked Int := do
  div64 (← shl64 sum 20) (← mul64 n 2048)

/-- The magnitude of a mean, in counts. -/
abbrev Level := {level : Int // 0 ≤ level ∧ level ≤ 2048}

theorem level_zero : (0 : Int) ≤ 0 ∧ (0 : Int) ≤ 2048 := by omega

/-- `null_armed`, `null_frozen` and `null_floor`. -/
structure NullArm where
  armed : Bool
  frozen : Bool
  floor : Level
  deriving DecidableEq

/-- `beta_q8`, `dc_null_enable` and `dc_renull_counts`. -/
structure SolveParams where
  betaQ8 : BitVec 32
  dcNullEnable : Bool
  dcRenullCounts : BitVec 32

/-- The analog drift alarm. -/
def driftAlarm (params : SolveParams) (null : NullArm) (mi mq : Int) : Checked NullArm := do
  if params.dcNullEnable && !null.armed && !null.frozen then
    let di ← abs64 (← sar64 mi 8)
    let dq ← abs64 (← sar64 mq 8)
    let dom := if dq > di then dq else di
    let limit ← add64 null.floor.val params.dcRenullCounts.toInt
    return if dom > limit then { null with armed := true } else null
  else
    return null

/-- What `qec_solve` reads and writes of `struct qec_state`. -/
structure SolveState where
  acc : QecAcc
  model : Model
  statSolves : BitVec 32
  null : NullArm

/-- The phase and the delay: Cramer's rule, where the determinant is positive. -/
def phaseDelay (s : NormalSums) : Checked (Int × Int) := do
  let det ← cross64 s.rr2 s.ii s.ri s.ri
  if det > 0 then
    let p ← qecDivQ20 (← cross64 s.rb s.ii s.ib s.ri) det
    let t ← qecDivQ20 (← cross64 s.ib s.rr2 s.rb s.ri) det
    return (p, t)
  else
    return (0, 0)

/-- The model after the damped update. -/
def dampedModel (params : SolveParams) (a : QecAcc) (model : Model) (e p t : Int) :
    Checked Model := do
  let dEps ← damped params.betaQ8 e
  let dPhi ← damped params.betaQ8 p
  let dTau ← damped params.betaQ8 t
  let dRe ← damped params.betaQ8 (← dcQ20 a.si a.n)
  let dIm ← damped params.betaQ8 (← dcQ20 a.sq a.n)
  return ⟨model.mEps + dEps, model.mPhi + dPhi, model.mTau + dTau, model.mDcre - dRe,
    model.mDcim - dIm⟩

/-- `qec_solve`. -/
def qecSolve (params : SolveParams) (st : SolveState) : Checked SolveState := do
  let a := st.acc
  let mi ← div64 (← shl64 a.si 8) a.n
  let mq ← div64 (← shl64 a.sq 8) a.n
  let x ← qecMoments a mi mq
  let eps ← normalise [.ra, .rc] 262144 40 x
  let phi ← normalise [.ra, .iap, .ic] 16384 40 x
  let s ← normalSums eps phi
  if s.rr = 0 then
    return { st with acc := .clear }
  else
    let e ← qecDivQ20 s.rc s.rr
    let pt ← phaseDelay s
    let model ← dampedModel params a st.model e pt.1 pt.2
    let null ← driftAlarm params st.null mi mq
    return { acc := .clear, model := model, statSolves := st.statSolves + 1, null := null }

/-! ## The numbers themselves -/

/-- A mean in Q8. -/
def mean8 (sum n : Int) : Int := (sum * 2 ^ 8).tdiv n

/-- A central moment in Q8. -/
def moment (sum cnt first second : Int) : Int :=
  (sum * 2 ^ 8).tdiv cnt - first * second / 2 ^ 8

/-- The moments of a lag of an accumulator. -/
def exactLag (a : QecAcc) (m : Fin 4) : LagMoments :=
  let mi := mean8 a.si a.n
  let mq := mean8 a.sq a.n
  let eii := moment (a.pii m) (a.cnt m) mi mi
  let eqq := moment (a.pqq m) (a.cnt m) mq mq
  let eiq := moment (a.piq m) (a.cnt m) mi mq
  let eqi := moment (a.pqi m) (a.cnt m) mi mq
  ⟨eii + eqq, eiq - eqi, if m.val < 3 then eii - eqq else 0, if m.val < 3 then eiq + eqi else 0⟩

/-- The moments of an accumulator. -/
def exactMoments (a : QecAcc) : Values
  | .ra => threeLags (exactLag a (lag 0)).ra (exactLag a (lag 1)).ra (exactLag a (lag 2)).ra
  | .rc => threeLags (exactLag a (lag 0)).rc (exactLag a (lag 1)).rc (exactLag a (lag 2)).rc
  | .iap => threeLags (exactLag a (lag 1)).ia ((exactLag a (lag 2)).ia / 2 ^ 1)
      (((exactLag a (lag 3)).ia - (exactLag a (lag 1)).ia) / 2 ^ 1)
  | .ic => threeLags (exactLag a (lag 0)).ic (exactLag a (lag 1)).ic (exactLag a (lag 2)).ic

/-- All values of some arrays are below a limit. -/
def Below (arrs : List Arr) (limit : Int) (x : Values) : Prop :=
  ∀ place ∈ arrs.product lags, |x place.1 place.2| < limit

instance (arrs : List Arr) (limit : Int) (x : Values) : Decidable (Below arrs limit x) :=
  inferInstanceAs (Decidable (∀ place ∈ arrs.product lags, _))

/-- Halved until all are below the limit. -/
def reduced (arrs : List Arr) (limit : Int) : Nat → Values → Values
  | 0, x => x
  | sh + 1, x =>
      if Below arrs limit x then x else reduced arrs limit sh fun arr m => x arr m / 2

/-- A sum of products over the lags. -/
def dot (a b : Fin 3 → Int) : Int := (lags.map fun m => a m * b m).sum

/-- The sums of the two problems of an accumulator. -/
def exactSums (a : QecAcc) : NormalSums :=
  let eps := reduced [.ra, .rc] 262144 40 (exactMoments a)
  let phi := reduced [.ra, .iap, .ic] 16384 40 (exactMoments a)
  { rr := dot (eps .ra) (eps .ra)
    rc := dot (eps .ra) (eps .rc)
    rr2 := dot (phi .ra) (phi .ra)
    ri := dot (phi .ra) (phi .iap)
    ii := dot (phi .iap) (phi .iap)
    rb := dot (phi .ra) (phi .ic)
    ib := dot (phi .iap) (phi .ic) }

namespace NormalSums

/-- The determinant of the problem for phase and delay. -/
def det (s : NormalSums) : Int := s.rr2 * s.ii - s.ri * s.ri

/-- The numerators of the phase and of the delay. -/
def phaseNum (s : NormalSums) : Int := s.rb * s.ii - s.ib * s.ri

def delayNum (s : NormalSums) : Int := s.ib * s.rr2 - s.rb * s.ri

end NormalSums

/-- `k1`: as much of the Q20 shift as the numerator has room for. -/
def q20Shift (num : Int) : Nat := min 20 (62 - fls (BitVec.ofInt 64 |num| ||| 1#64))

def q20Num (num : Int) : Int := num * 2 ^ q20Shift num

/-- The denominator takes the rest of the shift. -/
def q20Den (num den : Int) : Int := max 1 (den / 2 ^ (20 - q20Shift num))

/-- How far a quotient may go for its product with `beta` to have 40 bits: down and up. -/
def reachDown (beta : Int) : Int := (if 0 < beta then 549755813888 else 549755813887) / |beta|

def reachUp (beta : Int) : Int := (if 0 < beta then 549755813887 else 549755813888) / |beta|

/-- The numerator is small enough against the denominator for the damping. -/
def Reach (beta num den : Int) : Prop :=
  beta = 0 ∨ -((reachDown beta + 1) * den) < num ∧ num < (reachUp beta + 1) * den

/-- The same of a numerator and a denominator that are divided in Q20. -/
def Q20Reach (beta num den : Int) : Prop := Reach beta (q20Num num) (q20Den num den)

/-- The same of a mean. -/
def DcReach (beta sum : Int) (n : Nat) : Prop := Reach beta (sum * 2 ^ 20) (n * 2048)

/-- The window has a slot in it, and unless its gain problem is void, none of its five ratios is
out of reach. The ratios of phase and delay only count where their determinant is positive. -/
structure Solvable (beta : Int) (a : QecAcc) : Prop where
  sampled : a.n ≠ 0
  gain : (exactSums a).rr ≠ 0 → Q20Reach beta (exactSums a).rc (exactSums a).rr
  phase : (exactSums a).rr ≠ 0 → 0 < (exactSums a).det →
    Q20Reach beta (exactSums a).phaseNum (exactSums a).det
  delay : (exactSums a).rr ≠ 0 → 0 < (exactSums a).det →
    Q20Reach beta (exactSums a).delayNum (exactSums a).det
  dcI : (exactSums a).rr ≠ 0 → DcReach beta a.si a.n
  dcQ : (exactSums a).rr ≠ 0 → DcReach beta a.sq a.n

end RfnmDriver.Rx.Qec
