import Mathlib.Algebra.Order.Ring.Abs
import Mathlib.Algebra.Order.Ring.Int
import RfnmDriver.Library.Lanes

/-!
# The image statistics of a slot

`rfnm_qec_slot_neon` takes the sums of the first 576 samples of a slot and of their products over
four lags, eight samples at a time in vector lanes and the rest one by one. Every lane holds the
residue of an exact sum, and the exact sum is small enough for its width. Read `qecSlotNeon_eq`
first.
-/

namespace RfnmDriver.Rx.Qec

open Lanes Finset

variable {w v : Nat}

/-- The payload of a slot as 16-bit words. -/
abbrev Payload := Nat → BitVec 16

/-- `QEC_DIRECT_VALS`. -/
def qecDirectVals : Nat := 1152

/-- `struct qec_sums`. -/
structure QecSums where
  si : BitVec 64
  sq : BitVec 64
  pii : Fin 4 → BitVec 64
  pqq : Fin 4 → BitVec 64
  piq : Fin 4 → BitVec 64
  pqi : Fin 4 → BitVec 64

/-! ## The scalar loop -/

/-- `(s16)(p[k] & 0xFFF0) >> 4`. -/
def decode (word : BitVec 16) : BitVec 16 :=
  (word &&& 0xFFF0#16).sshiftRight 4

/-- `v` of `qec_slot_scalar`. -/
def scratch (p : Payload) : Mem 16 := fun k =>
  decode (p k)

/-- A `long long` sum of 16-bit values. -/
def sumLoop (value : Nat → BitVec 16) (sum : BitVec 64) : Nat → BitVec 64
  | 0 => sum
  | k + 1 => sumLoop value sum k + (value k).signExtend 64

/-- A `long long` sum of products. -/
def macLoop (left right : Nat → BitVec 16) (sum : BitVec 64) : Nat → BitVec 64
  | 0 => sum
  | k + 1 => macLoop left right sum k + (left k).signExtend 64 * (right k).signExtend 64

/-- `v[2 * (k + m)]`. -/
def iValue (v : Mem 16) (m k : Nat) : BitVec 16 :=
  v (2 * (k + m))

/-- `v[2 * (k + m) + 1]`. -/
def qValue (v : Mem 16) (m k : Nat) : BitVec 16 :=
  v (2 * (k + m) + 1)

/-- `qec_slot_scalar`. -/
def qecSlotScalar (p : Payload) : QecSums :=
  let v := scratch p
  let nsamp := qecDirectVals / 2
  { si := sumLoop (iValue v 0) 0 nsamp
    sq := sumLoop (qValue v 0) 0 nsamp
    pii := fun m => macLoop (iValue v 0) (iValue v m) 0 (nsamp - m)
    pqq := fun m => macLoop (qValue v 0) (qValue v m) 0 (nsamp - m)
    piq := fun m => macLoop (iValue v 0) (qValue v m) 0 (nsamp - m)
    pqi := fun m => macLoop (qValue v 0) (iValue v m) 0 (nsamp - m) }

/-! ## The vector loop -/

/-- `vpadalq_s16` and `vpadalq_s32`: add the pairs of a register to lanes of twice the width. -/
def vpadalq {w : Nat} (v : Nat) (sum : Reg v) (x : Reg w) : Reg v := fun lane =>
  sum lane + ((x (2 * lane)).signExtend v + (x (2 * lane + 1)).signExtend v)

/-- `vmull_s16` of four lanes from `first` on. -/
def vmull (first : Nat) (x y : Reg 16) : Reg 32 := fun lane =>
  (x (first + lane)).signExtend 32 * (y (first + lane)).signExtend 32

/-- The decode pass: 16 words a round. -/
def decodeLoop (p : Payload) (scratch : Mem 16) : Nat → Mem 16
  | 0 => scratch
  | round + 1 =>
      let k := 16 * round
      let mask : Reg 16 := movi 0xFFF0#16
      let a : Reg 16 := fun lane => ld 1 p k 0 lane &&& mask lane
      let b : Reg 16 := fun lane => ld 1 p (k + 8) 0 lane &&& mask lane
      st 8 [fun lane => (b lane).sshiftRight 4]
        (st 8 [fun lane => (a lane).sshiftRight 4] (decodeLoop p scratch round) k) (k + 8)

/-- Two `vpadalq_s32` of the products of the lower and of the upper half. -/
def macBlock (sum : Reg 64) (x y : Reg 16) : Reg 64 :=
  vpadalq 64 (vpadalq 64 sum (vmull 0 x y)) (vmull 4 x y)

/-- The accumulators. -/
structure Accumulators where
  si32 : Reg 32
  sq32 : Reg 32
  aii : Fin 4 → Reg 64
  aqq : Fin 4 → Reg 64
  aiq : Fin 4 → Reg 64
  aqi : Fin 4 → Reg 64

/-- `base.val[c]` of a block. -/
def baseReg (scratch : Mem 16) (c block : Nat) : Reg 16 :=
  ld 2 scratch (2 * (8 * block)) c

/-- `lag.val[c]` of a block. -/
def lagReg (scratch : Mem 16) (m c block : Nat) : Reg 16 :=
  ld 2 scratch (2 * (8 * block + m)) c

/-- The accumulators after so many blocks of eight samples. -/
def blockLoop (scratch : Mem 16) : Nat → Accumulators
  | 0 => ⟨fun _ => 0, fun _ => 0, fun _ _ => 0, fun _ _ => 0, fun _ _ => 0, fun _ _ => 0⟩
  | block + 1 =>
      let acc := blockLoop scratch block
      let i0 := baseReg scratch 0 block
      let q0 := baseReg scratch 1 block
      { si32 := vpadalq 32 acc.si32 i0
        sq32 := vpadalq 32 acc.sq32 q0
        aii := fun m => macBlock (acc.aii m) i0 (lagReg scratch m 0 block)
        aqq := fun m => macBlock (acc.aqq m) q0 (lagReg scratch m 1 block)
        aiq := fun m => macBlock (acc.aiq m) i0 (lagReg scratch m 1 block)
        aqi := fun m => macBlock (acc.aqi m) q0 (lagReg scratch m 0 block) }

/-- `vaddvq_s32`. -/
def vaddvq32 (x : Reg 32) : BitVec 32 :=
  x 0 + x 1 + x 2 + x 3

/-- `vaddvq_s64`. -/
def vaddvq64 (x : Reg 64) : BitVec 64 :=
  x 0 + x 1

/-- The blocks of the loop `for (k = 0; k + 8 + 3 <= nsamp; k += 8)`. -/
def blocks : Nat := (qecDirectVals / 2 - 3) / 8

/-- `rfnm_qec_slot_neon`: the loop leaves `kt = 8 * blocks`. -/
def qecSlotNeon (p : Payload) (scratch : Mem 16) : QecSums :=
  let v := decodeLoop p scratch (qecDirectVals / 16)
  let nsamp := qecDirectVals / 2
  let kt := 8 * blocks
  let acc := blockLoop v blocks
  let tail := fun (value : Nat → BitVec 16) (k : Nat) => value (kt + k)
  { si := sumLoop (tail (iValue v 0)) ((vaddvq32 acc.si32).signExtend 64) (nsamp - kt)
    sq := sumLoop (tail (qValue v 0)) ((vaddvq32 acc.sq32).signExtend 64) (nsamp - kt)
    pii := fun m => macLoop (tail (iValue v 0)) (tail (iValue v m)) (vaddvq64 (acc.aii m))
      (nsamp - m - kt)
    pqq := fun m => macLoop (tail (qValue v 0)) (tail (qValue v m)) (vaddvq64 (acc.aqq m))
      (nsamp - m - kt)
    piq := fun m => macLoop (tail (iValue v 0)) (tail (qValue v m)) (vaddvq64 (acc.aiq m))
      (nsamp - m - kt)
    pqi := fun m => macLoop (tail (qValue v 0)) (tail (iValue v m)) (vaddvq64 (acc.aqi m))
      (nsamp - m - kt) }

/-! ## Exact sums -/

/-- The product of two values. -/
def product (left right : Nat → BitVec 16) (k : Nat) : Int :=
  (left k).toInt * (right k).toInt

/-- What a lane of a mean has been given in so many blocks of eight values. -/
def meanLane (value : Nat → BitVec 16) (block lane : Nat) : Int :=
  ∑ b ∈ range block, ((value (8 * b + 2 * lane)).toInt + (value (8 * b + 2 * lane + 1)).toInt)

/-- What a lane of products has been given in so many halves of blocks. -/
def macLane (left right : Nat → BitVec 16) (half lane : Nat) : Int :=
  ∑ h ∈ range half, (product left right (4 * h + 2 * lane) +
    product left right (4 * h + 2 * lane + 1))

/-- A scalar sum is the residue of the exact one. -/
theorem sumLoop_eq (value : Nat → BitVec 16) (sum : BitVec 64) (n : Nat) :
    sumLoop value sum n = sum + BitVec.ofInt 64 (∑ k ∈ range n, (value k).toInt) := by
  induction n with
  | zero =>
      show sum = sum + BitVec.ofInt 64 0
      exact (BitVec.add_zero sum).symm
  | succ n ih =>
      show sumLoop value sum n + (value n).signExtend 64 = _
      rw [ih, signExtend_eq_ofInt _ (by omega), sum_range_succ, BitVec.ofInt_add, BitVec.add_assoc]

/-- A product of widened values is the residue of the exact one. -/
theorem signExtend_mul (x y : BitVec 16) (h : 16 ≤ v) :
    x.signExtend v * y.signExtend v = BitVec.ofInt v (x.toInt * y.toInt) := by
  rw [signExtend_eq_ofInt x h, signExtend_eq_ofInt y h, BitVec.ofInt_mul]

/-- A scalar sum of products is the residue of the exact one. -/
theorem macLoop_eq (left right : Nat → BitVec 16) (sum : BitVec 64) (n : Nat) :
    macLoop left right sum n = sum + BitVec.ofInt 64 (∑ k ∈ range n, product left right k) := by
  induction n with
  | zero =>
      show sum = sum + BitVec.ofInt 64 0
      exact (BitVec.add_zero sum).symm
  | succ n ih =>
      show macLoop left right sum n + (left n).signExtend 64 * (right n).signExtend 64 = _
      rw [ih, signExtend_mul _ _ (by omega), sum_range_succ, BitVec.ofInt_add, BitVec.add_assoc]
      rfl

/-! ## Bounds -/

/-- A 16-bit value. -/
theorem abs_toInt_le (x : BitVec 16) : |x.toInt| ≤ 32768 := by
  have hlow := BitVec.le_toInt x
  have hhigh := BitVec.toInt_lt (x := x)
  rw [abs_le]
  omega

/-- A product of two 16-bit values. -/
theorem abs_product_le (left right : Nat → BitVec 16) (k : Nat) :
    |product left right k| ≤ 1073741824 := by
  unfold product
  rw [abs_mul]
  calc |(left k).toInt| * |(right k).toInt| ≤ 32768 * 32768 :=
        mul_le_mul (abs_toInt_le _) (abs_toInt_le _) (abs_nonneg _) (by omega)
    _ = 1073741824 := rfl

/-- `vmull_s16` has the exact product. -/
theorem toInt_vmull (first : Nat) (x y : Reg 16) (lane : Nat) :
    (vmull first x y lane).toInt = product x y (first + lane) := by
  unfold vmull
  rw [signExtend_mul _ _ (by omega)]
  have hbound : |product x y (first + lane)| ≤ (1073741824 : Nat) := abs_product_le x y _
  exact toInt_ofInt_of_bound (by omega) hbound (by omega)

/-- A lane of a mean stays far from the end of 32 bits. -/
theorem abs_meanLane_le (value : Nat → BitVec 16) (block lane : Nat) :
    |meanLane value block lane| ≤ (block * 65536 : Nat) := by
  refine abs_sum_range_le fun b _ => (abs_add_le _ _).trans ?_
  have hfirst := abs_toInt_le (value (8 * b + 2 * lane))
  have hsecond := abs_toInt_le (value (8 * b + 2 * lane + 1))
  push_cast
  omega

/-- A lane of products stays far from the end of 64 bits. -/
theorem abs_macLane_le (left right : Nat → BitVec 16) (half lane : Nat) :
    |macLane left right half lane| ≤ (half * 2147483648 : Nat) := by
  refine abs_sum_range_le fun h _ => (abs_add_le _ _).trans ?_
  have hfirst := abs_product_le left right (4 * h + 2 * lane)
  have hsecond := abs_product_le left right (4 * h + 2 * lane + 1)
  push_cast
  omega

/-! ## Lanes -/

/-- Every lane holds the residue of what it was given: one step of a mean. -/
theorem vpadalq_mean {value : Nat → BitVec 16} {block : Nat} {sum : Reg 32} {x : Reg 16}
    (hsum : ∀ lane, sum lane = BitVec.ofInt 32 (meanLane value block lane))
    (hx : ∀ lane, x lane = value (8 * block + lane)) (lane : Nat) :
    vpadalq 32 sum x lane = BitVec.ofInt 32 (meanLane value (block + 1) lane) := by
  unfold vpadalq meanLane
  rw [hsum, hx, hx, signExtend_eq_ofInt _ (by omega), signExtend_eq_ofInt _ (by omega),
    sum_range_succ, BitVec.ofInt_add, BitVec.ofInt_add]
  rfl

/-- Every lane holds the residue of what it was given: one half of a block of products. -/
theorem vpadalq_mac {left right : Nat → BitVec 16} {half first : Nat} {sum : Reg 64} {x y : Reg 16}
    (hsum : ∀ lane, sum lane = BitVec.ofInt 64 (macLane left right half lane))
    (hx : ∀ lane, x (first + lane) = left (4 * half + lane))
    (hy : ∀ lane, y (first + lane) = right (4 * half + lane)) (lane : Nat) :
    vpadalq 64 sum (vmull first x y) lane =
      BitVec.ofInt 64 (macLane left right (half + 1) lane) := by
  have hproduct : ∀ k, (vmull first x y k).toInt = product left right (4 * half + k) := by
    intro k
    rw [toInt_vmull]
    unfold product
    rw [hx, hy]
  unfold vpadalq macLane
  rw [hsum, signExtend_eq_ofInt _ (by omega), signExtend_eq_ofInt _ (by omega), hproduct, hproduct,
    sum_range_succ, BitVec.ofInt_add, BitVec.ofInt_add]
  rfl

/-- The halves of a block of products. -/
theorem macBlock_mac {left right : Nat → BitVec 16} {block : Nat} {sum : Reg 64} {x y : Reg 16}
    (hsum : ∀ lane, sum lane = BitVec.ofInt 64 (macLane left right (2 * block) lane))
    (hx : ∀ lane, x lane = left (8 * block + lane))
    (hy : ∀ lane, y lane = right (8 * block + lane)) (lane : Nat) :
    vpadalq 64 sum (vmull 0 x y) lane =
        BitVec.ofInt 64 (macLane left right (2 * block + 1) lane) ∧
      macBlock sum x y lane = BitVec.ofInt 64 (macLane left right (2 * (block + 1)) lane) := by
  have hlow : ∀ lane, vpadalq 64 sum (vmull 0 x y) lane =
      BitVec.ofInt 64 (macLane left right (2 * block + 1) lane) := by
    refine vpadalq_mac hsum (fun lane => ?_) (fun lane => ?_)
    · rw [hx, Nat.zero_add, ← Nat.mul_assoc]
    · rw [hy, Nat.zero_add, ← Nat.mul_assoc]
  refine ⟨hlow lane, vpadalq_mac hlow (fun lane => ?_) (fun lane => ?_) lane⟩
  · rw [hx]
    congr 1
    omega
  · rw [hy]
    congr 1
    omega

/-- The lanes of the first register of a lag are values of I. -/
theorem lagReg_i (v : Mem 16) (m block lane : Nat) :
    lagReg v m 0 block lane = iValue v m (8 * block + lane) := by
  show v (2 * (8 * block + m) + 2 * lane + 0) = v (2 * (8 * block + lane + m))
  congr 1
  omega

/-- The lanes of the second register of a lag are values of Q. -/
theorem lagReg_q (v : Mem 16) (m block lane : Nat) :
    lagReg v m 1 block lane = qValue v m (8 * block + lane) := by
  show v (2 * (8 * block + m) + 2 * lane + 1) = v (2 * (8 * block + lane + m) + 1)
  congr 1
  omega

/-- The base registers are those of lag zero. -/
theorem baseReg_i (v : Mem 16) (block lane : Nat) :
    baseReg v 0 block lane = iValue v 0 (8 * block + lane) :=
  lagReg_i v 0 block lane

theorem baseReg_q (v : Mem 16) (block lane : Nat) :
    baseReg v 1 block lane = qValue v 0 (8 * block + lane) :=
  lagReg_q v 0 block lane

/-- The lanes after so many blocks, and inside the next one, hold the residues of what they were
given. -/
theorem blockLoop_lanes (v : Mem 16) (block lane : Nat) :
    (blockLoop v block).si32 lane = BitVec.ofInt 32 (meanLane (iValue v 0) block lane) ∧
      (blockLoop v block).sq32 lane = BitVec.ofInt 32 (meanLane (qValue v 0) block lane) ∧
      ∀ m : Fin 4,
        (blockLoop v block).aii m lane =
          BitVec.ofInt 64 (macLane (iValue v 0) (iValue v m) (2 * block) lane) ∧
        (blockLoop v block).aqq m lane =
          BitVec.ofInt 64 (macLane (qValue v 0) (qValue v m) (2 * block) lane) ∧
        (blockLoop v block).aiq m lane =
          BitVec.ofInt 64 (macLane (iValue v 0) (qValue v m) (2 * block) lane) ∧
        (blockLoop v block).aqi m lane =
          BitVec.ofInt 64 (macLane (qValue v 0) (iValue v m) (2 * block) lane) := by
  induction block generalizing lane with
  | zero => exact ⟨rfl, rfl, fun m => ⟨rfl, rfl, rfl, rfl⟩⟩
  | succ block ih =>
      exact ⟨vpadalq_mean (fun lane => (ih lane).1) (baseReg_i v block) lane,
        vpadalq_mean (fun lane => (ih lane).2.1) (baseReg_q v block) lane, fun m =>
        ⟨(macBlock_mac (fun lane => ((ih lane).2.2 m).1) (baseReg_i v block)
            (lagReg_i v m block) lane).2,
          (macBlock_mac (fun lane => ((ih lane).2.2 m).2.1) (baseReg_q v block)
            (lagReg_q v m block) lane).2,
          (macBlock_mac (fun lane => ((ih lane).2.2 m).2.2.1) (baseReg_i v block)
            (lagReg_q v m block) lane).2,
          (macBlock_mac (fun lane => ((ih lane).2.2 m).2.2.2) (baseReg_q v block)
            (lagReg_i v m block) lane).2⟩⟩

/-! ## Folding the lanes -/

/-- A sum in groups of four. -/
theorem sum_range_four (term : Nat → Int) (n : Nat) :
    ∑ k ∈ range (4 * n), term k =
      ∑ h ∈ range n, (term (4 * h) + term (4 * h + 1) + term (4 * h + 2) + term (4 * h + 3)) := by
  induction n with
  | zero => rfl
  | succ n ih =>
      rw [Nat.mul_succ, sum_range_add, ih, sum_range_succ]
      simp only [sum_range_succ, sum_range_zero, Nat.add_zero, zero_add]

/-- The two lanes of a product sum make up the sum of all the products. -/
theorem macLane_add (left right : Nat → BitVec 16) (half : Nat) :
    macLane left right half 0 + macLane left right half 1 =
      ∑ k ∈ range (4 * half), product left right k := by
  unfold macLane
  rw [sum_range_four, ← sum_add_distrib]
  refine sum_congr rfl fun h _ => ?_
  show product left right (4 * h) + product left right (4 * h + 1) +
    (product left right (4 * h + 2) + product left right (4 * h + 3)) = _
  omega

/-- The four lanes of a mean make up the sum of all the values. -/
theorem meanLane_add (value : Nat → BitVec 16) (block : Nat) :
    meanLane value block 0 + meanLane value block 1 + meanLane value block 2 +
      meanLane value block 3 = ∑ k ∈ range (8 * block), (value k).toInt := by
  induction block with
  | zero => rfl
  | succ block ih =>
      obtain ⟨term, hterm⟩ : ∃ term : Nat → Int, ∀ k, (value (8 * block + k)).toInt = term k :=
        ⟨_, fun _ => rfl⟩
      have hstep : ∀ lane, meanLane value (block + 1) lane =
          meanLane value block lane + (term (2 * lane) + term (2 * lane + 1)) := by
        intro lane
        rw [← hterm, ← hterm]
        exact sum_range_succ _ _
      have hblock : ∑ k ∈ range 8, (value (8 * block + k)).toInt =
          term 0 + term 1 + term 2 + term 3 + term 4 + term 5 + term 6 + term 7 := by
        simp only [hterm, sum_range_succ, sum_range_zero, zero_add]
      rw [Nat.mul_succ, sum_range_add, ← ih, hblock, hstep, hstep, hstep, hstep]
      show meanLane value block 0 + (term 0 + term 1) +
        (meanLane value block 1 + (term 2 + term 3)) +
        (meanLane value block 2 + (term 4 + term 5)) +
        (meanLane value block 3 + (term 6 + term 7)) = _
      omega

/-! ## The decode pass -/

/-- The decode pass has come so far. -/
theorem decodeLoop_eq (p : Payload) (mem : Mem 16) (round k : Nat) :
    decodeLoop p mem round k = if k < 16 * round then scratch p k else mem k := by
  induction round generalizing k with
  | zero =>
      rw [if_neg (by omega)]
      rfl
  | succ round ih =>
      have hstore : ∀ (base : Nat) (dest : Mem 16),
          st 8 [fun lane => (ld 1 p base 0 lane &&& 0xFFF0#16).sshiftRight 4] dest base k =
            if base ≤ k ∧ k < base + 8 then scratch p k else dest k := by
        intro base dest
        unfold st
        refine if_ctx_congr Iff.rfl (fun hin => ?_) fun _ => rfl
        rw [List.length_singleton, Nat.mod_one, Nat.div_one, List.getD_cons_zero]
        show (p (base + 1 * (k - base) + 0) &&& 0xFFF0#16).sshiftRight 4 = scratch p k
        rw [Nat.one_mul, Nat.add_zero, Nat.add_sub_cancel' hin.1]
        rfl
      have hfirst := hstore (16 * round) (decodeLoop p mem round)
      refine (hstore (16 * round + 8) _).trans ?_
      refine (if_congr Iff.rfl rfl (hfirst.trans (if_congr Iff.rfl rfl (ih k)))).trans ?_
      split_ifs <;> first | rfl | omega

/-! ## The two routines -/

/-- The values of the first samples in the vector scratch are those of the scalar one. -/
theorem decoded_eq (p : Payload) (mem : Mem 16) {m k : Nat} (hk : k + m < 576) :
    iValue (decodeLoop p mem (qecDirectVals / 16)) m k = iValue (scratch p) m k ∧
      qValue (decodeLoop p mem (qecDirectVals / 16)) m k = qValue (scratch p) m k := by
  have hvals : 16 * (qecDirectVals / 16) = 1152 := rfl
  unfold iValue qValue
  rw [decodeLoop_eq, decodeLoop_eq, hvals, if_pos (by omega), if_pos (by omega)]
  exact ⟨rfl, rfl⟩

/-- A sum of so many 16-bit values. -/
theorem abs_sum_toInt_le (value : Nat → BitVec 16) (n : Nat) :
    |∑ k ∈ range n, (value k).toInt| ≤ (n * 32768 : Nat) :=
  abs_sum_range_le fun k _ => abs_toInt_le (value k)

/-- A sum of so many products. -/
theorem abs_sum_product_le (left right : Nat → BitVec 16) (n : Nat) :
    |∑ k ∈ range n, product left right k| ≤ (n * 1073741824 : Nat) :=
  abs_sum_range_le fun k _ => by exact_mod_cast abs_product_le left right k

/-- The samples of all blocks. -/
theorem eight_mul_blocks : 8 * blocks = 568 :=
  rfl

/-- The four lanes of a mean, folded. -/
theorem vaddvq32_eq {value : Nat → BitVec 16} {sum : Reg 32}
    (hsum : ∀ lane, sum lane = BitVec.ofInt 32 (meanLane value blocks lane)) :
    (vaddvq32 sum).toInt = ∑ k ∈ range (8 * blocks), (value k).toInt := by
  have hlanes : vaddvq32 sum = BitVec.ofInt 32 (∑ k ∈ range (8 * blocks), (value k).toInt) := by
    unfold vaddvq32
    rw [← meanLane_add, hsum, hsum, hsum, hsum, BitVec.ofInt_add, BitVec.ofInt_add,
      BitVec.ofInt_add]
  have hbound := abs_sum_toInt_le value (8 * blocks)
  rw [hlanes, toInt_ofInt_of_bound (by omega) hbound (by rw [eight_mul_blocks]; omega)]

/-- The two lanes of a sum of products, folded. -/
theorem vaddvq64_eq {left right : Nat → BitVec 16} {sum : Reg 64}
    (hsum : ∀ lane, sum lane = BitVec.ofInt 64 (macLane left right (2 * blocks) lane)) :
    vaddvq64 sum = BitVec.ofInt 64 (∑ k ∈ range (8 * blocks), product left right k) := by
  unfold vaddvq64
  rw [hsum, hsum, ← BitVec.ofInt_add, macLane_add]
  rfl

/-- The lanes of a mean and so many values of its tail. -/
theorem mean_tail {value : Nat → BitVec 16} {sum : Reg 32}
    (hsum : ∀ lane, sum lane = BitVec.ofInt 32 (meanLane value blocks lane)) (n : Nat) :
    sumLoop (fun k => value (8 * blocks + k)) ((vaddvq32 sum).signExtend 64) n =
      BitVec.ofInt 64 (∑ k ∈ range (8 * blocks + n), (value k).toInt) := by
  rw [sumLoop_eq, signExtend_eq_ofInt _ (by omega), vaddvq32_eq hsum, ← BitVec.ofInt_add,
    sum_range_add]

/-- The lanes of a sum of products and so many products of its tail. -/
theorem mac_tail {left right : Nat → BitVec 16} {sum : Reg 64}
    (hsum : ∀ lane, sum lane = BitVec.ofInt 64 (macLane left right (2 * blocks) lane)) (n : Nat) :
    macLoop (fun k => left (8 * blocks + k)) (fun k => right (8 * blocks + k)) (vaddvq64 sum) n =
      BitVec.ofInt 64 (∑ k ∈ range (8 * blocks + n), product left right k) := by
  rw [macLoop_eq, vaddvq64_eq hsum, ← BitVec.ofInt_add, sum_range_add]
  rfl

/-- The vector mean is the scalar one. -/
theorem mean_eq {value value' : Nat → BitVec 16} (h : ∀ k < 576, value' k = value k) {sum : Reg 32}
    (hsum : ∀ lane, sum lane = BitVec.ofInt 32 (meanLane value' blocks lane)) :
    sumLoop (fun k => value' (8 * blocks + k)) ((vaddvq32 sum).signExtend 64)
      (qecDirectVals / 2 - 8 * blocks) = sumLoop value 0 (qecDirectVals / 2) := by
  have hvalues : ∑ k ∈ range 576, (value' k).toInt = ∑ k ∈ range 576, (value k).toInt :=
    sum_congr rfl fun k hk => congrArg _ (h k (mem_range.mp hk))
  rw [mean_tail hsum, sumLoop_eq]
  show BitVec.ofInt 64 (∑ k ∈ range 576, (value' k).toInt) =
    0#64 + BitVec.ofInt 64 (∑ k ∈ range 576, (value k).toInt)
  rw [hvalues, BitVec.zero_add]

/-- The vector sum of products over a lag is the scalar one. -/
theorem mac_eq {left left' right right' : Nat → BitVec 16} {m : Nat} (hm : m < 4)
    (hleft : ∀ k < 576, left' k = left k) (hright : ∀ k, k + m < 576 → right' k = right k)
    {sum : Reg 64}
    (hsum : ∀ lane, sum lane = BitVec.ofInt 64 (macLane left' right' (2 * blocks) lane)) :
    macLoop (fun k => left' (8 * blocks + k)) (fun k => right' (8 * blocks + k)) (vaddvq64 sum)
      (qecDirectVals / 2 - m - 8 * blocks) = macLoop left right 0 (qecDirectVals / 2 - m) := by
  have hvalues : ∑ k ∈ range (576 - m), product left' right' k =
      ∑ k ∈ range (576 - m), product left right k := by
    refine sum_congr rfl fun k hk => ?_
    have hlt : k < 576 - m := mem_range.mp hk
    unfold product
    rw [hleft k (by omega), hright k (by omega)]
  have hsplit : 8 * blocks + (qecDirectVals / 2 - m - 8 * blocks) = 576 - m := by
    show 568 + (576 - m - 568) = 576 - m
    omega
  rw [mac_tail hsum, hsplit, hvalues, macLoop_eq]
  exact (BitVec.zero_add _).symm

/-! ## Overflow -/

/-- A mean is exact in every lane, folded, and along its tail. -/
structure MeanExact (value : Nat → BitVec 16) (sums : Nat → Reg 32) : Prop where
  lanes : ∀ block ≤ blocks, ∀ lane, (sums block lane).toInt = meanLane value block lane
  folded : (vaddvq32 (sums blocks)).toInt = ∑ k ∈ range (8 * blocks), (value k).toInt
  tail : ∀ n ≤ 8,
    (sumLoop (fun k => value (8 * blocks + k)) ((vaddvq32 (sums blocks)).signExtend 64) n).toInt =
      ∑ k ∈ range (8 * blocks + n), (value k).toInt

/-- A sum of products is exact in every product, in every lane after a block and after half a block,
folded, and along its tail. -/
structure MacExact (left right : Nat → BitVec 16) (sums : Nat → Reg 64) (x y : Nat → Reg 16) :
    Prop where
  products : ∀ block first lane, (vmull first (x block) (y block) lane).toInt =
    product (x block) (y block) (first + lane)
  lanes : ∀ block ≤ blocks, ∀ lane,
    (sums block lane).toInt = macLane left right (2 * block) lane
  halves : ∀ block < blocks, ∀ lane,
    (vpadalq 64 (sums block) (vmull 0 (x block) (y block)) lane).toInt =
      macLane left right (2 * block + 1) lane
  folded : (vaddvq64 (sums blocks)).toInt = ∑ k ∈ range (8 * blocks), product left right k
  tail : ∀ n ≤ 8, (macLoop (fun k => left (8 * blocks + k)) (fun k => right (8 * blocks + k))
    (vaddvq64 (sums blocks)) n).toInt = ∑ k ∈ range (8 * blocks + n), product left right k

/-- A mean whose lanes hold residues is exact. -/
theorem meanExact_of_lanes {value : Nat → BitVec 16} {sums : Nat → Reg 32}
    (hsum : ∀ block lane, sums block lane = BitVec.ofInt 32 (meanLane value block lane)) :
    MeanExact value sums where
  lanes := fun block hblock lane => by
    have hblocks : block ≤ 71 := hblock
    rw [hsum, toInt_ofInt_of_bound (by omega) (abs_meanLane_le value block lane) (by omega)]
  folded := vaddvq32_eq (hsum blocks)
  tail := fun n hn => by
    have hbound := abs_sum_toInt_le value (8 * blocks + n)
    rw [mean_tail (hsum blocks), toInt_ofInt_of_bound (by omega) hbound
      (by rw [eight_mul_blocks]; omega)]

/-- A sum of products whose lanes hold residues is exact. -/
theorem macExact_of_lanes {left right : Nat → BitVec 16} {sums : Nat → Reg 64} {x y : Nat → Reg 16}
    (hsum : ∀ block lane, sums block lane = BitVec.ofInt 64 (macLane left right (2 * block) lane))
    (hx : ∀ block lane, x block lane = left (8 * block + lane))
    (hy : ∀ block lane, y block lane = right (8 * block + lane)) :
    MacExact left right sums x y where
  products := fun block first lane => toInt_vmull first (x block) (y block) lane
  lanes := fun block hblock lane => by
    have hblocks : block ≤ 71 := hblock
    rw [hsum, toInt_ofInt_of_bound (by omega) (abs_macLane_le left right (2 * block) lane)
      (by omega)]
  halves := fun block hblock lane => by
    have hblocks : block < 71 := hblock
    rw [(macBlock_mac (hsum block) (hx block) (hy block) lane).1,
      toInt_ofInt_of_bound (by omega) (abs_macLane_le left right (2 * block + 1) lane) (by omega)]
  folded := by
    have hbound := abs_sum_product_le left right (8 * blocks)
    rw [vaddvq64_eq (hsum blocks), toInt_ofInt_of_bound (by omega) hbound
      (by rw [eight_mul_blocks]; omega)]
  tail := fun n hn => by
    have hbound := abs_sum_product_le left right (8 * blocks + n)
    rw [mac_tail (hsum blocks), toInt_ofInt_of_bound (by omega) hbound
      (by rw [eight_mul_blocks]; omega)]

/-- Every sum of the vector routine is exact at every step. -/
structure NoOverflow (v : Mem 16) : Prop where
  si : MeanExact (iValue v 0) fun block => (blockLoop v block).si32
  sq : MeanExact (qValue v 0) fun block => (blockLoop v block).sq32
  pii : ∀ m : Fin 4, MacExact (iValue v 0) (iValue v m) (fun block => (blockLoop v block).aii m)
    (baseReg v 0) (lagReg v m 0)
  pqq : ∀ m : Fin 4, MacExact (qValue v 0) (qValue v m) (fun block => (blockLoop v block).aqq m)
    (baseReg v 1) (lagReg v m 1)
  piq : ∀ m : Fin 4, MacExact (iValue v 0) (qValue v m) (fun block => (blockLoop v block).aiq m)
    (baseReg v 0) (lagReg v m 1)
  pqi : ∀ m : Fin 4, MacExact (qValue v 0) (iValue v m) (fun block => (blockLoop v block).aqi m)
    (baseReg v 1) (lagReg v m 0)

/-- **The vector routine is the scalar loop.** Whatever the payload and whatever the scratch held,
the sums are equal, and no product, lane, fold or tail of the vector routine overflows. -/
theorem qecSlotNeon_eq (p : Payload) (mem : Mem 16) :
    qecSlotNeon p mem = qecSlotScalar p ∧
      NoOverflow (decodeLoop p mem (qecDirectVals / 16)) := by
  have hlanes := blockLoop_lanes (decodeLoop p mem (qecDirectVals / 16))
  have hi := fun (m k : Nat) (hk : k + m < 576) => (decoded_eq p mem hk).1
  have hq := fun (m k : Nat) (hk : k + m < 576) => (decoded_eq p mem hk).2
  constructor
  · show QecSums.mk _ _ _ _ _ _ = QecSums.mk _ _ _ _ _ _
    rw [QecSums.mk.injEq]
    exact ⟨mean_eq (hi 0) fun lane => (hlanes blocks lane).1,
      mean_eq (hq 0) fun lane => (hlanes blocks lane).2.1,
      funext fun m => mac_eq m.isLt (hi 0) (hi m) fun lane => ((hlanes blocks lane).2.2 m).1,
      funext fun m => mac_eq m.isLt (hq 0) (hq m) fun lane => ((hlanes blocks lane).2.2 m).2.1,
      funext fun m => mac_eq m.isLt (hi 0) (hq m) fun lane => ((hlanes blocks lane).2.2 m).2.2.1,
      funext fun m => mac_eq m.isLt (hq 0) (hi m) fun lane => ((hlanes blocks lane).2.2 m).2.2.2⟩
  · exact
    { si := meanExact_of_lanes fun block lane => (hlanes block lane).1
      sq := meanExact_of_lanes fun block lane => (hlanes block lane).2.1
      pii := fun m => macExact_of_lanes (fun block lane => ((hlanes block lane).2.2 m).1)
        (baseReg_i _) (lagReg_i _ m)
      pqq := fun m => macExact_of_lanes (fun block lane => ((hlanes block lane).2.2 m).2.1)
        (baseReg_q _) (lagReg_q _ m)
      piq := fun m => macExact_of_lanes (fun block lane => ((hlanes block lane).2.2 m).2.2.1)
        (baseReg_i _) (lagReg_q _ m)
      pqi := fun m => macExact_of_lanes (fun block lane => ((hlanes block lane).2.2 m).2.2.2)
        (baseReg_q _) (lagReg_i _ m) }

end RfnmDriver.Rx.Qec
