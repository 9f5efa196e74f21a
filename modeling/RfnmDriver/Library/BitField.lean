import Mathlib.Data.BitVec

/-!
# Fields of a register

A field is a run of bits of a register. A driver changes one by a read, a mask and a write, and
packs several into the word of one write. `read_write_of_le` says what a field reads after a write
of a field around it, `read_write_of_disjoint` that a field beside it reads as before, and
`extract_pack_high` and `extract_pack_low` take a packed word apart. `getLsbD_setBit` is the same of
a single bit.
-/

namespace BitField

variable {width : Nat}

/-- The field of `len` bits from bit `lsb`. -/
def read (lsb len : Nat) (register : BitVec width) : BitVec len :=
  register.extractLsb' lsb len

/-- The ones of the field. -/
def mask (width lsb len : Nat) : BitVec width :=
  (BitVec.allOnes len).setWidth width <<< lsb

/-- The register with the low bits of the value in the field. -/
def write (lsb len : Nat) (register value : BitVec width) : BitVec width :=
  register &&& ~~~ mask width lsb len ||| value <<< lsb &&& mask width lsb len

variable {register value high low : BitVec width} {lsb len start inner i : Nat}

theorem getLsbD_mask (h : i < width) :
    (mask width lsb len).getLsbD i = decide (lsb ≤ i ∧ i < lsb + len) := by
  rw [mask, BitVec.getLsbD_shiftLeft, BitVec.getLsbD_setWidth, BitVec.getLsbD_allOnes,
    Bool.eq_iff_iff]
  simp only [h, decide_true, Bool.true_and, Bool.and_eq_true, Bool.not_eq_true', decide_eq_true_eq,
    decide_eq_false_iff_not]
  omega

theorem getLsbD_write (h : i < width) :
    (write lsb len register value).getLsbD i =
      if lsb ≤ i ∧ i < lsb + len then value.getLsbD (i - lsb) else register.getLsbD i := by
  simp only [write, BitVec.getLsbD_or, BitVec.getLsbD_and, BitVec.getLsbD_not, getLsbD_mask h,
    BitVec.getLsbD_shiftLeft, h, decide_true, Bool.true_and]
  split
  case isTrue hin => simp [hin]
  case isFalse hout => simp [hout]

/-- A field within the one written reads the bits of the value that stand there. -/
theorem read_write_of_le (hlsb : lsb ≤ start) (hlen : start + inner ≤ lsb + len)
    (hwidth : lsb + len ≤ width) :
    read start inner (write lsb len register value) = value.extractLsb' (start - lsb) inner := by
  ext i hi
  rw [read, BitVec.getElem_extractLsb', BitVec.getElem_extractLsb', getLsbD_write (by omega),
    if_pos (by omega), Nat.sub_add_comm hlsb]

/-- The field written reads the low bits of the value. -/
theorem read_write (hwidth : lsb + len ≤ width) :
    read lsb len (write lsb len register value) = value.setWidth len := by
  rw [read_write_of_le le_rfl le_rfl hwidth, Nat.sub_self]
  ext i hi
  rw [BitVec.getElem_extractLsb', Nat.zero_add, BitVec.getElem_setWidth]

/-- A field beside the one written reads as before. -/
theorem read_write_of_disjoint (h : start + inner ≤ lsb ∨ lsb + len ≤ start)
    (hwidth : start + inner ≤ width) :
    read start inner (write lsb len register value) = read start inner register := by
  ext i hi
  rw [read, read, BitVec.getElem_extractLsb', BitVec.getElem_extractLsb', getLsbD_write (by omega),
    if_neg (by omega)]

/-- The part of a packed word above the lower one. -/
theorem extract_pack_high (h : low.toNat < 2 ^ lsb) (hwidth : lsb + len ≤ width) :
    (high <<< lsb ||| low).extractLsb' lsb len = high.setWidth len := by
  ext i hi
  have hlow : low.getLsbD (lsb + i) = false :=
    Nat.testBit_lt_two_pow (h.trans_le (Nat.pow_le_pow_right Nat.two_pos (Nat.le_add_right ..)))
  have hin : lsb + i < width := by omega
  rw [BitVec.getElem_extractLsb', BitVec.getLsbD_or, hlow, Bool.or_false,
    BitVec.getLsbD_shiftLeft, BitVec.getElem_setWidth]
  simp [hin]

/-- The lower part of a packed word. -/
theorem extract_pack_low (hlen : len ≤ lsb) :
    (high <<< lsb ||| low).extractLsb' 0 len = low.setWidth len := by
  ext i hi
  have hhigh : (high <<< lsb).getLsbD i = false := by
    rw [BitVec.getLsbD_shiftLeft]
    simp [show i < lsb by omega]
  rw [BitVec.getElem_extractLsb', Nat.zero_add, BitVec.getLsbD_or, hhigh, Bool.false_or,
    BitVec.getElem_setWidth]

/-! ## Single bits -/

/-- The word with one bit set or cleared. -/
def setBit (word : BitVec width) (position : Nat) (val : Bool) : BitVec width :=
  if val then word ||| BitVec.ofNat width 1 <<< position
  else word &&& ~~~(BitVec.ofNat width 1 <<< position)

theorem getLsbD_setBit {word : BitVec width} {position : Nat} (h : position < width) (val : Bool)
    (i : Nat) :
    (setBit word position val).getLsbD i = if i = position then val else word.getLsbD i := by
  have hone : (BitVec.ofNat width 1 <<< position).getLsbD i = decide (position = i) := by
    rw [← BitVec.twoPow_eq, BitVec.getLsbD_twoPow, decide_eq_true h, Bool.true_and]
  cases val with
  | true =>
      show (word ||| BitVec.ofNat width 1 <<< position).getLsbD i = _
      rw [BitVec.getLsbD_or, hone]
      split
      case isTrue heq => simp [heq]
      case isFalse hne => simp [Ne.symm hne]
  | false =>
      show (word &&& ~~~(BitVec.ofNat width 1 <<< position)).getLsbD i = _
      rw [BitVec.getLsbD_and, BitVec.getLsbD_not, hone]
      split
      case isTrue heq => simp [heq]
      case isFalse hne =>
        rw [decide_eq_false (Ne.symm hne), Bool.not_false, Bool.and_true]
        by_cases hi : i < width
        · simp [hi]
        · simp [BitVec.getLsbD_of_ge _ _ (Nat.not_lt.mp hi)]

end BitField
