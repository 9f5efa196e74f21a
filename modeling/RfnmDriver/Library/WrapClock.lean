import Mathlib.Data.Int.ModEq
import Mathlib.Data.Int.Order.Lemmas
import Mathlib.Tactic.Linarith
import Mathlib.Tactic.Positivity
import Mathlib.Tactic.Ring

/-!
# Counters that wrap

A counter with a modulus stands for a time that does not wrap. `nearest` is the time next to a
reference that a reading can mean. A ring holds one lap of the slots of a grid over time: `slot` is
the number of the slot a time falls in, `lapSlot` its place in the ring, and two slots less than a
lap apart share a place only if they are the same (`eq_of_lapSlot_eq`).
-/

namespace WrapClock

/-! ## Readings -/

/-- The time congruent to `reading` modulo `2 * half` that is nearest to `now`, for a reading less
than a modulus from it. -/
def nearest (half now reading : ℤ) : ℤ :=
  if now < reading ∧ half < reading - now then reading - 2 * half
  else if reading < now ∧ half < now - reading then reading + 2 * half
  else reading

variable {half now reading : ℤ}

/-- The nearest time is one the reading can mean. -/
theorem nearest_emod (half now reading : ℤ) :
    nearest half now reading % (2 * half) = reading % (2 * half) := by
  unfold nearest
  split
  · exact Int.sub_emod_right reading (2 * half)
  · split
    · exact Int.add_emod_right reading (2 * half)
    · rfl

/-- The difference of two readings is the reading of the difference. -/
theorem ofInt_sub (width : ℕ) (first second : ℤ) :
    BitVec.ofInt width first - BitVec.ofInt width second = BitVec.ofInt width (first - second) := by
  rw [Int.sub_eq_add_neg, BitVec.ofInt_add, BitVec.ofInt_neg, BitVec.sub_eq_add_neg]

/-- The signed difference of two readings is positive when the times they mean are less than half a
wrap apart, and the first is later, whole wraps apart. -/
theorem toInt_sub_pos_iff (width : ℕ) (first second : ℤ) :
    0 < (BitVec.ofInt (width + 1) first - BitVec.ofInt (width + 1) second).toInt ↔
      0 < (first - second) % 2 ^ (width + 1) ∧ (first - second) % 2 ^ (width + 1) < 2 ^ width := by
  have hhalf : ((2 : ℤ) ^ (width + 1) + 1) / 2 = 2 ^ width := by
    rw [pow_succ]
    omega
  have hpos : (0 : ℤ) < 2 ^ width := by positivity
  have hlt : (first - second) % 2 ^ (width + 1) < 2 ^ (width + 1) :=
    Int.emod_lt_of_pos _ (by positivity)
  rw [ofInt_sub, BitVec.toInt_ofInt, Int.bmod_def]
  push_cast
  rw [hhalf]
  split
  · constructor
    · exact fun h => ⟨h, ‹_›⟩
    · exact fun h => h.1
  · constructor
    · intro h
      omega
    · intro h
      omega

/-- The first reading is later than the second, as the sign of their machine difference has it. -/
def later {width : ℕ} (first second : BitVec width) : Bool :=
  (second - first).slt 0

/-! ## Extension by counting wraps -/

/-- A reading below that of a base less than a modulus earlier says that the counter wrapped once in
between, and any other that it did not. -/
theorem div_of_near {modulus base time : ℕ} (hle : base ≤ time) (hnear : time < base + modulus) :
    time / modulus =
      if time % modulus < base % modulus then base / modulus + 1 else base / modulus := by
  have hbase := Nat.div_add_mod base modulus
  have htime := Nat.div_add_mod time modulus
  have hpos : 0 < modulus := by omega
  have hbaselt := Nat.mod_lt base hpos
  have htimelt := Nat.mod_lt time hpos
  have hdiv : base / modulus ≤ time / modulus := Nat.div_le_div_right hle
  have hstep : time / modulus ≤ base / modulus + 1 := by
    rw [← Nat.add_div_right base hpos]
    exact Nat.div_le_div_right hnear.le
  rcases Nat.le_or_eq_of_le_succ hstep with hsame | hnext
  · have hquot : time / modulus = base / modulus := le_antisymm hsame hdiv
    rw [hquot] at htime
    rw [if_neg (by omega), hquot]
  · rw [hnext, Nat.mul_succ] at htime
    rw [if_pos (by omega), hnext]

/-- The machine difference of two readings is the time between them, if that is less than a
modulus. -/
theorem toNat_sub_of_near {width base time : ℕ} (hle : base ≤ time)
    (hnear : time < base + 2 ^ width) :
    (BitVec.ofNat width time - BitVec.ofNat width base).toNat = time - base := by
  have hsum : BitVec.ofNat width time =
      BitVec.ofNat width (time - base) + BitVec.ofNat width base := by
    rw [← BitVec.ofNat_add, Nat.sub_add_cancel hle]
  rw [hsum, BitVec.add_sub_cancel, BitVec.toNat_ofNat]
  exact Nat.mod_eq_of_lt (by omega)

/-! ## Rings -/

/-- The slot of a grid with origin `origin` that a time falls in. -/
def slot (origin : ℤ) (ticks : ℕ) (time : ℤ) : ℤ :=
  (time - origin) / ticks

/-- The place in a ring of `cap` slots. -/
def lapSlot (cap : ℕ) (slot : ℤ) : ℕ :=
  (slot % cap).toNat

variable {origin time other first second : ℤ} {ticks cap : ℕ}

/-- Slots less than a lap apart share a place only if they are the same. -/
theorem eq_of_lapSlot_eq (h : lapSlot cap first = lapSlot cap second)
    (hnear : |first - second| < cap) : first = second := by
  have hpos : (0 : ℤ) < cap := lt_of_le_of_lt (abs_nonneg _) hnear
  have hfirst := Int.emod_nonneg first hpos.ne'
  have hsecond := Int.emod_nonneg second hpos.ne'
  have hmod : first % cap = second % cap := by
    unfold lapSlot at h
    omega
  have hdvd : (cap : ℤ) ∣ first - second := Int.ModEq.dvd (Int.ModEq.symm hmod)
  have hzero := Int.eq_zero_of_abs_lt_dvd hdvd hnear
  omega

/-- Going on in the grid is going on in the ring. -/
theorem lapSlot_add (hcap : 0 < cap) (slot : ℤ) (count : ℕ) :
    lapSlot cap (slot + count) = (lapSlot cap slot + count) % cap := by
  have hne : (cap : ℤ) ≠ 0 := by exact_mod_cast hcap.ne'
  obtain ⟨place, hplace⟩ := Int.eq_ofNat_of_zero_le (Int.emod_nonneg slot hne)
  unfold lapSlot
  rw [← Int.emod_add_emod, hplace, Int.toNat_natCast, ← Nat.cast_add, ← Int.natCast_mod,
    Int.toNat_natCast]

/-- The slots of a whole number of laps share a place. -/
theorem lapSlot_add_mul (cap : ℕ) (slot laps : ℤ) :
    lapSlot cap (slot + cap * laps) = lapSlot cap slot := by
  unfold lapSlot
  rw [Int.add_mul_emod_self_left]

/-- Whole slots later, the slot is that much further on. -/
theorem slot_add (hticks : 0 < ticks) (origin time : ℤ) (count : ℕ) :
    slot origin ticks (time + count * ticks) = slot origin ticks time + count := by
  have hne : (ticks : ℤ) ≠ 0 := by exact_mod_cast hticks.ne'
  unfold slot
  rw [show time + count * ticks - origin = time - origin + count * ticks by ring,
    Int.add_mul_ediv_right _ _ hne]

/-- A later time is in no earlier slot. -/
theorem slot_mono (hticks : 0 < ticks) (origin : ℤ) (h : time ≤ other) :
    slot origin ticks time ≤ slot origin ticks other := by
  have hpos : (0 : ℤ) < ticks := by exact_mod_cast hticks
  exact Int.ediv_le_ediv hpos (by omega)

/-- A reading gives the place of the time it means when a lap divides its modulus. -/
theorem lapSlot_of_reading {modulus : ℕ} (hticks : 0 < ticks) (hlap : ticks * cap ∣ modulus)
    (h : reading % modulus = (time - origin) % modulus) :
    lapSlot cap (reading / ticks) = lapSlot cap (slot origin ticks time) := by
  have hne : (ticks : ℤ) ≠ 0 := by exact_mod_cast hticks.ne'
  obtain ⟨laps, rfl⟩ := hlap
  obtain ⟨wraps, hwraps⟩ := Int.ModEq.dvd h
  have htime : time - origin = reading + ticks * (cap * (laps * wraps)) := by
    push_cast at hwraps
    linarith [hwraps, show (ticks : ℤ) * cap * laps * wraps = ticks * (cap * (laps * wraps)) by
      ring]
  unfold slot
  rw [htime, Int.add_mul_ediv_left _ _ hne, lapSlot_add_mul]

end WrapClock
