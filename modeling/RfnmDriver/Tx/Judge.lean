import RfnmDriver.Tx.RingMap

/-!
# The judge in machine words

`rfnm_handler_out` widens the stamp of a packet, and takes the lead of it, in unsigned 64-bit words
that may wrap. The words say what the ticks do (`judgeWord_eq`): the tick of a stamp is the one next
to the clock, also where the clock has just started. Where stamp and clock are exactly half a wrap
apart there are two such ticks, and the words take the one that shares the upper word of the clock.
-/

namespace RfnmDriver.Tx

open WrapClock

variable {dac : DacRing} {grid : TxGrid} {margin stamp : BitVec 32} {now64 : BitVec 64} {time : ℤ}

/-! ## The words of the handler -/

/-- `stamp64`, as the handler widens it. -/
def stampWord (now64 : BitVec 64) (stamp : BitVec 32) : BitVec 64 :=
  let stamp64 := now64 &&& ~~~0xFFFFFFFF#64 ||| stamp.setWidth 64
  if now64 < stamp64 ∧ 0x80000000#64 < stamp64 - now64 then stamp64 - 0x100000000#64
  else if stamp64 < now64 ∧ 0x80000000#64 < now64 - stamp64 then stamp64 + 0x100000000#64
  else stamp64

/-- `lead`: the signed difference of two words, which wraps. -/
def leadWord (now64 : BitVec 64) (stamp : BitVec 32) : BitVec 64 :=
  stampWord now64 stamp - now64

/-- The judge of `rfnm_handler_out`, in the words it computes with. -/
def judgeWord (dac : DacRing) (grid : TxGrid) (margin : BitVec 32) (now64 : BitVec 64)
    (stamp : BitVec 32) : Verdict :=
  if (leadWord now64 stamp).toInt < minLeadTicks margin grid then .late
  else if dac.maxLead grid < (leadWord now64 stamp).toInt then
    if dac.maxLead grid + 61440000 < (leadWord now64 stamp).toInt then .wild else .early
  else .accepted

/-! ## What the judge is for -/

/-- The partition of the differences by the thresholds of the judge. -/
def verdict (dac : DacRing) (grid : TxGrid) (margin : BitVec 32) (difference : ℤ) : Verdict :=
  if difference < minLeadTicks margin grid then .late
  else if difference ≤ dac.maxLead grid then .accepted
  else if difference ≤ dac.maxLead grid + 61440000 then .early
  else .wild

/-- The signed 32-bit difference of the stamp and the clock. -/
def difference (now64 : BitVec 64) (stamp : BitVec 32) : ℤ :=
  (stamp - now64.setWidth 32).toInt

/-- The time is one the stamp can mean, and at most half a wrap from the clock. -/
def Near (now64 : BitVec 64) (stamp : BitVec 32) (time : ℤ) : Prop :=
  time % 2 ^ 32 = stamp.toNat ∧ |time - now64.toNat| ≤ 2 ^ 31

/-- Stamp and clock are exactly half a wrap apart. -/
def Opposite (now64 : BitVec 64) (stamp : BitVec 32) : Prop :=
  stamp - now64.setWidth 32 = 0x80000000#32

instance (now64 : BitVec 64) (stamp : BitVec 32) : Decidable (Opposite now64 stamp) :=
  inferInstanceAs (Decidable (_ = _))

/-! ## Words and ticks -/

/-- The upper word of the clock over the stamp. -/
theorem upper_or_stamp_toNat (now64 : BitVec 64) (stamp : BitVec 32) :
    (now64 &&& ~~~0xFFFFFFFF#64 ||| stamp.setWidth 64).toNat =
      now64.toNat / 2 ^ 32 * 2 ^ 32 + stamp.toNat := by
  have hmask : ~~~0xFFFFFFFF#64 = BitVec.allOnes 64 <<< 32 := rfl
  have hnow := now64.isLt
  have hstamp := stamp.isLt
  have hhigh : (now64.toNat / 2 ^ 32) <<< 32 % 2 ^ 64 = (now64.toNat / 2 ^ 32) <<< 32 := by
    rw [Nat.shiftLeft_eq]
    omega
  rw [hmask, ← BitVec.shiftLeft_ushiftRight, BitVec.toNat_or, BitVec.toNat_shiftLeft,
    BitVec.toNat_ushiftRight, Nat.shiftRight_eq_div_pow, hhigh,
    BitVec.toNat_setWidth_of_le (by omega), ← Nat.shiftLeft_add_eq_or_of_lt hstamp,
    Nat.shiftLeft_eq]

/-- Comparing words and their difference is comparing the ticks they hold. -/
theorem half_lt_sub_iff (first second : BitVec 64) :
    first < second ∧ 0x80000000#64 < second - first ↔
      (first.toNat : ℤ) < second.toNat ∧ 2 ^ 31 < (second.toNat : ℤ) - first.toNat := by
  rw [BitVec.lt_def, BitVec.lt_def, Nat.cast_lt]
  refine and_congr_right fun hlt => ?_
  rw [BitVec.toNat_sub_of_le (BitVec.le_def.mpr hlt.le)]
  show 2147483648 < _ ↔ _
  omega

/-- The widened word is the tick of the stamp, modulo the range of a word: neither an underflow nor
an overflow loses anything. -/
theorem stampWord_eq (now64 : BitVec 64) (stamp : BitVec 32) :
    stampWord now64 stamp = BitVec.ofInt 64 (stamp64 now64.toNat stamp) := by
  have hword := upper_or_stamp_toNat now64 stamp
  unfold stampWord stamp64 nearest
  dsimp only
  rw [← hword]
  generalize now64 &&& ~~~0xFFFFFFFF#64 ||| stamp.setWidth 64 = word
  have hself : BitVec.ofInt 64 word.toNat = word := by
    rw [BitVec.ofInt_natCast, BitVec.ofNat_toNat, BitVec.setWidth_eq]
  simp only [half_lt_sub_iff]
  split
  · rw [← ofInt_sub, hself]
    rfl
  · split
    · rw [BitVec.ofInt_add, hself]
      rfl
    · exact hself.symm

/-- The tick of a stamp is near the clock. -/
theorem near_stamp64 (now64 : BitVec 64) (stamp : BitVec 32) :
    Near now64 stamp (stamp64 now64.toNat stamp) := by
  have hstamp := stamp.isLt
  refine ⟨stamp64_emod now64.toNat stamp, ?_⟩
  rw [abs_le]
  unfold stamp64 nearest
  constructor <;> split_ifs <;> omega

/-- A word holds the tick of the clock. -/
theorem ofInt_now64 (now64 : BitVec 64) : BitVec.ofInt 64 now64.toNat = now64 := by
  rw [BitVec.ofInt_natCast, BitVec.ofNat_toNat, BitVec.setWidth_eq]

/-- The signed word of the lead is the lead. -/
theorem leadWord_toInt (now64 : BitVec 64) (stamp : BitVec 32) :
    (leadWord now64 stamp).toInt = lead now64.toNat stamp := by
  have hnear := abs_le.mp (near_stamp64 now64 stamp).2
  have hword : leadWord now64 stamp = BitVec.ofInt 64 (lead now64.toNat stamp) := by
    unfold leadWord lead
    rw [stampWord_eq, ← ofInt_sub, ofInt_now64]
  rw [hword, BitVec.toInt_ofInt, Int.bmod_def]
  unfold lead
  split_ifs <;> omega

/-- The words of the handler say what the ticks do. -/
theorem judgeWord_eq (dac : DacRing) (grid : TxGrid) (margin : BitVec 32) (now64 : BitVec 64)
    (stamp : BitVec 32) :
    judgeWord dac grid margin now64 stamp = judge dac grid margin now64.toNat stamp := by
  unfold judgeWord judge
  rw [leadWord_toInt]

/-- The judge looks at the lead alone. -/
theorem judge_eq_verdict (dac : DacRing) (grid : TxGrid) (margin : BitVec 32) (now64 : Nat)
    (stamp : BitVec 32) :
    judge dac grid margin now64 stamp = verdict dac grid margin (lead now64 stamp) := by
  unfold judge verdict
  split_ifs <;> first | rfl | omega

/-! ## Half a wrap -/

/-- The difference is how far the tick is from the clock, up to whole wraps. -/
theorem difference_eq (now64 : BitVec 64) (h : time % 2 ^ 32 = stamp.toNat) :
    difference now64 stamp = (time - now64.toNat).bmod (2 ^ 32) := by
  have hstamp : stamp = BitVec.ofInt 32 time := by
    apply BitVec.eq_of_toNat_eq
    rw [BitVec.toNat_ofInt]
    omega
  have hnow : now64.setWidth 32 = BitVec.ofInt 32 now64.toNat := by
    rw [BitVec.ofInt_natCast]
    rfl
  unfold difference
  rw [hstamp, hnow, ofInt_sub, BitVec.toInt_ofInt]

/-- Stamp and clock are half a wrap apart where the signed difference has no opposite. -/
theorem opposite_iff (now64 : BitVec 64) (stamp : BitVec 32) :
    Opposite now64 stamp ↔ difference now64 stamp = -2 ^ 31 := by
  unfold Opposite difference
  rw [← BitVec.toInt_inj]
  rfl

/-- Short of half a wrap, the difference is how far the tick is from the clock. -/
theorem Near.sub_eq (h : Near now64 stamp time) (hopposite : ¬ Opposite now64 stamp) :
    time - now64.toNat = difference now64 stamp := by
  obtain ⟨hmod, habs⟩ := h
  have hnear := abs_le.mp habs
  have hdifference := difference_eq now64 hmod
  rw [opposite_iff] at hopposite
  rw [Int.bmod_def] at hdifference
  split_ifs at hdifference <;> omega

/-- Half a wrap from the clock, the widened word keeps the upper word of the clock. -/
theorem stamp64_div_of_opposite (h : Opposite now64 stamp) :
    stamp64 now64.toNat stamp / 2 ^ 32 = now64.toNat / 2 ^ 32 := by
  have hstamp := stamp.isLt
  have hmod : ((now64.toNat / 2 ^ 32 * 2 ^ 32 + stamp.toNat : Nat) : ℤ) % 2 ^ 32 =
      stamp.toNat := by
    omega
  have hdifference := difference_eq now64 hmod
  rw [(opposite_iff now64 stamp).mp h, Int.bmod_def] at hdifference
  unfold stamp64 nearest
  split_ifs at hdifference ⊢ <;> omega

/-- The judge partitions the signed differences of stamp and clock by its thresholds, and the word
it derives holds the one tick near the clock that the stamp can mean, except where stamp and clock
are half a wrap apart: there it takes, of the two ticks, the one with the upper word of the clock,
and rules on that. -/
theorem judge_partition (dac : DacRing) (grid : TxGrid) (margin : BitVec 32) (now64 : BitVec 64)
    (stamp : BitVec 32) :
    ∃ time, Near now64 stamp time ∧ stampWord now64 stamp = BitVec.ofInt 64 time ∧
      if Opposite now64 stamp then
        time / 2 ^ 32 = now64.toNat / 2 ^ 32 ∧
          judgeWord dac grid margin now64 stamp = verdict dac grid margin (time - now64.toNat)
      else
        judgeWord dac grid margin now64 stamp =
            verdict dac grid margin (difference now64 stamp) ∧
          ∀ other, Near now64 stamp other → other = time := by
  have hnear := near_stamp64 now64 stamp
  have hjudge : judgeWord dac grid margin now64 stamp =
      verdict dac grid margin (stamp64 now64.toNat stamp - now64.toNat) := by
    rw [judgeWord_eq, judge_eq_verdict, lead]
  refine ⟨stamp64 now64.toNat stamp, hnear, stampWord_eq now64 stamp, ?_⟩
  split
  next hopposite => exact ⟨stamp64_div_of_opposite hopposite, hjudge⟩
  next hopposite =>
    rw [hjudge, hnear.sub_eq hopposite]
    refine ⟨rfl, fun other hother => ?_⟩
    have hsame := (hother.sub_eq hopposite).trans (hnear.sub_eq hopposite).symm
    omega

/-- Just after boot, a stamp from before it is late, not a wrap ahead. -/
example : judgeWord sampleDac sampleGrid 48 5 0xFFFFFFFF = .late := by decide

/-- A stamp half a wrap ahead of the clock is ruled wild. The signed difference is the most
negative one, and two ticks are equally near. -/
theorem opposite_ruled_wild :
    judgeWord sampleDac sampleGrid 48 0 0x80000000 = .wild ∧
      verdict sampleDac sampleGrid 48 (difference 0 0x80000000) = .late ∧
      Near 0 0x80000000 (2 ^ 31) ∧ Near 0 0x80000000 (-2 ^ 31) := by
  refine ⟨by decide, by decide, ?_, ?_⟩ <;> constructor <;> decide

end RfnmDriver.Tx
