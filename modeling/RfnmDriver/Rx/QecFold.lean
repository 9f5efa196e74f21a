import RfnmDriver.Library.CheckedInt
import RfnmDriver.Rx.Packet
import RfnmDriver.Rx.QecSums

/-!
# The accumulator of the image estimator

`qec_poll` adds the sums of every valid slot it reads to one accumulator, until a solve or a step
of the DC null clears it. A sample is a 12-bit value, so each sum is bounded by its number of
terms, and no window comes near the end of 64 bits: see `qecFold_window`.
-/

namespace RfnmDriver.Rx.Qec

open CheckedInt Lanes Finset

/-- A slot of the ADC ring: its first three descriptors, and what is behind `QEC_PAYLOAD_OFF`. -/
structure RingSlot where
  subs : Fin 3 → SubBuffer
  payload : Payload

/-- `qec_slot_valid`. -/
def qecSlotValid (slot : RingSlot) : Bool :=
  decide (∀ s, (slot.subs s).id = 0 ∧ (slot.subs s).size = 256)

/-- `struct qec_acc`. The counts are unsigned. -/
structure QecAcc where
  n : Nat
  si : Int
  sq : Int
  pii : Fin 4 → Int
  pqq : Fin 4 → Int
  piq : Fin 4 → Int
  pqi : Fin 4 → Int
  cnt : Fin 4 → Nat

/-- A cleared accumulator. -/
def QecAcc.clear : QecAcc :=
  ⟨0, 0, 0, fun _ => 0, fun _ => 0, fun _ => 0, fun _ => 0, fun _ => 0⟩

/-- `acc[m] += s[m]` over the lags. -/
def addLags (acc : Fin 4 → Int) (s : Fin 4 → BitVec 64) : Checked (Fin 4 → Int) :=
  if ∀ m, InS64 (acc m + (s m).toInt) then .ok fun m => acc m + (s m).toInt
  else .error .overflow

/-- `qec_fold_sums`. -/
def qecFoldSums (acc : QecAcc) (s : QecSums) : Checked QecAcc := do
  let si ← add64 acc.si s.si.toInt
  let sq ← add64 acc.sq s.sq.toInt
  let pii ← addLags acc.pii s.pii
  let pqq ← addLags acc.pqq s.pqq
  let piq ← addLags acc.piq s.piq
  let pqi ← addLags acc.pqi s.pqi
  return ⟨acc.n + qecDirectVals / 2, si, sq, pii, pqq, piq, pqi,
    fun m => acc.cnt m + (qecDirectVals / 2 - m)⟩

/-- The sums of a slot, by the routine that `use_neon` selects. -/
def slotSums (neon : Bool) (samp : Mem 16) (slot : RingSlot) : QecSums :=
  if neon then qecSlotNeon slot.payload samp else qecSlotScalar slot.payload

/-- The loop of `qec_poll` over the slots it reads, of one wake or of many. -/
def qecFold (neon : Bool) (samp : Mem 16) (acc : QecAcc) (slots : List RingSlot) :
    Checked QecAcc :=
  slots.foldlM (fun acc slot =>
    if qecSlotValid slot then qecFoldSums acc (slotSums neon samp slot) else .ok acc) acc

/-! ## The sums of a slot -/

/-- A sample is a 12-bit value. -/
theorem abs_decode_le (word : BitVec 16) : |(decode word).toInt| ≤ 2048 := by
  have hlow := BitVec.le_toInt (word &&& 0xFFF0#16)
  have hhigh := BitVec.toInt_lt (x := word &&& 0xFFF0#16)
  have hshift : (decode word).toInt = (word &&& 0xFFF0#16).toInt / 16 := by
    unfold decode
    rw [BitVec.toInt_sshiftRight, Int.shiftRight_eq_div_pow]
    rfl
  rw [hshift, abs_le]
  omega

/-- A scalar mean is exact. -/
theorem toInt_sumLoop {value : Nat → BitVec 16} (hvalue : ∀ k, |(value k).toInt| ≤ 2048)
    {n : Nat} (hn : n ≤ 576) :
    (sumLoop value 0 n).toInt = ∑ k ∈ range n, (value k).toInt ∧
      |∑ k ∈ range n, (value k).toInt| ≤ 2048 * n := by
  have hbound : |∑ k ∈ range n, (value k).toInt| ≤ (n * 2048 : Nat) :=
    abs_sum_range_le fun k _ => hvalue k
  refine ⟨?_, hbound.trans (by push_cast; omega)⟩
  rw [sumLoop_eq]
  refine (congrArg BitVec.toInt (BitVec.zero_add _)).trans ?_
  exact toInt_ofInt_of_bound (by omega) hbound (by omega)

/-- A scalar sum of products is exact. -/
theorem toInt_macLoop {left right : Nat → BitVec 16} (hleft : ∀ k, |(left k).toInt| ≤ 2048)
    (hright : ∀ k, |(right k).toInt| ≤ 2048) {n : Nat} (hn : n ≤ 576) :
    (macLoop left right 0 n).toInt = ∑ k ∈ range n, product left right k ∧
      |∑ k ∈ range n, product left right k| ≤ 4194304 * n := by
  have hbound : |∑ k ∈ range n, product left right k| ≤ (n * 4194304 : Nat) := by
    refine abs_sum_range_le fun k _ => ?_
    unfold product
    rw [abs_mul]
    calc |(left k).toInt| * |(right k).toInt| ≤ 2048 * 2048 :=
          mul_le_mul (hleft k) (hright k) (abs_nonneg _) (by omega)
      _ = (4194304 : Nat) := rfl
  refine ⟨?_, hbound.trans (by push_cast; omega)⟩
  rw [macLoop_eq]
  refine (congrArg BitVec.toInt (BitVec.zero_add _)).trans ?_
  exact toInt_ofInt_of_bound (by omega) hbound (by omega)

/-- The bounds of the sums of so many slots. -/
structure Bounded (count : Nat) (si sq : Int) (pii pqq piq pqi : Fin 4 → Int) : Prop where
  si : |si| ≤ 2048 * (576 * count : Nat)
  sq : |sq| ≤ 2048 * (576 * count : Nat)
  pii : ∀ m, |pii m| ≤ 4194304 * ((576 - m) * count : Nat)
  pqq : ∀ m, |pqq m| ≤ 4194304 * ((576 - m) * count : Nat)
  piq : ∀ m, |piq m| ≤ 4194304 * ((576 - m) * count : Nat)
  pqi : ∀ m, |pqi m| ≤ 4194304 * ((576 - m) * count : Nat)

theorem slotSums_bounded (neon : Bool) (samp : Mem 16) (slot : RingSlot) :
    let s := slotSums neon samp slot
    Bounded 1 s.si.toInt s.sq.toInt (fun m => (s.pii m).toInt) (fun m => (s.pqq m).toInt)
      (fun m => (s.piq m).toInt) fun m => (s.pqi m).toInt := by
  have hscalar : slotSums neon samp slot = qecSlotScalar slot.payload := by
    unfold slotSums
    split
    · exact (qecSlotNeon_eq slot.payload samp).1
    · rfl
  have hi : ∀ m k, |(iValue (scratch slot.payload) m k).toInt| ≤ 2048 :=
    fun _ _ => abs_decode_le _
  have hq : ∀ m k, |(qValue (scratch slot.payload) m k).toInt| ≤ 2048 :=
    fun _ _ => abs_decode_le _
  have hsum : ∀ value : Nat → BitVec 16, (∀ k, |(value k).toInt| ≤ 2048) →
      |(sumLoop value 0 576).toInt| ≤ 2048 * (576 * 1 : Nat) := fun value hvalue => by
    obtain ⟨hexact, hbound⟩ := toInt_sumLoop hvalue (le_refl 576)
    rwa [hexact]
  have hmac : ∀ (left right : Nat → BitVec 16) (m : Fin 4), (∀ k, |(left k).toInt| ≤ 2048) →
      (∀ k, |(right k).toInt| ≤ 2048) →
      |(macLoop left right 0 (576 - m)).toInt| ≤ 4194304 * ((576 - m) * 1 : Nat) :=
    fun left right m hleft hright => by
      obtain ⟨hexact, hbound⟩ := toInt_macLoop hleft hright (Nat.sub_le 576 m)
      rwa [hexact, Nat.mul_one]
  rw [hscalar]
  exact ⟨hsum _ (hi 0), hsum _ (hq 0), fun m => hmac _ _ m (hi 0) (hi m),
    fun m => hmac _ _ m (hq 0) (hq m), fun m => hmac _ _ m (hi 0) (hq m),
    fun m => hmac _ _ m (hq 0) (hi m)⟩

/-! ## The sums of a window -/

/-- What holds of an accumulator with so many slots in it. -/
structure QecAcc.Holds (acc : QecAcc) (count : Nat) : Prop where
  n : acc.n = 576 * count
  cnt : ∀ m, acc.cnt m = (576 - m) * count
  bounded : Bounded count acc.si acc.sq acc.pii acc.pqq acc.piq acc.pqi

theorem QecAcc.holds_clear : QecAcc.clear.Holds 0 := by
  refine ⟨rfl, fun _ => (Nat.mul_zero _).symm, ⟨?_, ?_, ?_, ?_, ?_, ?_⟩⟩
  all_goals simp [QecAcc.clear]

/-- Two sums that are each within their bound add up within both. -/
theorem abs_add_bounds {x y : Int} (scale : Int) {first second : Nat} (hx : |x| ≤ scale * first)
    (hy : |y| ≤ scale * second) : |x + y| ≤ scale * (first + second : Nat) := by
  rw [Nat.cast_add, Int.mul_add]
  exact (abs_add_le x y).trans (Int.add_le_add hx hy)

theorem addLags_ok {acc : Fin 4 → Int} {s : Fin 4 → BitVec 64} {count : Nat}
    (hwindow : 576 * (count + 1) < 4294967296)
    (hacc : ∀ m, |acc m| ≤ 4194304 * ((576 - m) * count : Nat))
    (hs : ∀ m, |(s m).toInt| ≤ 4194304 * ((576 - m) * 1 : Nat)) :
    addLags acc s = .ok (fun m => acc m + (s m).toInt) ∧
      ∀ m, |acc m + (s m).toInt| ≤ 4194304 * ((576 - m) * (count + 1) : Nat) := by
  have hsum : ∀ m : Fin 4,
      |acc m + (s m).toInt| ≤ 4194304 * ((576 - m) * (count + 1) : Nat) := fun m => by
    rw [Nat.mul_add]
    exact abs_add_bounds 4194304 (hacc m) (hs m)
  refine ⟨if_pos fun m => ?_, hsum⟩
  have hcount : (576 - m) * (count + 1) ≤ 576 * (count + 1) :=
    Nat.mul_le_mul_right _ (Nat.sub_le _ _)
  have hrange := abs_le.mp (hsum m)
  unfold InS64
  omega

/-- The exact sums. -/
def QecAcc.plus (acc : QecAcc) (s : QecSums) : QecAcc :=
  { n := acc.n + 576
    si := acc.si + s.si.toInt
    sq := acc.sq + s.sq.toInt
    pii := fun m => acc.pii m + (s.pii m).toInt
    pqq := fun m => acc.pqq m + (s.pqq m).toInt
    piq := fun m => acc.piq m + (s.piq m).toInt
    pqi := fun m => acc.pqi m + (s.pqi m).toInt
    cnt := fun m => acc.cnt m + (576 - m) }

/-- One more slot: nothing overflows within a window. -/
theorem qecFoldSums_holds {acc : QecAcc} {count : Nat} (h : acc.Holds count) {s : QecSums}
    (hs : Bounded 1 s.si.toInt s.sq.toInt (fun m => (s.pii m).toInt) (fun m => (s.pqq m).toInt)
      (fun m => (s.piq m).toInt) fun m => (s.pqi m).toInt)
    (hwindow : 576 * (count + 1) < 4294967296) :
    qecFoldSums acc s = .ok (acc.plus s) ∧ (acc.plus s).Holds (count + 1) := by
  have hadd : ∀ {x y : Int}, |x| ≤ 2048 * (576 * count : Nat) → |y| ≤ 2048 * (576 * 1 : Nat) →
      add64 x y = .ok (x + y) ∧ |x + y| ≤ 2048 * (576 * (count + 1) : Nat) := by
    intro x y hx hy
    have hsum := gives_add64 hx hy (by push_cast; omega)
    refine ⟨hsum.eq, hsum.abs_le.trans (by push_cast; omega)⟩
  obtain ⟨hsi, hsiBound⟩ := hadd h.bounded.si hs.si
  obtain ⟨hsq, hsqBound⟩ := hadd h.bounded.sq hs.sq
  obtain ⟨hpii, hpiiBound⟩ := addLags_ok hwindow h.bounded.pii hs.pii
  obtain ⟨hpqq, hpqqBound⟩ := addLags_ok hwindow h.bounded.pqq hs.pqq
  obtain ⟨hpiq, hpiqBound⟩ := addLags_ok hwindow h.bounded.piq hs.piq
  obtain ⟨hpqi, hpqiBound⟩ := addLags_ok hwindow h.bounded.pqi hs.pqi
  refine ⟨?_, ?_⟩
  · unfold qecFoldSums
    rw [hsi, ok_bind, hsq, ok_bind, hpii, ok_bind, hpqq, ok_bind, hpiq, ok_bind, hpqi, ok_bind]
    rfl
  · refine ⟨?_, fun m => ?_, hsiBound, hsqBound, hpiiBound, hpqqBound, hpiqBound, hpqiBound⟩
    · show acc.n + 576 = 576 * (count + 1)
      rw [h.n, Nat.mul_succ]
    · show acc.cnt m + (576 - m) = (576 - m) * (count + 1)
      rw [h.cnt, Nat.mul_succ]

/-- The slots of a window that count. -/
def validSlots (slots : List RingSlot) : Nat := slots.countP qecSlotValid

/-- A window is folded without overflow. -/
theorem qecFold_holds (neon : Bool) (samp : Mem 16) {slots : List RingSlot} {acc : QecAcc}
    {count : Nat} (h : acc.Holds count)
    (hwindow : 576 * (count + validSlots slots) < 4294967296) :
    ∃ folded, qecFold neon samp acc slots = .ok folded ∧
      folded.Holds (count + validSlots slots) := by
  induction slots generalizing acc count with
  | nil => exact ⟨acc, rfl, h⟩
  | cons slot rest ih =>
      unfold validSlots at hwindow
      unfold qecFold validSlots
      rw [List.foldlM_cons]
      by_cases hvalid : qecSlotValid slot = true
      · rw [List.countP_cons_of_pos hvalid] at hwindow ⊢
        obtain ⟨hfold, hholds⟩ := qecFoldSums_holds h (slotSums_bounded neon samp slot) (by omega)
        rw [if_pos hvalid, hfold, ok_bind, Nat.add_comm _ 1, ← Nat.add_assoc]
        exact ih hholds (by unfold validSlots; omega)
      · rw [List.countP_cons_of_neg hvalid] at hwindow ⊢
        rw [if_neg hvalid, ok_bind]
        exact ih h hwindow

/-- The accumulator of a window from a cleared one. -/
theorem qecFold_window (neon : Bool) (samp : Mem 16) {slots : List RingSlot}
    (hwindow : 576 * validSlots slots < 4294967296) :
    ∃ acc, qecFold neon samp .clear slots = .ok acc ∧ acc.Holds (validSlots slots) := by
  have hcount : 576 * (0 + validSlots slots) < 4294967296 := by rwa [Nat.zero_add]
  have hfold := qecFold_holds neon samp QecAcc.holds_clear hcount
  rwa [Nat.zero_add] at hfold

/-- So many slots with the same sums. -/
def QecAcc.copies (count : Nat) (s : QecSums) : QecAcc :=
  { n := 576 * count
    si := count * s.si.toInt
    sq := count * s.sq.toInt
    pii := fun m => count * (s.pii m).toInt
    pqq := fun m => count * (s.pqq m).toInt
    piq := fun m => count * (s.piq m).toInt
    pqi := fun m => count * (s.pqi m).toInt
    cnt := fun m => (576 - m) * count }

theorem QecAcc.copies_plus (count : Nat) (s : QecSums) :
    (QecAcc.copies count s).plus s = QecAcc.copies (count + 1) s := by
  have hsum : ∀ x : Int, count * x + x = (count + 1 : Nat) * x := fun x => by
    rw [Nat.cast_succ, Int.add_mul, Int.one_mul]
  unfold QecAcc.plus QecAcc.copies
  simp only [hsum, Nat.mul_succ]

/-- A window of equal slots. -/
theorem qecFold_replicate (neon : Bool) (samp : Mem 16) {slot : RingSlot}
    (hvalid : qecSlotValid slot = true) {count : Nat} (hwindow : 576 * count < 4294967296) :
    qecFold neon samp .clear (List.replicate count slot) =
        .ok (.copies count (slotSums neon samp slot)) ∧
      (QecAcc.copies count (slotSums neon samp slot)).Holds count := by
  induction count with
  | zero =>
      have hclear : QecAcc.copies 0 (slotSums neon samp slot) = .clear := by
        simp [QecAcc.copies, QecAcc.clear]
      rw [hclear]
      exact ⟨rfl, QecAcc.holds_clear⟩
  | succ count ih =>
      obtain ⟨hfold, hholds⟩ := ih (by omega)
      have hnext := qecFoldSums_holds hholds (slotSums_bounded neon samp slot) hwindow
      rw [QecAcc.copies_plus] at hnext
      refine ⟨?_, hnext.2⟩
      unfold qecFold at hfold ⊢
      rw [List.replicate_succ', List.foldlM_append, hfold, ok_bind, List.foldlM_cons, if_pos hvalid,
        hnext.1, ok_bind]
      rfl

end RfnmDriver.Rx.Qec
