import Mathlib.Order.Bounds.Basic
import RfnmDriver.Rx.Cs16Fill

/-!
# The peak of the gain control

`agc_slot_stats` of `rfnm_agc` takes the peak of a raw ADC slot. It reads the slot as standard
packed samples, which it only is behind `rfnm_remap_packed_vspa_aarch64`, and it reads one group for
two samples. So its peak is the one of the samples exactly when the largest of the groups it reads
is as large as the largest sample: `agcPeak_iff`.
-/

namespace RfnmDriver.Rx.AgcPeak

open Lanes RingLayout Cs16Fill

variable {first second : Nat → Int} {peak : Int} {count sample : Nat}

/-! ## The statistics -/

/-- `rfnm_local_rx_fmt`. -/
inductive LocalRxFmt
  | packed12
  | cs16
  deriving DecidableEq, Repr

/-- A raw slot: its descriptors, and what is behind `AGC_PAYLOAD_OFF`. -/
structure RawSlot where
  subs : List SubBuffer
  payload : Mem 8

/-- `AGC_MAX_SLOT_SAMPLES`. -/
def agcMaxSlotSamples : Nat := 960

/-- `nsamp`: the samples of the sub-buffers up to the first empty one; none if one of them is not
of lane 0, or not of an admissible size. -/
def agcSamples : List SubBuffer → Option Nat
  | [] => some 0
  | sub :: rest =>
      if sub.size = 0 then some 0
      else if sub.id ≠ 0 ∨ sub.size > 256 ∨ sub.size % 64 ≠ 0 then none
      else (agcSamples rest).map (sub.size + ·)

/-- `if(v < 0) { v = -v; }`. -/
def magnitude (v : Int) : Int :=
  if v < 0 then -v else v

/-- `if(v > peak) { peak = v; }`. -/
def raise (peak v : Int) : Int :=
  if v > peak then v else peak

/-- The loop over the values of so many pairs. -/
def peakLoop (vi vq : Nat → Int) (peak : Int) : Nat → Int
  | 0 => peak
  | k + 1 => raise (raise (peakLoop vi vq peak k) (magnitude (vi k))) (magnitude (vq k))

/-- `(s16)(... << 4) >> 4` of twelve bits. -/
def signExtend12 (bits : BitVec 32) : Int :=
  (((bits &&& 0xfff) <<< 4).setWidth 16).sshiftRight 4 |>.toInt

/-- `agc_slot_stats`: the new `st->peak`, or none where it returns 0. `agc_poll` calls it while the
local format is packed and the stream the native one. -/
def agcSlotStats (fmt : LocalRxFmt) (peak : Int) (slot : RawSlot) : Option Int :=
  match agcSamples slot.subs with
  | none => none
  | some nsamp =>
      if nsamp = 0 ∨ nsamp > agcMaxSlotSamples then none
      else
        match fmt with
        | .cs16 =>
            some (peakLoop (fun k => ((ringWord slot.payload (2 * k)).sshiftRight 4).toInt)
              (fun k => ((ringWord slot.payload (2 * k + 1)).sshiftRight 4).toInt) peak nsamp)
        | .packed12 =>
            some (peakLoop (fun k => signExtend12 (packedWord slot.payload (3 * k) >>> 12))
              (fun k => signExtend12 (packedWord slot.payload (3 * k))) peak (nsamp / 2))

/-! ## Peaks -/

/-- The level before the slot, and those of the values of so many pairs. -/
def levels (peak : Int) (first second : Nat → Int) (count : Nat) : Set Int :=
  {level | level = peak ∨ ∃ k < count, level = |first k| ∨ level = |second k|}

/-- The two values of a sample of packed bytes. -/
def values (bytes : Mem 8) : (Nat → Int) × (Nat → Int) :=
  (fun sample => (firstValue bytes sample).toInt, fun sample => (secondValue bytes sample).toInt)

/-- The samples of a slot: as many as its sub-buffers say and a slot holds. -/
def slotSamples (slot : RawSlot) : Nat :=
  min ((agcSamples slot.subs).getD 0) 768

/-- The levels of the samples of a slot, in the values the remap gives them. -/
def sampleLevels (peak : Int) (slot : RawSlot) (out : Mem 8) : Set Int :=
  levels peak (values out).1 (values out).2 (slotSamples slot)

/-- A value of a sample in the words of the slot. -/
def ringValue (src : Mem 8) (parity sample : Nat) : BitVec 12 :=
  if sample < 576 then (ringWord src (2 * sample + parity)).extractLsb' 4 12
  else spareValue src (sample - 576) parity

/-- The levels of the samples of a slot, read off its words. -/
def ringLevels (peak : Int) (slot : RawSlot) : Set Int :=
  levels peak (fun sample => (ringValue slot.payload 0 sample).toInt)
    (fun sample => (ringValue slot.payload 1 sample).toInt) (slotSamples slot)

/-- The levels of the raw bytes in three-byte groups, one group for two samples. -/
def groupLevels (peak : Int) (slot : RawSlot) : Set Int :=
  levels peak (values slot.payload).1 (values slot.payload).2
    ((agcSamples slot.subs).getD 0 / 2)

/-- The absolute value, as the loop takes it. -/
theorem magnitude_eq_abs (v : Int) : magnitude v = |v| := by
  unfold magnitude
  split
  next h => exact (abs_of_neg h).symm
  next h => exact (abs_of_nonneg (by omega)).symm

/-- Raising a peak is taking the larger one. -/
theorem raise_eq_max (peak v : Int) : raise peak v = max peak v := by
  unfold raise
  omega

/-- The loop finds the greatest level. -/
theorem isGreatest_peakLoop (peak : Int) (first second : Nat → Int) (count : Nat) :
    IsGreatest (levels peak first second count) (peakLoop first second peak count) := by
  induction count with
  | zero =>
      refine ⟨.inl rfl, fun level hlevel => ?_⟩
      obtain rfl | ⟨k, hk, -⟩ := hlevel
      · exact le_rfl
      · exact absurd hk (Nat.not_lt_zero k)
  | succ count ih =>
      obtain ⟨hmem, hupper⟩ := ih
      have hstep : peakLoop first second peak (count + 1) =
          max (max (peakLoop first second peak count) |first count|) |second count| := by
        show raise (raise _ (magnitude _)) (magnitude _) = _
        rw [raise_eq_max, raise_eq_max, magnitude_eq_abs, magnitude_eq_abs]
      rw [hstep]
      constructor
      · -- the new peak is the old one, or the magnitude of one of the two samples
        obtain h | h := max_choice (max (peakLoop first second peak count) |first count|)
          |second count|
        · obtain h' | h' := max_choice (peakLoop first second peak count) |first count|
          · rw [h, h']
            obtain hpeak | ⟨k, hk, hlevel⟩ := hmem
            · exact .inl hpeak
            · exact .inr ⟨k, Nat.lt_succ_of_lt hk, hlevel⟩
          · rw [h, h']
            exact .inr ⟨count, Nat.lt_succ_self count, .inl rfl⟩
        · rw [h]
          exact .inr ⟨count, Nat.lt_succ_self count, .inr rfl⟩
      · intro level hlevel
        obtain hpeak | ⟨k, hk, hlevel⟩ := hlevel
        · exact le_max_of_le_left (le_max_of_le_left (hupper (.inl hpeak)))
        · obtain hk | rfl := Nat.lt_succ_iff_lt_or_eq.mp hk
          · exact le_max_of_le_left (le_max_of_le_left (hupper (.inr ⟨k, hk, hlevel⟩)))
          · obtain rfl | rfl := hlevel
            · exact le_max_of_le_left (le_max_right _ _)
            · exact le_max_right _ _

/-- The greatest element of one set is that of another exactly when each reaches up to the other. -/
theorem isGreatest_iff_of_isGreatest {A B : Set Int} {a b : Int} (ha : IsGreatest A a)
    (hb : IsGreatest B b) :
    IsGreatest B a ↔ (∀ x ∈ A, ∃ y ∈ B, x ≤ y) ∧ ∀ y ∈ B, ∃ x ∈ A, y ≤ x := by
  constructor
  · intro h
    exact ⟨fun x hx => ⟨a, h.1, ha.2 hx⟩, fun y hy => ⟨a, ha.1, h.2 hy⟩⟩
  · rintro ⟨hA, hB⟩
    obtain ⟨y, hy, hay⟩ := hA a ha.1
    obtain ⟨x, hx, hbx⟩ := hB b hb.1
    have hab : a = b := le_antisymm (hay.trans (hb.2 hy)) (hbx.trans (ha.2 hx))
    rwa [hab]

/-- The value that the loop takes of twelve bits. -/
theorem signExtend12_eq (src : Mem 8) (sample : Nat) :
    signExtend12 (packedWord src (3 * sample) >>> 12) = (secondValue src sample).toInt ∧
      signExtend12 (packedWord src (3 * sample)) = (firstValue src sample).toInt := by
  obtain ⟨hsecond, hfirst⟩ := packedWord_values src sample
  have hshift : ∀ value : BitVec 12, ((value ++ 0#4).sshiftRight 4).toInt = value.toInt := by
    intro value
    rw [BitVec.toInt_sshiftRight, toInt_append_zero, Int.shiftRight_eq_div_pow]
    omega
  constructor
  · show BitVec.toInt (BitVec.sshiftRight _ 4) = _
    rw [hsecond, hshift]
  · show BitVec.toInt (BitVec.sshiftRight _ 4) = _
    rw [hfirst, hshift]

/-- The levels do not depend on the order of the two values. -/
theorem levels_swap (peak : Int) (first second : Nat → Int) (count : Nat) :
    levels peak second first count = levels peak first second count := by
  ext level
  unfold levels
  simp only [Set.mem_ofPred_eq]
  exact or_congr_right (exists_congr fun k => and_congr_right fun _ => or_comm)

/-- The peak is the greatest level of the groups. -/
theorem isGreatest_groupLevels {slot : RawSlot} {peak' : Int}
    (h : agcSlotStats .packed12 peak slot = some peak') :
    IsGreatest (groupLevels peak slot) peak' := by
  unfold agcSlotStats at h
  split at h
  next => cases h
  next nsamp hnsamp =>
    split at h
    next => cases h
    next =>
      have hvi : (fun k => signExtend12 (packedWord slot.payload (3 * k) >>> 12)) =
          (values slot.payload).2 := funext fun k => (signExtend12_eq slot.payload k).1
      have hvq : (fun k => signExtend12 (packedWord slot.payload (3 * k))) =
          (values slot.payload).1 := funext fun k => (signExtend12_eq slot.payload k).2
      rw [hvi, hvq] at h
      have hgreatest := isGreatest_peakLoop peak (values slot.payload).2 (values slot.payload).1
        (nsamp / 2)
      rw [Option.some.inj h, levels_swap] at hgreatest
      rw [groupLevels, hnsamp, Option.getD_some]
      exact hgreatest

/-- The remap gives the samples the values of the words. -/
theorem values_remapped (src dest : Mem 8) (h : sample < 768) :
    firstValue (remapped src dest 6) sample = ringValue src 0 sample ∧
      secondValue (remapped src dest 6) sample = ringValue src 1 sample := by
  unfold ringValue
  by_cases hdirect : sample < 576
  · rw [if_pos hdirect, if_pos hdirect]
    exact values_direct src dest hdirect
  · obtain ⟨extra, rfl⟩ := Nat.exists_eq_add_of_le (Nat.le_of_not_lt hdirect)
    rw [if_neg hdirect, if_neg hdirect, Nat.add_sub_cancel_left]
    exact values_extra src dest (by omega)

/-- Behind the remap, the levels of the samples are those of the words. -/
theorem sampleLevels_eq {slot : RawSlot} {out dest : Mem 8}
    (h : remapPacked slot.payload dest = some out) :
    sampleLevels peak slot out = ringLevels peak slot := by
  rw [remapPacked_eq, Option.some.injEq] at h
  subst h
  have hlt : ∀ k < slotSamples slot, k < 768 := fun k hk =>
    Nat.lt_of_lt_of_le hk (Nat.min_le_right _ _)
  ext level
  unfold sampleLevels ringLevels levels values
  simp only [Set.mem_ofPred_eq]
  refine or_congr_right (exists_congr fun k => and_congr_right fun hk => ?_)
  obtain ⟨hfirst, hsecond⟩ := values_remapped slot.payload dest (hlt k hk)
  rw [hfirst, hsecond]

/-! ## When the peak is that of the slot -/

/-- The peak is the greatest of the level before and the levels of the samples, in the values of the
remap, exactly when the groups of the raw bytes reach up to no level above those of the words, and
up to each of these. -/
theorem agcPeak_iff {slot : RawSlot} {out dest : Mem 8} {peak' : Int}
    (hremap : remapPacked slot.payload dest = some out)
    (hstats : agcSlotStats .packed12 peak slot = some peak') :
    IsGreatest (sampleLevels peak slot out) peak' ↔
      (∀ level ∈ groupLevels peak slot, ∃ larger ∈ ringLevels peak slot, level ≤ larger) ∧
        ∀ level ∈ ringLevels peak slot, ∃ larger ∈ groupLevels peak slot, level ≤ larger := by
  rw [sampleLevels_eq hremap]
  exact isGreatest_iff_of_isGreatest (isGreatest_groupLevels hstats)
    (isGreatest_peakLoop peak _ _ (slotSamples slot))

/-- A slot of three sub-buffers of 256 samples. -/
def fullSlot (payload : Mem 8) : RawSlot where
  subs := List.replicate 3 ⟨0#32, 256, 0#32, 1⟩
  payload := payload

/-- Where all values are the same, that is the greatest level. -/
theorem isGreatest_steady {level : Int} (hlevel : 0 ≤ level) (hcount : 0 < count)
    (hfirst : ∀ k, first k = level) (hsecond : ∀ k, second k = level) :
    IsGreatest (levels 0 first second count) level := by
  constructor
  · exact .inr ⟨0, hcount, .inl (by rw [hfirst, abs_of_nonneg hlevel])⟩
  · rintro other (rfl | ⟨k, -, hother⟩)
    · exact hlevel
    · rw [hfirst, hsecond, abs_of_nonneg hlevel, or_self] at hother
      exact hother.le

/-- A carrier of 273 counts: every byte is the same. -/
def steadyPayload : Mem 8 := fun _ => 0x11

/-- Every value of it is 273, however the bytes are read. -/
theorem steadyPayload_values (sample : Nat) :
    (∀ parity, (ringValue steadyPayload parity sample).toInt = 273) ∧
      (firstValue steadyPayload sample).toInt = 273 ∧
      (secondValue steadyPayload sample).toInt = 273 := by
  refine ⟨fun parity => ?_, ?_, ?_⟩
  · unfold ringValue
    split
    · unfold ringWord steadyPayload
      decide
    · unfold spareValue spareBits ringWord steadyPayload
      decide
  · unfold firstValue packedSample steadyPayload
    decide
  · unfold secondValue packedSample steadyPayload
    decide

/-- A slot that is read right. -/
theorem agcPeak_steady :
    ∃ out, agcSlotStats .packed12 0 (fullSlot steadyPayload) = some 273 ∧
      remapPacked steadyPayload (fun _ => 0) = some out ∧
      IsGreatest (sampleLevels 0 (fullSlot steadyPayload) out) 273 := by
  have hgroups : IsGreatest (groupLevels 0 (fullSlot steadyPayload)) 273 :=
    isGreatest_steady (by decide) (by decide) (fun k => (steadyPayload_values k).2.1)
      fun k => (steadyPayload_values k).2.2
  have hring : IsGreatest (ringLevels 0 (fullSlot steadyPayload)) 273 :=
    isGreatest_steady (by decide) (by decide) (fun k => (steadyPayload_values k).1 0)
      fun k => (steadyPayload_values k).1 1
  have hstats : agcSlotStats .packed12 0 (fullSlot steadyPayload) = some _ := rfl
  rw [(isGreatest_groupLevels hstats).unique hgroups] at hstats
  have hremap := remapPacked_eq steadyPayload (fun _ => 0)
  refine ⟨_, hstats, hremap, (@agcPeak_iff 0 (fullSlot steadyPayload) _ _ _ hremap hstats).mpr ?_⟩
  exact ⟨fun level hlevel => ⟨273, hring.1, hgroups.2 hlevel⟩,
    fun level hlevel => ⟨273, hgroups.1, hring.2 hlevel⟩⟩

/-- Sample 300 at the rail and silence else. -/
def clippedPayload : Mem 8 := fun addr =>
  if addr = 1200 then 0xF0 else if addr = 1201 then 0x7F else 0

/-- Sample 0 at 128 counts and silence else. -/
def quietPayload : Mem 8 := fun addr =>
  if addr = 1 then 0x08 else 0

/-- In front of byte 1200 the clipped slot is silent. -/
theorem clippedPayload_group {k : Nat} (hk : k < 384) :
    firstValue clippedPayload k = 0 ∧ secondValue clippedPayload k = 0 := by
  have hbyte : ∀ byte < 3, clippedPayload (3 * k + byte) = 0 := by
    intro byte hlt
    unfold clippedPayload
    rw [if_neg (by omega), if_neg (by omega)]
  unfold firstValue secondValue packedSample
  rw [hbyte 2 (by omega), hbyte 1 (by omega), ← Nat.add_zero (3 * k), hbyte 0 (by omega)]
  exact ⟨rfl, rfl⟩

/-- All words of the quiet slot but the first are zero. -/
theorem quietPayload_word {k : Nat} (hk : 0 < k) : ringWord quietPayload k = 0 := by
  unfold ringWord quietPayload
  rw [if_neg (by omega), if_neg (by omega)]
  rfl

/-- No level of the quiet slot is above 128. -/
theorem quietPayload_level (parity sample : Nat) :
    |(ringValue quietPayload parity sample).toInt| ≤ 128 := by
  have hspare : ∀ k, spareBits quietPayload k = 0 := by
    intro k
    unfold spareBits
    obtain rfl | hk := Nat.eq_zero_or_pos k
    · rfl
    · rw [quietPayload_word hk]
      rfl
  unfold ringValue
  split
  next =>
    obtain hzero | hk := Nat.eq_zero_or_pos (2 * sample + parity)
    · rw [hzero]
      decide
    · rw [quietPayload_word hk]
      decide
  next =>
    unfold spareValue
    rw [hspare, hspare, hspare]
    decide

/-- A slot with a clipped sample that is taken for a silent one, and a slot without a level above
128 that is taken for a clipped one. -/
theorem agcPeak_misread :
    (∃ peak' out, agcSlotStats .packed12 0 (fullSlot clippedPayload) = some peak' ∧
      remapPacked clippedPayload (fun _ => 0) = some out ∧ peak' = 0 ∧
      2047 ∈ sampleLevels 0 (fullSlot clippedPayload) out) ∧
    ∃ peak' out, agcSlotStats .packed12 0 (fullSlot quietPayload) = some peak' ∧
      remapPacked quietPayload (fun _ => 0) = some out ∧ 2048 ≤ peak' ∧
      ∀ level ∈ sampleLevels 0 (fullSlot quietPayload) out, level ≤ 128 := by
  have hclipped : agcSlotStats .packed12 0 (fullSlot clippedPayload) = some _ := rfl
  have hquiet : agcSlotStats .packed12 0 (fullSlot quietPayload) = some _ := rfl
  have hremap := remapPacked_eq clippedPayload (fun _ => 0)
  have hremap' := remapPacked_eq quietPayload (fun _ => 0)
  refine ⟨⟨_, _, hclipped, hremap, ?_, ?_⟩, ⟨_, _, hquiet, hremap', ?_, ?_⟩⟩
  · -- the groups end in front of byte 1152
    obtain h | ⟨k, hk, hlevel⟩ := (isGreatest_groupLevels hclipped).1
    · exact h
    · obtain ⟨hfirst, hsecond⟩ := clippedPayload_group (show k < 384 from hk)
      have hvalues : (values (fullSlot clippedPayload).payload).1 k = 0 ∧
          (values (fullSlot clippedPayload).payload).2 k = 0 :=
        ⟨congrArg BitVec.toInt hfirst, congrArg BitVec.toInt hsecond⟩
      rw [hvalues.1, hvalues.2] at hlevel
      simpa using hlevel
  · rw [@sampleLevels_eq 0 (fullSlot clippedPayload) _ _ hremap]
    exact .inr ⟨300, by decide, .inl (by decide)⟩
  · exact (isGreatest_groupLevels hquiet).2 (.inr ⟨0, by decide, .inl (by decide)⟩)
  · rw [@sampleLevels_eq 0 (fullSlot quietPayload) _ _ hremap']
    rintro level (rfl | ⟨k, -, hlevel⟩)
    · decide
    · obtain rfl | rfl := hlevel
      · exact quietPayload_level 0 k
      · exact quietPayload_level 1 k

end RfnmDriver.Rx.AgcPeak
