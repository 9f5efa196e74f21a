import Mathlib.Tactic.IntervalCases
import RfnmDriver.LaLib.StreamWord

/-!
# The DCS plan and its stream word

The converters run from one DCS clock. A plan for a user rate picks the DCS frequency, the
divide-by-2 in front of each converter, and the decimation and the interpolation that cover the rest,
both powers of two. `rfnm_la9310_stream` packs them into the stream word, with the deeper two bits
of each shift apart from the lower ones, and `rfnm_la9310_get_clock_state` reads them back for the
host. `plan_roundTrip` says that the host reads the plan's own rates, and that no rate the ladder can
serve is refused.
-/

namespace RfnmDriver.LaLib

/-- `RFNM_LA9310_DCS_MAX_HZ`. -/
def dcsMaxHz : Nat :=
  200000000

/-- `RFNM_LA9310_DCS_MIN_HZ`. -/
def dcsMinHz : Nat :=
  100000000

/-- The check of `rfnm_set_samp_rate_user` against `samp_rate_min` and `samp_rate_max`. -/
def RateAdmitted (userHz : Nat) : Prop :=
  195375 ≤ userHz ∧ userHz ≤ 160000000

instance (userHz : Nat) : Decidable (RateAdmitted userHz) :=
  inferInstanceAs (Decidable (_ ∧ _))

/-- `RFNM_VSPA_CAP_STREAMING_BASE`. -/
def capStreamingBase : BitVec 32 :=
  1#32 <<< 0

/-- `RFNM_VSPA_CAP_FDX_CONCURRENT`. -/
def capFdxConcurrent : BitVec 32 :=
  1#32 <<< 2

/-- `struct rfnm_la9310_dcs_plan`. -/
structure DcsPlan where
  dcsFreq : Nat
  rxDcs : BitVec 8
  rxDecimation : BitVec 8
  txDcs : BitVec 8
  txUpsampling : BitVec 8
  caps : BitVec 32
  deriving DecidableEq, Repr

/-! ## The planner -/

/-- `user_dcs_hz << shift` in 64 bits. -/
def shiftHz (userHz shift : Nat) : Nat :=
  (userHz <<< shift) % 2 ^ 64

/-- The frequency is in the window. -/
def InWindow (freq : Nat) : Prop :=
  freq ≤ dcsMaxHz ∧ dcsMinHz ≤ freq

instance (freq : Nat) : Decidable (InWindow freq) :=
  inferInstanceAs (Decidable (_ ∧ _))

/-- A candidate of a ladder: the frequency, the divide-by-2 and the stages behind it. -/
structure Rung where
  freq : Nat
  divider : Nat
  shift : Nat
  deriving DecidableEq, Repr

/-- `dcs_ceiling`: the first pass puts a lower ceiling on the deep rungs of the RX ladder. -/
def dcsCeiling (pass depth : Nat) : Nat :=
  if 6 ≤ depth ∧ pass = 0 then 100000000 else dcsMaxHz

/-- One decimation depth of the RX ladder: with the divide-by-2 first, then without it. -/
def rxRung (userHz pass depth : Nat) : Option Rung :=
  let divided := shiftHz userHz (depth + 1)
  let plain := shiftHz userHz depth
  if divided ≤ dcsCeiling pass depth ∧ dcsMinHz ≤ divided ∧ 3 ≤ depth then
    some ⟨divided, 1, depth⟩
  else if depth ≤ 3 ∧ plain ≤ dcsMaxHz ∧ dcsMinHz ≤ plain then some ⟨plain, 0, depth⟩
  else none

/-- The RX ladder: two passes, the deepest decimation first. -/
def rxLadder (userHz : Nat) : Option Rung :=
  [0, 1].findSome? fun pass => [8, 7, 6, 5, 4, 3, 2, 1, 0].findSome? (rxRung userHz pass)

/-- One interpolation depth of the TX ladder. -/
def txRung (userHz depth : Nat) : Option Rung :=
  if InWindow (shiftHz userHz (depth + 1)) then some ⟨shiftHz userHz (depth + 1), 1, depth⟩
  else none

/-- The TX ladder: the lowest interpolation first, and last the rate itself. -/
def txLadder (userHz : Nat) : Option Rung :=
  ([0, 1, 2, 3, 4, 5, 6, 7, 8].findSome? (txRung userHz)).or
    (if InWindow userHz then some ⟨userHz, 0, 0⟩ else none)

/-- Some RX lane is on. -/
def rxActive (rx : Fin 4 → Bool) : Bool :=
  (List.finRange 4).any rx

/-- Both directions on one DCS: the matched rung of an FDX kernel on a blessed clock, or the hardware
divide-by-2 each way. -/
def planConcurrent (fdxConcurrent : Bool) (userHz : Nat) : Option DcsPlan :=
  if fdxConcurrent = true ∧
      (userHz * 4 % 2 ^ 64 = 100000000 ∨ userHz * 4 % 2 ^ 64 = 122880000) then
    some ⟨userHz * 4 % 2 ^ 64, 1, 1, 1, 1, capStreamingBase ||| capFdxConcurrent⟩
  else if InWindow (userHz * 2 % 2 ^ 64) then
    some ⟨userHz * 2 % 2 ^ 64, 1, 0, 1, 0, capStreamingBase⟩
  else none

/-- `rfnm_la9310_plan`; `none` for `-EINVAL`. `fdxConcurrent` is what `rfnm_vspa_registry_has`
answers for `RFNM_VSPA_CAP_FDX_CONCURRENT`. -/
def plan (fdxConcurrent : Bool) (userHz : Nat) (tx : Bool) (rx : Fin 4 → Bool) : Option DcsPlan :=
  if tx = false then
    (rxLadder userHz).map fun rung =>
      ⟨rung.freq, BitVec.ofNat 8 rung.divider, BitVec.ofNat 8 rung.shift, 0, 0, capStreamingBase⟩
  else if rxActive rx then planConcurrent fdxConcurrent userHz
  else
    (txLadder userHz).map fun rung =>
      ⟨rung.freq, 0, 0, BitVec.ofNat 8 rung.divider, BitVec.ofNat 8 rung.shift, capStreamingBase⟩

/-! ## The stream word -/

/-- A flag as a word. -/
def flagWord (flag : Bool) : Word :=
  (BitVec.ofBool flag).setWidth 32

/-- The word `rfnm_la9310_stream` builds from its arguments and the plan. -/
def planWord (tx : Bool) (rx : Fin 4 → Bool) (plan : DcsPlan) : Word :=
  (List.finRange 4).foldl (fun word lane => word ||| flagWord (rx lane) <<< (lane.val + 1))
      (flagWord tx) |||
    (plan.rxDecimation.setWidth 32 &&& 0x3#32) <<< 5 |||
    (plan.txUpsampling.setWidth 32 &&& 0x3#32) <<< 7 |||
    (plan.rxDcs.setWidth 32 &&& 0x1#32) <<< 9 ||| (plan.txDcs.setWidth 32 &&& 0x1#32) <<< 10 |||
    (plan.rxDecimation.setWidth 32 >>> 2 &&& 0x3#32) <<< 11 |||
    (plan.txUpsampling.setWidth 32 >>> 2 &&& 0x3#32) <<< 13

/-- What `rfnm_la9310_get_clock_state` stores. -/
structure ClockState where
  rxDcsDiv : BitVec 8
  txDcsDiv : BitVec 8
  rxDecimLog2 : BitVec 8
  txInterpLog2 : BitVec 8
  deriving DecidableEq, Repr

/-- `rfnm_la9310_get_clock_state`, of the word in the session. -/
def getClockState (word : Word) : ClockState where
  rxDcsDiv := (word >>> 9 &&& 0x1#32).setWidth 8
  txDcsDiv := (word >>> 10 &&& 0x1#32).setWidth 8
  rxDecimLog2 := (word >>> 5 &&& 0x3#32 ||| (word >>> 11 &&& 0x3#32) <<< 2).setWidth 8
  txInterpLog2 := (word >>> 7 &&& 0x3#32 ||| (word >>> 13 &&& 0x3#32) <<< 2).setWidth 8

/-! ## The property -/

/-- The rate behind a divide-by-2 and its stages is the DCS frequency divided by two for each, and
the other way round. -/
def Reconstructs (dcsFreq userHz : Nat) (divider shift : BitVec 8) : Prop :=
  dcsFreq >>> (divider.toNat + shift.toNat) = userHz ∧
    userHz <<< (divider.toNat + shift.toNat) = dcsFreq

/-- The plan is in the window, and whoever decodes its stream word, windowed or not, finds the
plan's own fields, and through them the DCS frequency and the rate asked for in each direction that
is on. -/
structure DcsPlan.Faithful (plan : DcsPlan) (userHz : Nat) (tx : Bool) (rx : Fin 4 → Bool) :
    Prop where
  inWindow : InWindow plan.dcsFreq
  decodes : ∀ armed, getClockState (injectWindowed armed (planWord tx rx plan)) =
    ⟨plan.rxDcs, plan.txDcs, plan.rxDecimation, plan.txUpsampling⟩
  rxRate : ∀ armed, (tx = false ∨ rxActive rx = true) →
    Reconstructs plan.dcsFreq userHz
      (getClockState (injectWindowed armed (planWord tx rx plan))).rxDcsDiv
      (getClockState (injectWindowed armed (planWord tx rx plan))).rxDecimLog2
  txRate : ∀ armed, tx = true →
    Reconstructs plan.dcsFreq userHz
      (getClockState (injectWindowed armed (planWord tx rx plan))).txDcsDiv
      (getClockState (injectWindowed armed (planWord tx rx plan))).txInterpLog2

/-- Some divide-by-2 and shift of the ladder meet the window. -/
def LadderMeets (userHz : Nat) : Prop :=
  ∃ divider ≤ 1, ∃ shift ≤ 8, InWindow (userHz <<< (divider + shift))

/-! ## The decoder -/

/-- A field of a word does not show bits that are set outside it. -/
theorem field_or {word outside mask : Word} {shift : Nat} (h : outside >>> shift &&& mask = 0) :
    (word ||| outside) >>> shift &&& mask = word >>> shift &&& mask := by
  rw [BitVec.ushiftRight_or_distrib, BitVec.and_or_distrib_right, h]
  exact BitVec.or_zero

/-- The bits above the plan's fields do not show. -/
theorem getClockState_injectWindowed (armed : Bool) (word : Word) :
    getClockState (injectWindowed armed word) = getClockState word := by
  unfold injectWindowed
  split
  · have hrxDcs : 0x10000#32 >>> 9 &&& 0x1#32 = 0 := rfl
    have htxDcs : 0x10000#32 >>> 10 &&& 0x1#32 = 0 := rfl
    have hrxLow : 0x10000#32 >>> 5 &&& 0x3#32 = 0 := rfl
    have hrxHigh : 0x10000#32 >>> 11 &&& 0x3#32 = 0 := rfl
    have htxLow : 0x10000#32 >>> 7 &&& 0x3#32 = 0 := rfl
    have htxHigh : 0x10000#32 >>> 13 &&& 0x3#32 = 0 := rfl
    unfold getClockState
    rw [field_or hrxDcs, field_or htxDcs, field_or hrxLow, field_or hrxHigh, field_or htxLow,
      field_or htxHigh]
  · rfl

/-- The word, bit by bit. -/
theorem planWord_eq (tx : Bool) (rx : Fin 4 → Bool) (plan : DcsPlan) :
    planWord tx rx plan =
      flagWord tx ||| flagWord (rx 0) <<< 1 ||| flagWord (rx 1) <<< 2 ||| flagWord (rx 2) <<< 3 |||
        flagWord (rx 3) <<< 4 ||| (plan.rxDecimation.setWidth 32 &&& 0x3#32) <<< 5 |||
        (plan.txUpsampling.setWidth 32 &&& 0x3#32) <<< 7 |||
        (plan.rxDcs.setWidth 32 &&& 0x1#32) <<< 9 ||| (plan.txDcs.setWidth 32 &&& 0x1#32) <<< 10 |||
        (plan.rxDecimation.setWidth 32 >>> 2 &&& 0x3#32) <<< 11 |||
        (plan.txUpsampling.setWidth 32 >>> 2 &&& 0x3#32) <<< 13 := rfl

/-- The decoder reads one bit of each divider and four of each shift. -/
theorem getClockState_planWord (tx : Bool) (rx : Fin 4 → Bool) (plan : DcsPlan) :
    getClockState (planWord tx rx plan) =
      ⟨plan.rxDcs &&& 0x1#8, plan.txDcs &&& 0x1#8, plan.rxDecimation &&& 0xf#8,
        plan.txUpsampling &&& 0xf#8⟩ := by
  unfold getClockState
  congr 1 <;>
  · apply BitVec.eq_of_getLsbD_eq
    intro bit hbit
    interval_cases bit <;> simp [planWord_eq, flagWord]

/-! ## The ladders -/

variable {fdxConcurrent tx : Bool} {userHz : Nat} {rx : Fin 4 → Bool} {rung : Rung} {chosen : DcsPlan}

/-- The candidate is in the window, within the fields of the word, and the rate is behind it. -/
structure Rung.Serves (rung : Rung) (userHz : Nat) : Prop where
  inWindow : InWindow rung.freq
  divider : rung.divider ≤ 1
  shift : rung.shift ≤ 8
  freq : userHz <<< (rung.divider + rung.shift) = rung.freq

/-- No rung of an admitted rate overflows. -/
theorem shiftHz_eq (hrate : RateAdmitted userHz) {shift : Nat} (hshift : shift ≤ 9) :
    shiftHz userHz shift = userHz <<< shift := by
  have hrate := hrate.2
  unfold shiftHz
  refine Nat.mod_eq_of_lt ?_
  rw [Nat.shiftLeft_eq]
  calc userHz * 2 ^ shift ≤ 160000000 * 2 ^ 9 :=
        Nat.mul_le_mul hrate (Nat.pow_le_pow_right Nat.two_pos hshift)
    _ < 2 ^ 64 := by norm_num

/-- The lower ceiling of the deep rungs is within the window. -/
theorem dcsCeiling_le (pass depth : Nat) : dcsCeiling pass depth ≤ dcsMaxHz := by
  unfold dcsCeiling
  split
  · decide
  · exact le_rfl

theorem serves_of_rxRung (hrate : RateAdmitted userHz) {pass depth : Nat} (hdepth : depth ≤ 8)
    (hrung : rxRung userHz pass depth = some rung) : rung.Serves userHz := by
  unfold rxRung at hrung
  simp only at hrung
  split at hrung
  · next hdivided =>
      obtain rfl := Option.some.inj hrung
      obtain ⟨hmax, hmin, -⟩ := hdivided
      refine ⟨⟨hmax.trans (dcsCeiling_le pass depth), hmin⟩, le_rfl, hdepth, ?_⟩
      rw [shiftHz_eq hrate (by omega), Nat.add_comm]
  · split at hrung
    · next hplain =>
        obtain rfl := Option.some.inj hrung
        obtain ⟨hshallow, hmax, hmin⟩ := hplain
        refine ⟨⟨hmax, hmin⟩, Nat.zero_le 1, hdepth, ?_⟩
        rw [shiftHz_eq hrate (by omega), Nat.zero_add]
    · cases hrung

theorem serves_of_rxLadder (hrate : RateAdmitted userHz) (hrung : rxLadder userHz = some rung) :
    rung.Serves userHz := by
  obtain ⟨pass, -, hpass⟩ := List.exists_of_findSome?_eq_some hrung
  obtain ⟨depth, hdepth, hfound⟩ := List.exists_of_findSome?_eq_some hpass
  refine serves_of_rxRung hrate ?_ hfound
  simp only [List.mem_cons, List.not_mem_nil, or_false] at hdepth
  omega

theorem serves_of_txLadder (hrate : RateAdmitted userHz) (hrung : txLadder userHz = some rung) :
    rung.Serves userHz := by
  rcases Option.or_eq_some_iff.mp hrung with hladder | ⟨-, hplain⟩
  · obtain ⟨depth, hdepth, hfound⟩ := List.exists_of_findSome?_eq_some hladder
    have hle : depth ≤ 8 := by
      simp only [List.mem_cons, List.not_mem_nil, or_false] at hdepth
      omega
    obtain ⟨hwindow, hsome⟩ := Option.ite_none_right_eq_some.mp hfound
    obtain rfl := Option.some.inj hsome
    refine ⟨hwindow, le_rfl, hle, ?_⟩
    rw [shiftHz_eq hrate (by omega), Nat.add_comm]
  · obtain ⟨hwindow, hsome⟩ := Option.ite_none_right_eq_some.mp hplain
    obtain rfl := Option.some.inj hsome
    exact ⟨hwindow, Nat.zero_le 1, Nat.zero_le 8, rfl⟩

/-- The second pass of the RX ladder takes every total shift the window admits: up to 3 without the
divide-by-2, and deeper ones with it. -/
theorem isSome_rxLadder (hrate : RateAdmitted userHz) (hmeets : LadderMeets userHz) :
    (rxLadder userHz).isSome := by
  obtain ⟨divider, hdivider, shift, hshift, hmax, hmin⟩ := hmeets
  refine List.findSome?_isSome_iff.mpr ⟨1, by simp, List.findSome?_isSome_iff.mpr ?_⟩
  -- a rung is a total shift of `depth` without the divide-by-2, and of `depth + 1` with it
  by_cases hshallow : divider + shift ≤ 3
  · refine ⟨divider + shift, ?_, ?_⟩
    · simp only [List.mem_cons, List.not_mem_nil, or_false]
      omega
    · unfold rxRung
      simp only [shiftHz_eq hrate (by omega : divider + shift ≤ 9)]
      split
      · rfl
      · rw [if_pos ⟨hshallow, hmax, hmin⟩]
        rfl
  · refine ⟨divider + shift - 1, ?_, ?_⟩
    · simp only [List.mem_cons, List.not_mem_nil, or_false]
      omega
    · unfold rxRung
      have hdeep : divider + shift - 1 + 1 = divider + shift := by omega
      have hceiling : dcsCeiling 1 (divider + shift - 1) = dcsMaxHz := if_neg (by simp)
      simp only [hdeep, shiftHz_eq hrate (by omega : divider + shift ≤ 9), hceiling]
      rw [if_pos ⟨hmax, hmin, by omega⟩]
      rfl

theorem isSome_txLadder (hrate : RateAdmitted userHz) (hmeets : LadderMeets userHz) :
    (txLadder userHz).isSome := by
  obtain ⟨divider, hdivider, shift, hshift, hwindow⟩ := hmeets
  unfold txLadder
  rw [Option.isSome_or, Bool.or_eq_true]
  -- the TX ladder divides by 2 on every rung, and the plain rate comes after it
  by_cases hplain : divider + shift = 0
  · right
    rw [hplain, Nat.shiftLeft_zero] at hwindow
    rw [if_pos hwindow]
    rfl
  · left
    refine List.findSome?_isSome_iff.mpr ⟨divider + shift - 1, ?_, ?_⟩
    · simp only [List.mem_cons, List.not_mem_nil, or_false]
      omega
    · have hdeep : divider + shift - 1 + 1 = divider + shift := by omega
      unfold txRung
      rw [hdeep, shiftHz_eq hrate (by omega), if_pos hwindow]
      rfl

/-! ## The plan -/

/-- A shift that brings the rate to the frequency brings the frequency back to the rate. -/
theorem reconstructs_of_shift {freq : Nat} {divider shift : BitVec 8}
    (h : userHz <<< (divider.toNat + shift.toNat) = freq) :
    Reconstructs freq userHz divider shift := by
  refine ⟨?_, h⟩
  rw [← h, Nat.shiftLeft_shiftRight]

theorem Rung.Serves.reconstructs (h : rung.Serves userHz) :
    Reconstructs rung.freq userHz (BitVec.ofNat 8 rung.divider) (BitVec.ofNat 8 rung.shift) := by
  have hdivider := h.divider
  have hshift := h.shift
  refine reconstructs_of_shift ?_
  rw [BitVec.toNat_ofNat, BitVec.toNat_ofNat, Nat.mod_eq_of_lt (by omega : rung.divider < 2 ^ 8),
    Nat.mod_eq_of_lt (by omega : rung.shift < 2 ^ 8)]
  exact h.freq

/-- The fields of a rung fit the word. -/
theorem Rung.Serves.fields (h : rung.Serves userHz) :
    BitVec.ofNat 8 rung.divider &&& 0x1#8 = BitVec.ofNat 8 rung.divider ∧
      BitVec.ofNat 8 rung.shift &&& 0xf#8 = BitVec.ofNat 8 rung.shift := by
  have hdivider := h.divider
  have hshift := h.shift
  constructor
  · generalize rung.divider = divider at hdivider
    interval_cases divider <;> decide
  · generalize rung.shift = shift at hshift
    interval_cases shift <;> decide

/-- Fixed fields fit it too. -/
theorem zero_fits : 0#8 &&& 0x1#8 = 0#8 ∧ 0#8 &&& 0xf#8 = 0#8 := by
  decide

theorem one_fits : 1#8 &&& 0x1#8 = 1#8 ∧ 1#8 &&& 0xf#8 = 1#8 := by
  decide

/-- A plan is faithful when its fields fit the word and the rates are behind them. -/
theorem DcsPlan.Faithful.of_fields (hwindow : InWindow chosen.dcsFreq)
    (hrxDcs : chosen.rxDcs &&& 0x1#8 = chosen.rxDcs) (htxDcs : chosen.txDcs &&& 0x1#8 = chosen.txDcs)
    (hrxDecimation : chosen.rxDecimation &&& 0xf#8 = chosen.rxDecimation)
    (htxUpsampling : chosen.txUpsampling &&& 0xf#8 = chosen.txUpsampling)
    (hrx : tx = false ∨ rxActive rx = true →
      Reconstructs chosen.dcsFreq userHz chosen.rxDcs chosen.rxDecimation)
    (htx : tx = true → Reconstructs chosen.dcsFreq userHz chosen.txDcs chosen.txUpsampling) :
    chosen.Faithful userHz tx rx := by
  have hdecodes : ∀ armed, getClockState (injectWindowed armed (planWord tx rx chosen)) =
      ⟨chosen.rxDcs, chosen.txDcs, chosen.rxDecimation, chosen.txUpsampling⟩ := by
    intro armed
    rw [getClockState_injectWindowed, getClockState_planWord, hrxDcs, htxDcs, hrxDecimation,
      htxUpsampling]
  refine ⟨hwindow, hdecodes, fun armed hon => ?_, fun armed hon => ?_⟩
  · rw [hdecodes]
    exact hrx hon
  · rw [hdecodes]
    exact htx hon

/-- Twice or four times the rate is a shift by one or two. -/
theorem reconstructs_concurrent {factor : Nat} (hrate : RateAdmitted userHz)
    (hfactor : factor = 1 ∨ factor = 2) :
    Reconstructs (userHz * 2 ^ factor % 2 ^ 64) userHz 1 (BitVec.ofNat 8 (factor - 1)) := by
  have hrate := hrate.2
  refine reconstructs_of_shift ?_
  rw [Nat.shiftLeft_eq, Nat.mod_eq_of_lt]
  · rcases hfactor with rfl | rfl <;> rfl
  · rcases hfactor with rfl | rfl <;> omega

theorem faithful_of_planConcurrent (hrate : RateAdmitted userHz)
    (hplan : planConcurrent fdxConcurrent userHz = some chosen) : chosen.Faithful userHz tx rx := by
  unfold planConcurrent at hplan
  split at hplan
  · next hfdx =>
      obtain rfl := Option.some.inj hplan
      have hreconstructs := reconstructs_concurrent hrate (Or.inr rfl)
      refine .of_fields ?_ one_fits.1 one_fits.1 one_fits.2 one_fits.2
        (fun _ => hreconstructs) fun _ => hreconstructs
      -- the window is not tested on this path; the two blessed clocks lie in it
      rcases hfdx.2 with hblessed | hblessed
      · rw [hblessed]
        decide
      · rw [hblessed]
        decide
  · obtain ⟨hwindow, hsome⟩ := Option.ite_none_right_eq_some.mp hplan
    obtain rfl := Option.some.inj hsome
    have hreconstructs := reconstructs_concurrent hrate (Or.inl rfl)
    exact .of_fields hwindow one_fits.1 one_fits.1 zero_fits.2 zero_fits.2
      (fun _ => hreconstructs) fun _ => hreconstructs

/-- Every plan is faithful. -/
theorem faithful_of_plan (hrate : RateAdmitted userHz)
    (hplan : plan fdxConcurrent userHz tx rx = some chosen) : chosen.Faithful userHz tx rx := by
  unfold plan at hplan
  split at hplan
  · next hrxOnly =>
      obtain ⟨rung, hrung, rfl⟩ := Option.map_eq_some_iff.mp hplan
      have hserves := serves_of_rxLadder hrate hrung
      refine .of_fields hserves.inWindow hserves.fields.1 zero_fits.1 hserves.fields.2
        zero_fits.2 (fun _ => hserves.reconstructs) fun hon => ?_
      exact absurd (hrxOnly.symm.trans hon) Bool.false_ne_true
  · next htx =>
      split at hplan
      · exact faithful_of_planConcurrent hrate hplan
      · next hidle =>
          obtain ⟨rung, hrung, rfl⟩ := Option.map_eq_some_iff.mp hplan
          have hserves := serves_of_txLadder hrate hrung
          refine .of_fields hserves.inWindow zero_fits.1 hserves.fields.1 zero_fits.2
            hserves.fields.2 (fun hon => ?_) fun _ => hserves.reconstructs
          rcases hon with hoff | hactive
          · exact absurd hoff htx
          · exact absurd hactive hidle

/-- For every admitted rate and every duplex mode, with or without an FDX kernel: a plan that is
accepted is faithful, and a request in one direction is accepted whenever the ladder has a divider
and a shift that meet the window. -/
theorem plan_roundTrip (fdxConcurrent : Bool) (userHz : Nat) (tx : Bool) (rx : Fin 4 → Bool)
    (hrate : RateAdmitted userHz) :
    (∀ accepted ∈ plan fdxConcurrent userHz tx rx, accepted.Faithful userHz tx rx) ∧
      (tx = false ∨ rxActive rx = false → LadderMeets userHz →
        (plan fdxConcurrent userHz tx rx).isSome) := by
  refine ⟨fun accepted haccepted => faithful_of_plan hrate haccepted, fun hone hmeets => ?_⟩
  unfold plan
  split
  · rw [Option.isSome_map]
    exact isSome_rxLadder hrate hmeets
  · next htx =>
      rw [if_neg (by simp [hone.resolve_left htx]), Option.isSome_map]
      exact isSome_txLadder hrate hmeets

/-- The lowest rate takes the deepest rung of the RX ladder, in the second pass. -/
theorem plan_roundTrip_lowest :
    RateAdmitted 195375 ∧
      (∀ accepted ∈ plan false 195375 false fun lane => lane = 0,
        accepted.Faithful 195375 false fun lane => lane = 0) ∧
      (false = false ∨ rxActive (fun lane => lane = 0) = false → LadderMeets 195375 →
        (plan false 195375 false fun lane => lane = 0).isSome) :=
  ⟨by decide, plan_roundTrip false 195375 false (fun lane => lane = 0) (by decide)⟩

end RfnmDriver.LaLib
