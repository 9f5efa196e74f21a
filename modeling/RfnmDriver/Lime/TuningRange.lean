import RfnmDriver.Daughterboard.Chlist
import RfnmDriver.Lime.FastTune

/-!
# The tuning range of the Lime driver

`rfnm_lime_probe` registers its channels for 10 MHz to 3.5 GHz, and the channel lists are checked
against that. The oscillators with their dividers cover it from 29.6875 MHz only, the lowest
frequency that the largest divider brings into the band of the low oscillator:
`registered_range_usable_iff`. A tune below has no setting to program.
-/

namespace RfnmDriver.Lime

variable {loHz : Nat} {vco : Vco}

/-- `freq_min` of the channels. -/
def limeFreqMin : Nat := 10 * 1000000

/-- `freq_max` of the channels. -/
def limeFreqMax : Nat := 3500 * 1000000

/-- The lowest LO frequency with a VCO setting. -/
def usableMin : Nat := 29687500

/-- `rfnm_lime_sx_candidates` marks an oscillator as usable. -/
def Usable (loHz : Nat) : Prop := ∃ vco ∈ Vco.preference, (sxCandidates loHz vco).isSome

instance (loHz : Nat) : Decidable (Usable loHz) :=
  inferInstanceAs (Decidable (∃ vco ∈ Vco.preference, _))

/-- Some divider brings the frequency into some band. -/
theorem usable_iff :
    Usable loHz ↔ ∃ vco : Vco, ∃ divLoch < 7, vco.InBand (sxVcoHz loHz divLoch) := by
  constructor
  · rintro ⟨vco, -, hsome⟩
    obtain ⟨cand, hcand⟩ := Option.isSome_iff_exists.mp hsome
    obtain ⟨hdiv, hproduct, hband, -⟩ := (scanDivs_eq_some_iff rfl).mp hcand
    exact ⟨vco, cand.divLoch, hdiv, hproduct ▸ hband⟩
  · rintro ⟨vco, divLoch, hdiv, hband⟩
    have hmem : vco ∈ Vco.preference := by cases vco <;> decide
    refine ⟨vco, hmem, Option.isSome_iff_ne_none.mpr fun hnone => ?_⟩
    -- the highest divider in band is a candidate
    let inBand := fun d => vco.InBand (sxVcoHz loHz d)
    have hhighest : inBand (Nat.findGreatest inBand 6) :=
      Nat.findGreatest_spec (P := inBand) (Nat.le_of_lt_succ hdiv) hband
    have hle : Nat.findGreatest inBand 6 ≤ 6 := Nat.findGreatest_le 6
    have hsome : sxCandidates loHz vco =
        some ⟨sxVcoHz loHz (Nat.findGreatest inBand 6), Nat.findGreatest inBand 6⟩ :=
      (scanDivs_eq_some_iff rfl).mpr ⟨Nat.lt_succ_of_le hle, rfl, hhighest,
        fun d hd hin => Nat.le_findGreatest (Nat.le_of_lt_succ hd) hin⟩
    rw [hnone] at hsome
    cases hsome

/-- The bands overlap: together they are one interval. -/
theorem exists_inBand {hz : Nat} (hmin : 3800000000 ≤ hz) (hmax : hz ≤ 7714000000) :
    ∃ vco : Vco, vco.InBand hz := by
  obtain hlow | hlow := Nat.lt_or_ge hz 5000000000
  · exact ⟨.vcol, hmin, by simp only [Vco.maxHz]; omega⟩
  · obtain hmiddle | hmiddle := Nat.lt_or_ge hz 6500000000
    · exact ⟨.vcom, by simp only [Vco.minHz]; omega, by simp only [Vco.maxHz]; omega⟩
    · exact ⟨.vcoh, by simp only [Vco.minHz]; omega, hmax⟩

/-- The interval is more than an octave wide, so that doubling cannot jump over it. -/
theorem exists_divider (hmax : loHz ≤ limeFreqMax) {count : Nat}
    (hmin : 3800000000 ≤ 2 ^ (count + 1) * loHz) :
    ∃ divLoch ≤ count, 3800000000 ≤ 2 ^ (divLoch + 1) * loHz ∧
      2 ^ (divLoch + 1) * loHz ≤ 7714000000 := by
  induction count with
  | zero => exact ⟨0, le_rfl, hmin, by unfold limeFreqMax at hmax; omega⟩
  | succ count ih =>
      by_cases hover : 2 ^ (count + 1 + 1) * loHz ≤ 7714000000
      · exact ⟨count + 1, le_rfl, hmin, hover⟩
      · have hdouble : 2 ^ (count + 1 + 1) * loHz = 2 * (2 ^ (count + 1) * loHz) := by
          rw [Nat.pow_succ, Nat.mul_comm _ 2, Nat.mul_assoc]
        obtain ⟨divLoch, hle, hbounds⟩ := ih (by omega)
        exact ⟨divLoch, hle.trans (Nat.le_succ _), hbounds⟩

/-- Up to the end of the range a frequency has a VCO setting from `usableMin` on. -/
theorem usable_iff_usableMin (hmax : loHz ≤ limeFreqMax) : Usable loHz ↔ usableMin ≤ loHz := by
  have hfits : 2 ^ 7 * loHz < 2 ^ 64 := by
    unfold limeFreqMax at hmax
    omega
  rw [usable_iff]
  constructor
  · rintro ⟨vco, divLoch, hdiv, hband⟩
    have hlow := hband.bounds.1
    have hpow : 2 ^ (divLoch + 1) ≤ 2 ^ 7 := Nat.pow_le_pow_right Nat.two_pos hdiv
    have hproduct : loHz * 2 ^ (divLoch + 1) ≤ loHz * 2 ^ 7 := Nat.mul_le_mul_left loHz hpow
    rw [sxVcoHz_eq hfits hdiv] at hlow
    unfold usableMin
    omega
  · intro hmin
    unfold usableMin at hmin
    have hreached : 3800000000 ≤ 2 ^ (6 + 1) * loHz := by omega
    obtain ⟨divLoch, hle, hlow, hhigh⟩ := exists_divider hmax hreached
    have hdiv : divLoch < 7 := Nat.lt_succ_of_le hle
    obtain ⟨vco, hband⟩ := exists_inBand hlow hhigh
    refine ⟨vco, divLoch, hdiv, ?_⟩
    rwa [sxVcoHz_eq hfits hdiv, Nat.mul_comm]

/-- A frequency that the check of the channel list let through, in hertz. -/
theorem usable_of_checked {freq : Int}
    (h : ¬ (freq < (limeFreqMin : Int) ∨ freq > (limeFreqMax : Int))) :
    Usable freq.toNat ↔ (usableMin : Int) ≤ freq := by
  have hmax : freq.toNat ≤ limeFreqMax := by omega
  rw [usable_iff_usableMin hmax]
  unfold usableMin
  omega

/-- Of the registered range, and so of the requests that pass the check of the channel lists,
exactly the frequencies from `usableMin` on have a VCO setting. -/
theorem registered_range_usable_iff (loHz : Nat) (codes : Daughterboard.Codes)
    (rx : Daughterboard.RxCh) (tx : Daughterboard.TxCh) :
    (limeFreqMin ≤ loHz → loHz ≤ limeFreqMax → (Usable loHz ↔ usableMin ≤ loHz)) ∧
      (rx.freqMin = limeFreqMin → rx.freqMax = limeFreqMax →
        (Daughterboard.validateRxCh codes rx).2 ≠ .freq →
        (Usable rx.freq.toNat ↔ (usableMin : Int) ≤ rx.freq)) ∧
      (tx.freqMin = limeFreqMin → tx.freqMax = limeFreqMax →
        (Daughterboard.validateTxCh codes tx).2 ≠ .freq →
        (Usable tx.freq.toNat ↔ (usableMin : Int) ≤ tx.freq)) := by
  refine ⟨fun _ hmax => usable_iff_usableMin hmax, fun hmin hmax hpass => ?_,
    fun hmin hmax hpass => ?_⟩
  · have hchecked : ¬ (rx.freq < rx.freqMin ∨ rx.freq > rx.freqMax) := fun hout =>
      hpass (by rw [Daughterboard.validateRxCh, if_pos hout])
    rw [hmin, hmax] at hchecked
    exact usable_of_checked hchecked
  · have hchecked : ¬ (tx.freq < tx.freqMin ∨ tx.freq > tx.freqMax) := fun hout =>
      hpass (by rw [Daughterboard.validateTxCh, if_pos hout])
    rw [hmin, hmax] at hchecked
    exact usable_of_checked hchecked

/-- 15 MHz is in the registered range; no divider brings it into a band. -/
theorem fifteen_mhz_unusable :
    ¬ ∀ loHz, limeFreqMin ≤ loHz → loHz ≤ limeFreqMax → Usable loHz := by
  intro hreachable
  have husable := hreachable 15000000 (by decide) (by decide)
  revert husable
  decide +kernel

/-- A tune to a frequency without a VCO setting has no candidate to try: the full search decides,
and with it the channel is refused. -/
theorem tune_refused_of_not_usable (tuner : SxTuner) (chip : SxChip) (isTx : Bool)
    (h : ¬ Usable loHz) (hsearch : (chip.fullSearch isTx loHz (tuner.regs isTx)).2 = false) :
    (tuner.tuneSx chip isTx loHz).2 = false ∧
      (tuner.tuneSx chip isTx loHz).1.cache.sxLastHz isTx = 0 := by
  have hpredicted : tuner.predicted isTx loHz = none := by
    refine List.findSome?_eq_none_iff.mpr fun vco hvco => ?_
    have hnone : sxCandidates loHz vco = none :=
      Option.not_isSome_iff_eq_none.mp fun hsome => h ⟨vco, hvco, hsome⟩
    rw [hnone]
    rfl
  unfold SxTuner.tuneSx
  rw [hpredicted]
  dsimp only
  rw [SxTuner.fullTune, hsearch]
  exact ⟨rfl, by cases isTx <;> rfl⟩

end RfnmDriver.Lime
