import RfnmDriver.Lime.Synthesizer

/-!
# What a fast tune programs

A candidate is the largest in-band VCO frequency of its oscillator, its words fit their fields and
decode to at most a step of the SDM below it, and a walk stays on the codes of the capacitor bank
and ends at the one the comparator accepted. `fast_tune_sound` gathers this for every tune, with
what the driver remembers after it.
-/

namespace RfnmDriver.Lime

variable {loHz divLoch bound refclk vcoHz : Nat} {vco : Vco} {cand : SxCand}

theorem Vco.InBand.bounds (h : vco.InBand vcoHz) :
    3800000000 ≤ vcoHz ∧ vcoHz ≤ 7714000000 := by
  obtain ⟨hmin, hmax⟩ := h
  cases vco <;> simp only [minHz, maxHz] at hmin hmax <;> omega

/-! ## Candidates -/

/-- The product is the frequency itself as long as 64 bits hold it. -/
theorem sxVcoHz_eq (hlo : 2 ^ 7 * loHz < 2 ^ 64) (hdiv : divLoch < 7) :
    sxVcoHz loHz divLoch = loHz * 2 ^ (divLoch + 1) := by
  have hpow : 2 ^ (divLoch + 1) ≤ 2 ^ 7 := Nat.pow_le_pow_right Nat.two_pos hdiv
  rw [sxVcoHz, Nat.mod_eq_of_lt ((Nat.mul_le_mul_right loHz hpow).trans_lt hlo), Nat.mul_comm]

/-- Above an in-band product the higher dividers give its doubles, even where 64 bits wrapped. -/
theorem sxVcoHz_double {low : Nat} (hle : low ≤ divLoch) (hdiv : divLoch < 7)
    (hband : vco.InBand (sxVcoHz loHz low)) :
    sxVcoHz loHz divLoch = 2 ^ (divLoch - low) * sxVcoHz loHz low := by
  have hpow : 2 ^ (divLoch - low) ≤ 2 ^ 6 := Nat.pow_le_pow_right Nat.two_pos (by omega)
  have hsmall : 2 ^ (divLoch - low) * sxVcoHz loHz low < 2 ^ 64 := calc
    _ ≤ 2 ^ 6 * 7714000000 := Nat.mul_le_mul hpow hband.bounds.2
    _ < 2 ^ 64 := by decide
  have hsplit : 2 ^ (divLoch + 1) * loHz = 2 ^ (divLoch - low) * (2 ^ (low + 1) * loHz) := by
    rw [← Nat.mul_assoc, ← Nat.pow_add]
    congr 2
    omega
  calc sxVcoHz loHz divLoch
      = 2 ^ (divLoch - low) * (2 ^ (low + 1) * loHz) % 2 ^ 64 := by rw [sxVcoHz, hsplit]
    _ = 2 ^ (divLoch - low) * sxVcoHz loHz low % 2 ^ 64 := by
        rw [sxVcoHz, Nat.mul_mod_mod]
    _ = 2 ^ (divLoch - low) * sxVcoHz loHz low := Nat.mod_eq_of_lt hsmall

/-- A candidate that was found stays. -/
theorem scanDivs_of_some {found : Vco → Option SxCand} (h : found vco = some cand) :
    scanDivs loHz bound found vco = some cand := by
  induction bound generalizing found with
  | zero => exact h
  | succ divLoch ih =>
      apply ih
      rw [considerDiv, if_neg (by simp [h]), h]

/-- The scan finds the highest divider of those in band. -/
theorem scanDivs_eq_some_iff {found : Vco → Option SxCand} (h : found vco = none) :
    scanDivs loHz bound found vco = some cand ↔
      cand.divLoch < bound ∧ cand.vcoHz = sxVcoHz loHz cand.divLoch ∧
        vco.InBand cand.vcoHz ∧
        ∀ divLoch < bound, vco.InBand (sxVcoHz loHz divLoch) → divLoch ≤ cand.divLoch := by
  induction bound generalizing found with
  | zero => simp [scanDivs, h]
  | succ top ih =>
      by_cases hband : vco.InBand (sxVcoHz loHz top)
      · have hfound : considerDiv loHz top found vco = some ⟨sxVcoHz loHz top, top⟩ :=
          if_pos ⟨h, hband⟩
        rw [scanDivs, scanDivs_of_some hfound, Option.some_inj]
        constructor
        · rintro rfl
          exact ⟨Nat.lt_succ_self _, rfl, hband, fun divLoch hdiv _ => Nat.le_of_lt_succ hdiv⟩
        · rintro ⟨hdiv, hproduct, -, htop⟩
          have hle := htop top (Nat.lt_succ_self _) hband
          obtain rfl : cand.divLoch = top := by omega
          rw [← hproduct]
      · have hfound : considerDiv loHz top found vco = none := by
          rw [considerDiv, if_neg fun hboth => hband hboth.2, h]
        rw [scanDivs, ih hfound]
        constructor
        · rintro ⟨hdiv, hproduct, hcand, htop⟩
          refine ⟨hdiv.trans (Nat.lt_succ_self _), hproduct, hcand, fun divLoch hlt hin => ?_⟩
          have hne : divLoch ≠ top := fun heq => hband (heq ▸ hin)
          exact htop divLoch (by omega) hin
        · rintro ⟨hdiv, hproduct, hcand, htop⟩
          have hne : cand.divLoch ≠ top := fun heq => hband (by rwa [← heq, ← hproduct])
          exact ⟨by omega, hproduct, hcand, fun divLoch hlt => htop divLoch (by omega)⟩

/-- What `rfnm_lime_sx_candidates` marks. -/
structure SxCand.Largest (cand : SxCand) (vco : Vco) (loHz : Nat) : Prop where
  divLoch : cand.divLoch < 7
  product : cand.vcoHz = 2 ^ (cand.divLoch + 1) * loHz % 2 ^ 64
  exact : 2 ^ 7 * loHz < 2 ^ 64 → cand.vcoHz = loHz * 2 ^ (cand.divLoch + 1)
  inBand : vco.InBand cand.vcoHz
  largest : ∀ divLoch < 7, vco.InBand (sxVcoHz loHz divLoch) → sxVcoHz loHz divLoch ≤ cand.vcoHz

theorem largest_of_candidate (h : sxCandidates loHz vco = some cand) : cand.Largest vco loHz := by
  obtain ⟨hdiv, hproduct, hband, htop⟩ := (scanDivs_eq_some_iff rfl).mp h
  refine ⟨hdiv, hproduct, fun hlo => hproduct.trans (sxVcoHz_eq hlo hdiv), hband,
    fun divLoch hlt hin => ?_⟩
  rw [hproduct, sxVcoHz_double (htop divLoch hlt hin) hdiv hin]
  exact Nat.le_mul_of_pos_left _ (Nat.two_pow_pos _)

/-! ## Words -/

theorem sxDivider_pos (hclock : 0 < refclk) : 0 < sxDivider refclk vcoHz :=
  Nat.mul_pos hclock (Nat.two_pow_pos _)

/-- A quotient with 20 fractional bits, and what it leaves out. -/
theorem scaled_quotient (divider : Nat) (hpos : 0 < divider) (value : Nat) :
    divider * (value / divider * 2 ^ 20 + value % divider * 2 ^ 20 / divider) ≤ value * 2 ^ 20 ∧
      value * 2 ^ 20 <
        divider * (value / divider * 2 ^ 20 + value % divider * 2 ^ 20 / divider) + divider := by
  have hvalue := Nat.div_add_mod value divider
  have hfrac := Nat.div_add_mod (value % divider * 2 ^ 20) divider
  have hrest := Nat.mod_lt (value % divider * 2 ^ 20) hpos
  have hscaled : divider * (value / divider * 2 ^ 20) + value % divider * 2 ^ 20 =
      value * 2 ^ 20 := by
    rw [← Nat.mul_assoc, ← Nat.add_mul, hvalue]
  rw [Nat.mul_add]
  omega

/-- What the words of a candidate come to. -/
structure SxCand.Words (cand : SxCand) (refclk : Nat) : Prop where
  integer : (sxInteger refclk cand.vcoHz).toNat < 2 ^ 10
  frac : (sxFrac refclk cand.vcoHz).toNat < 2 ^ 20
  below : sxDivider refclk cand.vcoHz * (((sxInteger refclk cand.vcoHz).toNat + 4) * 2 ^ 20 +
    (sxFrac refclk cand.vcoHz).toNat) ≤ cand.vcoHz * 2 ^ 20
  near : cand.vcoHz * 2 ^ 20 ≤ sxDivider refclk cand.vcoHz *
    (((sxInteger refclk cand.vcoHz).toNat + 4) * 2 ^ 20 + (sxFrac refclk cand.vcoHz).toNat) +
      sxDivider refclk cand.vcoHz

/-- At the clock of the driver the quotient of an in-band frequency is far from both ends. -/
theorem quotient_bounds (h : vco.InBand vcoHz) :
    53 ≤ vcoHz / sxDivider lmsRefFreq vcoHz ∧ vcoHz / sxDivider lmsRefFreq vcoHz ≤ 107 := by
  obtain ⟨hmin, hmax⟩ := h.bounds
  unfold sxDivider lmsRefFreq sxThrHz
  split <;> omega

theorem toNat_sxQuotient (h : vco.InBand vcoHz) :
    (sxQuotient lmsRefFreq vcoHz).toNat = vcoHz / sxDivider lmsRefFreq vcoHz := by
  have hbounds := quotient_bounds h
  rw [sxQuotient, BitVec.toNat_ofNat, Nat.mod_eq_of_lt (by omega)]

theorem toNat_sxInteger (h : vco.InBand vcoHz) :
    (sxInteger lmsRefFreq vcoHz).toNat = vcoHz / sxDivider lmsRefFreq vcoHz - 4 := by
  have hbounds := quotient_bounds h
  have hquotient := toNat_sxQuotient h
  rw [sxInteger, BitVec.toNat_sub_of_le]
  · rw [hquotient]
    rfl
  · rw [BitVec.le_def, hquotient]
    exact (by decide : 4 ≤ 53).trans hbounds.1

theorem toNat_sxFrac (h : vco.InBand vcoHz) :
    (sxFrac lmsRefFreq vcoHz).toNat =
      vcoHz % sxDivider lmsRefFreq vcoHz * 2 ^ 20 / sxDivider lmsRefFreq vcoHz := by
  have hpos : 0 < sxDivider lmsRefFreq vcoHz := sxDivider_pos (by decide)
  have hdivider : sxDivider lmsRefFreq vcoHz ≤ 102400000 := by
    unfold sxDivider lmsRefFreq
    split <;> decide
  have hmod := Nat.mod_lt vcoHz hpos
  have hrest : vcoHz - vcoHz / sxDivider lmsRefFreq vcoHz * sxDivider lmsRefFreq vcoHz =
      vcoHz % sxDivider lmsRefFreq vcoHz := by
    rw [Nat.mul_comm, ← Nat.mod_eq_sub_mul_div]
  have hfrac : vcoHz % sxDivider lmsRefFreq vcoHz * 2 ^ 20 / sxDivider lmsRefFreq vcoHz <
      2 ^ 20 := Nat.div_lt_of_lt_mul (Nat.mul_lt_mul_of_pos_right hmod (by decide))
  rw [sxFrac, toNat_sxQuotient h, hrest, Nat.mod_eq_of_lt (by omega), BitVec.toNat_ofNat,
    Nat.mod_eq_of_lt (hfrac.trans (by decide))]

theorem words_of_inBand (h : vco.InBand cand.vcoHz) : cand.Words lmsRefFreq := by
  have hpos : 0 < sxDivider lmsRefFreq cand.vcoHz := sxDivider_pos (by decide)
  have hbounds := quotient_bounds h
  have hscaled := scaled_quotient (sxDivider lmsRefFreq cand.vcoHz) hpos cand.vcoHz
  have hinteger := toNat_sxInteger h
  have hfrac := toNat_sxFrac h
  have hback : (sxInteger lmsRefFreq cand.vcoHz).toNat + 4 =
      cand.vcoHz / sxDivider lmsRefFreq cand.vcoHz := by omega
  refine ⟨by omega, ?_, ?_, ?_⟩
  · rw [hfrac]
    exact Nat.div_lt_of_lt_mul (Nat.mul_lt_mul_of_pos_right (Nat.mod_lt _ hpos) (by decide))
  · rw [hback, hfrac]
    exact hscaled.1
  · rw [hback, hfrac]
    exact hscaled.2.le

/-! ## Registers -/

namespace SxRegs

variable {regs : SxRegs} {csw : Int}

@[simp] theorem program_enDiv2 :
    (regs.program refclk cand vco csw).enDiv2 = decide (sxThrHz < cand.vcoHz) := by
  by_cases h : sxThrHz < cand.vcoHz <;> simp [program, enDiv2, h]

theorem program_intSdm (hint : (sxInteger refclk cand.vcoHz).toNat < 2 ^ 10)
    (hfrac : (sxFrac refclk cand.vcoHz).toNat < 2 ^ 20) :
    (regs.program refclk cand vco csw).intSdm.toNat = (sxInteger refclk cand.vcoHz).toNat := by
  have hlow : ((sxFrac refclk cand.vcoHz >>> 16).setWidth 16).toNat < 2 ^ 4 := by
    rw [BitVec.toNat_setWidth, BitVec.toNat_ushiftRight, Nat.shiftRight_eq_div_pow]
    omega
  have hread : (regs.program refclk cand vco csw).intSdm =
      (sxInteger refclk cand.vcoHz).setWidth 10 := by
    rw [intSdm, program, BitField.read_write_of_le (by decide) (by decide) (by decide)]
    exact BitField.extract_pack_high hlow (by decide)
  rw [hread, BitVec.toNat_setWidth, Nat.mod_eq_of_lt hint]

theorem program_fracSdm (hfrac : (sxFrac refclk cand.vcoHz).toNat < 2 ^ 20) :
    (regs.program refclk cand vco csw).fracSdm.toNat = (sxFrac refclk cand.vcoHz).toNat := by
  have hread : BitField.read 0 4 (regs.program refclk cand vco csw).reg011e =
      ((sxFrac refclk cand.vcoHz >>> 16).setWidth 16).setWidth 4 := by
    rw [program, BitField.read_write_of_le (by decide) (by decide) (by decide)]
    exact BitField.extract_pack_low (by decide)
  have hhigh : (((sxFrac refclk cand.vcoHz >>> 16).setWidth 16).setWidth 4).toNat =
      (sxFrac refclk cand.vcoHz).toNat / 2 ^ 16 := by
    rw [BitVec.toNat_setWidth, BitVec.toNat_setWidth, BitVec.toNat_ushiftRight,
      Nat.shiftRight_eq_div_pow]
    omega
  have hlow : ((sxFrac refclk cand.vcoHz).setWidth 16).toNat =
      (sxFrac refclk cand.vcoHz).toNat % 2 ^ 16 := BitVec.toNat_setWidth ..
  rw [fracSdm, hread, BitVec.toNat_append, hhigh, program, hlow,
    ← Nat.shiftLeft_add_eq_or_of_lt (Nat.mod_lt _ (by decide)), Nat.shiftLeft_eq]
  omega

/-- The words of a candidate, read back from the registers. -/
theorem program_scaledVco (hwords : cand.Words refclk) :
    (regs.program refclk cand vco csw).scaledVco refclk = sxDivider refclk cand.vcoHz *
      (((sxInteger refclk cand.vcoHz).toNat + 4) * 2 ^ 20 + (sxFrac refclk cand.vcoHz).toNat) := by
  rw [scaledVco, program_enDiv2, program_intSdm hwords.integer hwords.frac,
    program_fracSdm hwords.frac, sxDivider]
  by_cases h : sxThrHz < cand.vcoHz <;> simp [h]

theorem program_selVco : (regs.program refclk cand vco csw).selVco.toNat = vco.sel := by
  have hread : (regs.program refclk cand vco csw).selVco =
      (BitVec.ofNat 16 vco.sel).setWidth 2 := by
    rw [selVco, program, BitField.read_write_of_le (by decide) (by decide) (by decide)]
    exact BitField.extract_pack_low (by decide)
  rw [hread]
  cases vco <;> rfl

theorem program_cswVco (h : 0 ≤ csw ∧ csw ≤ 255) :
    ((regs.program refclk cand vco csw).cswVco.toNat : Int) = csw := by
  have hsel : (BitVec.ofNat 16 vco.sel).toNat < 2 ^ 2 := by
    cases vco <;> decide
  have hread : (regs.program refclk cand vco csw).cswVco = (BitVec.ofInt 16 csw).setWidth 8 := by
    rw [cswVco, program, BitField.read_write_of_le (by decide) (by decide) (by decide)]
    exact BitField.extract_pack_high hsel (by decide)
  rw [hread, BitVec.toNat_setWidth, BitVec.toNat_ofInt]
  omega

theorem setCswVco_cswVco (h : 0 ≤ csw ∧ csw ≤ 255) :
    ((regs.setCswVco csw).cswVco.toNat : Int) = csw := by
  rw [cswVco, setCswVco, BitField.read_write (by decide), BitVec.toNat_setWidth,
    BitVec.toNat_ofInt]
  omega

@[simp] theorem setCswVco_selVco : (regs.setCswVco csw).selVco = regs.selVco :=
  BitField.read_write_of_disjoint (by decide) (by decide)

theorem setCswVco_tunedTo : (regs.setCswVco csw).TunedTo refclk loHz ↔ regs.TunedTo refclk loHz := by
  constructor
  · rintro ⟨hband, hdiv, hbelow, hnear⟩
    exact ⟨by rwa [setCswVco_selVco] at hband, hdiv, hbelow, hnear⟩
  · rintro ⟨hband, hdiv, hbelow, hnear⟩
    exact ⟨by rwa [setCswVco_selVco], hdiv, hbelow, hnear⟩

/-- A candidate programmed is its LO frequency programmed. -/
theorem program_tunedTo (hcand : sxCandidates loHz vco = some cand) :
    (regs.program lmsRefFreq cand vco csw).TunedTo lmsRefFreq loHz := by
  have hlargest := largest_of_candidate hcand
  have hwords := words_of_inBand hlargest.inBand
  have hvco : sxVcoHz loHz cand.divLoch = cand.vcoHz := hlargest.product.symm
  have hscaled : (regs.program lmsRefFreq cand vco csw).scaledVco lmsRefFreq = _ :=
    program_scaledVco hwords
  refine ⟨⟨vco, program_selVco, ?_⟩, hlargest.divLoch, ?_, ?_⟩
  · exact hvco.symm ▸ hlargest.inBand
  · rw [hscaled]
    exact hvco.symm ▸ hwords.below
  · rw [hscaled]
    exact hvco.symm ▸ hwords.near

end SxRegs

/-! ## Walk -/

/-- A walk is on codes of the capacitor bank, the last of which the registers hold at its end, and
it finds the lock where the comparator reports it for these registers. -/
structure SxWalk.Sound (walk : SxWalk) (cmpho : Nat → SxRegs → Nat) : Prop where
  codes : ∀ code ∈ walk.codes, 0 ≤ code ∧ code ≤ 255
  last : walk.codes.getLast? = some (walk.regs.cswVco.toNat : Int)
  locked : ∀ steps, walk.locked = some steps → steps ≤ sxWalkMax ∧ cmpho steps walk.regs = 2

variable {cmpho : Nat → SxRegs → Nat} {regs : SxRegs} {csw : Int}

/-- A walk that programs nothing more. -/
theorem SxWalk.sound_alone (hcsw : 0 ≤ csw ∧ csw ≤ 255) (hregs : (regs.cswVco.toNat : Int) = csw)
    {locked : Option Nat}
    (hlocked : ∀ steps, locked = some steps → steps ≤ sxWalkMax ∧ cmpho steps regs = 2) :
    (SxWalk.after csw ⟨regs, [], locked⟩).Sound cmpho := by
  refine ⟨fun code hcode => ?_, ?_, hlocked⟩
  · rwa [List.mem_singleton.mp hcode]
  · show some csw = some (regs.cswVco.toNat : Int)
    rw [hregs]

theorem SxWalk.Sound.after {walk : SxWalk} {next : Int} (hcsw : 0 ≤ csw ∧ csw ≤ 255)
    (h : (walk.after next).Sound cmpho) : ((walk.after next).after csw).Sound cmpho := by
  refine ⟨fun code hcode => ?_, h.last, h.locked⟩
  obtain rfl | hrest := List.mem_cons.mp hcode
  · exact hcsw
  · exact h.codes code hrest

/-- The induction is on the reads that are left; before each the registers hold a code. -/
theorem sxWalk_sound (left steps : Nat) (dir : Int) (hleft : left + steps = sxWalkMax + 1)
    (hcsw : 0 ≤ csw ∧ csw ≤ 255) (hregs : (regs.cswVco.toNat : Int) = csw) :
    ((sxWalk cmpho left steps dir csw regs).after csw).Sound cmpho := by
  induction left generalizing steps dir csw regs with
  | zero => exact SxWalk.sound_alone hcsw hregs (by simp)
  | succ left ih =>
      have hnext : ∀ dir next, 0 ≤ next ∧ next ≤ 255 →
          (((sxWalk cmpho left (steps + 1) dir next (regs.setCswVco next)).after next).after
            csw).Sound cmpho := fun dir next hin =>
        (ih (steps + 1) dir (by omega) hin (SxRegs.setCswVco_cswVco hin)).after hcsw
      unfold sxWalk
      dsimp only
      split
      case isTrue hlock =>
        refine SxWalk.sound_alone hcsw hregs fun step hstep => ?_
        obtain rfl : steps = step := Option.some.inj hstep
        exact ⟨by omega, hlock⟩
      case isFalse =>
        split
        · split
          · exact SxWalk.sound_alone hcsw hregs (by simp)
          case isFalse hgo => exact hnext _ _ (by omega)
        · split
          · exact SxWalk.sound_alone hcsw hregs (by simp)
          case isFalse hgo => exact hnext _ _ (by omega)

/-- A walk changes the code only. -/
theorem sxWalk_tunedTo (left steps : Nat) (dir csw : Int) (regs : SxRegs) :
    (sxWalk cmpho left steps dir csw regs).regs.TunedTo refclk loHz ↔ regs.TunedTo refclk loHz := by
  induction left generalizing steps dir csw regs with
  | zero => rfl
  | succ left ih =>
      unfold sxWalk
      dsimp only
      split
      · rfl
      · split <;> split
        · rfl
        · exact (ih ..).trans SxRegs.setCswVco_tunedTo
        · rfl
        · exact (ih ..).trans SxRegs.setCswVco_tunedTo

theorem fastSx_sound (hclock : refclk ≠ 0) (hcsw : 0 ≤ csw ∧ csw ≤ 255) :
    (fastSx refclk cmpho cand vco csw regs).Sound cmpho := by
  rw [fastSx, if_neg hclock]
  exact sxWalk_sound _ _ _ rfl hcsw (SxRegs.program_cswVco hcsw)

theorem fastSx_tunedTo (hcand : sxCandidates loHz vco = some cand) :
    (fastSx lmsRefFreq cmpho cand vco csw regs).regs.TunedTo lmsRefFreq loHz := by
  rw [fastSx, if_neg (by decide)]
  exact (sxWalk_tunedTo ..).mpr (SxRegs.program_tunedTo hcand)

/-- A prediction is a code of the capacitor bank, whatever the anchors are. -/
theorem sxPredict_le (vcoKhz : Nat) (anchors : List SxAnchor) : sxPredict vcoKhz anchors ≤ 255 := by
  have hcode : ∀ code : BitVec 8, (code.toNat : Int) ≤ 255 := fun code => by
    have hlt := code.isLt
    omega
  match anchors with
  | [] => exact (by decide : (-1 : Int) ≤ 255)
  | [only] =>
      rw [sxPredict]
      split
      · exact hcode _
      · decide
  | first :: second :: rest =>
      rw [sxPredict]
      split
      · decide
      · dsimp only
        split
        · exact hcode _
        · split
          · decide
          · split <;> omega

/-! ## Tune -/

/-- What the driver takes from LimeSuite: a search that succeeds has programmed the frequency. -/
def SxChip.SearchPrograms (chip : SxChip) : Prop :=
  ∀ isTx freqHz regs, (chip.fullSearch isTx freqHz regs).2 = true →
    (chip.fullSearch isTx freqHz regs).1.TunedTo lmsRefFreq freqHz

namespace SxTuner

variable {tuner : SxTuner} {chip : SxChip} {isTx other : Bool} {freqHz : Nat} {mode : SxMode}

/-- The memory of a synthesizer is empty or names what it is programmed to. -/
def Remembers (tuner : SxTuner) (isTx : Bool) : Prop :=
  tuner.cache.sxLastHz isTx ≠ 0 →
    (tuner.regs isTx).TunedTo lmsRefFreq (tuner.cache.sxLastHz isTx)

@[simp] theorem sxLastHz_remember :
    (tuner.remember isTx freqHz).cache.sxLastHz isTx = freqHz := by
  cases isTx <;> rfl

@[simp] theorem sxLastHz_remember_other :
    (tuner.remember isTx freqHz).cache.sxLastHz (!isTx) = tuner.cache.sxLastHz (!isTx) := by
  cases isTx <;> rfl

@[simp] theorem remember_regs : (tuner.remember isTx freqHz).regs = tuner.regs := rfl

@[simp] theorem learn_regs : (tuner.learn isTx freqHz).regs = tuner.regs := by
  unfold learn
  dsimp only
  split
  · split <;> rfl
  · rfl

@[simp] theorem learn_cache : (tuner.learn isTx freqHz).cache = tuner.cache := by
  unfold learn
  dsimp only
  split
  · split <;> rfl
  · rfl

/-- What the fast path starts from. -/
theorem candidate_of_predicted (h : tuner.predicted isTx freqHz = some (vco, cand, csw)) :
    sxCandidates freqHz vco = some cand ∧
      csw = sxPredict cand.vcoKhz (tuner.anchors isTx vco) ∧ 0 ≤ csw := by
  obtain ⟨tried, -, hbind⟩ := List.exists_of_findSome?_eq_some h
  obtain ⟨marked, hmarked, hsome⟩ := Option.bind_eq_some_iff.mp hbind
  dsimp only at hsome
  split at hsome
  case isTrue hpositive =>
    obtain ⟨rfl, rfl, rfl⟩ : tried = vco ∧ marked = cand ∧
        sxPredict marked.vcoKhz (tuner.anchors isTx tried) = csw := by
      simpa using hsome
    exact ⟨hmarked, rfl, hpositive⟩
  case isFalse => cases hsome

/-- The fast path ends with the lock, or it falls back with what its walk left. -/
theorem tuneSx_cases (tuner : SxTuner) (chip : SxChip) (isTx : Bool) (freqHz : Nat) :
    (∃ vco cand csw steps, tuner.predicted isTx freqHz = some (vco, cand, csw) ∧
      (fastSx chip.refclk chip.cmpho cand vco csw (tuner.regs isTx)).locked = some steps ∧
      tuner.tuneSx chip isTx freqHz =
        ({ SxTuner.remember { tuner with
              regs := Function.update tuner.regs isTx
                (fastSx chip.refclk chip.cmpho cand vco csw (tuner.regs isTx)).regs }
              isTx freqHz with
            mode := if steps = 0 then .fast else .walked }, true)) ∨
      ∃ regs mode, tuner.tuneSx chip isTx freqHz =
        fullTune { tuner with regs := Function.update tuner.regs isTx regs } chip isTx freqHz
          mode := by
  unfold tuneSx
  cases hpredicted : tuner.predicted isTx freqHz with
  | none => exact .inr ⟨tuner.regs isTx, .full, by rw [Function.update_eq_self]⟩
  | some found =>
      obtain ⟨vco, cand, csw⟩ := found
      dsimp only
      cases hlocked : (fastSx chip.refclk chip.cmpho cand vco csw (tuner.regs isTx)).locked with
      | none => exact .inr ⟨_, _, rfl⟩
      | some steps => exact .inl ⟨vco, cand, csw, steps, rfl, hlocked, rfl⟩

theorem fullTune_remembers (hsearch : chip.SearchPrograms) :
    (tuner.fullTune chip isTx freqHz mode).1.Remembers isTx := by
  intro hknown
  unfold fullTune at hknown ⊢
  dsimp only at hknown ⊢
  split at hknown
  case isTrue hfound =>
    rw [if_pos hfound]
    dsimp only
    rw [learn_cache, sxLastHz_remember, learn_regs, remember_regs]
    dsimp only
    rw [Function.update_self]
    exact hsearch isTx freqHz _ hfound
  case isFalse => exact absurd (by cases isTx <;> rfl) hknown

/-- After every tune the memory of the synthesizer is empty or right. -/
theorem tuneSx_remembers (hclock : chip.refclk = lmsRefFreq)
    (hsearch : chip.SearchPrograms) :
    (tuner.tuneSx chip isTx freqHz).1.Remembers isTx := by
  obtain ⟨vco, cand, csw, steps, hpredicted, -, htune⟩ | ⟨regs, mode, htune⟩ :=
    tuneSx_cases tuner chip isTx freqHz
  · rw [htune]
    intro _
    show (Function.update tuner.regs isTx _ isTx).TunedTo lmsRefFreq
      ((SxTuner.remember _ isTx freqHz).cache.sxLastHz isTx)
    rw [sxLastHz_remember, Function.update_self, hclock]
    exact fastSx_tunedTo (candidate_of_predicted hpredicted).1
  · rw [htune]
    exact fullTune_remembers hsearch

theorem fullTune_frame (tuner : SxTuner) (chip : SxChip) (isTx : Bool) (freqHz : Nat)
    (mode : SxMode) :
    (tuner.fullTune chip isTx freqHz mode).1.cache.sxLastHz (!isTx) =
        tuner.cache.sxLastHz (!isTx) ∧
      (tuner.fullTune chip isTx freqHz mode).1.regs (!isTx) = tuner.regs (!isTx) := by
  unfold fullTune
  dsimp only
  split
  · simp
  · constructor
    · cases isTx <;> rfl
    · simp

/-- A tune leaves the other synthesizer and its memory as they are. -/
theorem tuneSx_frame (tuner : SxTuner) (chip : SxChip) (isTx : Bool) (freqHz : Nat) :
    (tuner.tuneSx chip isTx freqHz).1.cache.sxLastHz (!isTx) =
        tuner.cache.sxLastHz (!isTx) ∧
      (tuner.tuneSx chip isTx freqHz).1.regs (!isTx) = tuner.regs (!isTx) := by
  obtain ⟨vco, cand, csw, steps, -, -, htune⟩ | ⟨regs, mode, htune⟩ :=
    tuneSx_cases tuner chip isTx freqHz
  · rw [htune]
    exact ⟨sxLastHz_remember_other, by simp⟩
  · rw [htune]
    obtain ⟨hmemory, hregs⟩ := fullTune_frame
      { tuner with regs := Function.update tuner.regs isTx regs } chip isTx freqHz mode
    exact ⟨hmemory, hregs.trans (by simp)⟩

/-- A tune and the chip it meets. -/
structure Call where
  chip : SxChip
  isTx : Bool
  freqHz : Nat

def tuneAll (tuner : SxTuner) (calls : List Call) : SxTuner :=
  calls.foldl (fun tuned call => (tuned.tuneSx call.chip call.isTx call.freqHz).1) tuner

/-- Over any tunes of a chip both memories stay empty or right. -/
theorem tuneAll_remembers (calls : List Call)
    (hcalls : ∀ call ∈ calls, call.chip.refclk = lmsRefFreq ∧ call.chip.SearchPrograms)
    (hstart : ∀ isTx, tuner.Remembers isTx) (isTx : Bool) :
    (tuner.tuneAll calls).Remembers isTx := by
  induction calls generalizing tuner with
  | nil => exact hstart isTx
  | cons call rest ih =>
      obtain ⟨hclock, hsearch⟩ := hcalls call List.mem_cons_self
      have hrest := fun other hother => hcalls other (List.mem_cons_of_mem _ hother)
      refine ih hrest fun other => ?_
      by_cases hsame : other = call.isTx
      · exact hsame ▸ tuneSx_remembers hclock hsearch
      · have hother : other = !call.isTx := Bool.eq_not.mpr hsame
        obtain ⟨hmemory, hregs⟩ := tuneSx_frame tuner call.chip call.isTx call.freqHz
        rw [Remembers, hother, hmemory, hregs, ← hother]
        exact hstart other

/-- `Radio.tuneRx` and `Radio.tuneTx` leave of a tune what the memory then says. -/
theorem tuneSx_memory (tuner : SxTuner) (chip : SxChip) (isTx : Bool) (freqHz : Nat) :
    (tuner.tuneSx chip isTx freqHz).1.cache =
      if (tuner.tuneSx chip isTx freqHz).2 then (tuner.remember isTx freqHz).cache
      else tuner.cache.setSxLastHz isTx 0 := by
  obtain ⟨vco, cand, csw, steps, -, -, htune⟩ | ⟨regs, mode, htune⟩ :=
    tuneSx_cases tuner chip isTx freqHz
  · rw [htune]
    rfl
  · rw [htune, fullTune]
    dsimp only
    split
    · rw [learn_cache]
      rfl
    · rfl

end SxTuner

/-- The applies of the RX channel see a tune as `Radio.tuneRx` has it. -/
theorem tuneRx_refined (radio : Radio) (tuner : SxTuner) (chip : SxChip) (freqHz : Nat)
    (hcache : tuner.cache = radio.cache) (hneeded : radio.cache.sxrLastHz ≠ freqHz) :
    (tuner.tuneSx chip false freqHz).1.cache =
      (radio.tuneRx freqHz
        (if (tuner.tuneSx chip false freqHz).2 then .locked else .refused)).1.cache := by
  rw [SxTuner.tuneSx_memory]
  unfold Radio.tuneRx
  rw [if_neg hneeded]
  cases (tuner.tuneSx chip false freqHz).2 with
  | true =>
      rw [SxTuner.remember, hcache]
      rfl
  | false =>
      rw [hcache]
      rfl

/-- The applies of the TX channel see a tune as `Radio.tuneTx` has it. -/
theorem tuneTx_refined (radio : Radio) (tuner : SxTuner) (chip : SxChip) (freqHz : Nat)
    (hcache : tuner.cache = radio.cache) (hneeded : radio.cache.sxtLastHz ≠ freqHz) :
    (tuner.tuneSx chip true freqHz).1.cache =
      (radio.tuneTx freqHz
        (if (tuner.tuneSx chip true freqHz).2 then .locked else .refused)).1.cache := by
  rw [SxTuner.tuneSx_memory]
  unfold Radio.tuneTx
  rw [if_neg hneeded]
  cases (tuner.tuneSx chip true freqHz).2 with
  | true =>
      rw [SxTuner.remember, hcache]
      rfl
  | false =>
      rw [hcache]
      rfl

open SxTuner in
/-- Every candidate of a tune is right, so are its words and the walk from its prediction, and
after the tune the driver remembers no frequency but the one programmed. -/
theorem fast_tune_sound (chip : SxChip) (hclock : chip.refclk = lmsRefFreq)
    (hsearch : chip.SearchPrograms) (tuner : SxTuner) (isTx : Bool) (freqHz : Nat) :
    (∀ vco cand, sxCandidates freqHz vco = some cand →
      cand.Largest vco freqHz ∧ cand.Words chip.refclk ∧
        (∀ csw regs, (SxRegs.program regs chip.refclk cand vco csw).TunedTo chip.refclk freqHz) ∧
        ∀ anchors regs, 0 ≤ sxPredict cand.vcoKhz anchors →
          (fastSx chip.refclk chip.cmpho cand vco (sxPredict cand.vcoKhz anchors) regs).Sound
            chip.cmpho) ∧
      (tuner.tuneSx chip isTx freqHz).1.Remembers isTx ∧
      (tuner.tuneSx chip isTx freqHz).1.cache.sxLastHz (!isTx) = tuner.cache.sxLastHz (!isTx) ∧
      (tuner.tuneSx chip isTx freqHz).1.regs (!isTx) = tuner.regs (!isTx) := by
  refine ⟨fun vco cand hcand => ?_, tuneSx_remembers hclock hsearch, tuneSx_frame ..⟩
  have hlargest := largest_of_candidate hcand
  refine ⟨hlargest, ?_, fun csw regs => ?_, fun anchors regs hpredict => ?_⟩
  · exact hclock ▸ words_of_inBand hlargest.inBand
  · exact hclock ▸ SxRegs.program_tunedTo hcand
  · exact fastSx_sound (by rw [hclock]; decide) ⟨hpredict, sxPredict_le ..⟩

/-- The search of LimeSuite as far as the driver sees it: the preferred candidate, at the middle of
the capacitor bank. -/
def searchCandidates (_ : Bool) (freqHz : Nat) (regs : SxRegs) : SxRegs × Bool :=
  match Vco.preference.findSome? fun vco => (sxCandidates freqHz vco).map (vco, ·) with
  | some (vco, cand) => (regs.program lmsRefFreq cand vco 128, true)
  | none => (regs, false)

/-- A chip that locks two codes above the prediction. -/
def steadyChip : SxChip := ⟨lmsRefFreq, fun steps _ => if steps = 2 then 2 else 0, searchCandidates⟩

theorem steadyChip_searches : steadyChip.SearchPrograms := by
  intro isTx freqHz regs hfound
  unfold steadyChip searchCandidates at hfound ⊢
  dsimp only at hfound ⊢
  cases htried : Vco.preference.findSome? fun vco => (sxCandidates freqHz vco).map (vco, ·) with
  | none =>
      rw [htried] at hfound
      cases hfound
  | some found =>
      obtain ⟨vco, cand⟩ := found
      obtain ⟨tried, -, hmap⟩ := List.exists_of_findSome?_eq_some htried
      obtain ⟨marked, hmarked, hpair⟩ := Option.map_eq_some_iff.mp hmap
      obtain ⟨rfl, rfl⟩ := Prod.mk.inj hpair
      exact SxRegs.program_tunedTo hmarked

/-- A driver with one anchor for the high oscillator of the receiver. -/
def anchoredTuner : SxTuner where
  cache := ⟨0, 0, none, none, none, none, none⟩
  anchors isTx vco := if isTx = false ∧ vco = .vcoh then [⟨6400000, 100⟩] else []
  mode := .full
  regs _ := ⟨0, 0, 0, 0, 0⟩

theorem fast_tune_of_anchored :
    (anchoredTuner.tuneSx steadyChip false 100000000).1.cache.sxLastHz false = 100000000 ∧
      ((anchoredTuner.tuneSx steadyChip false 100000000).1.regs false).cswVco = 102 ∧
      (anchoredTuner.tuneSx steadyChip false 100000000).1.Remembers false :=
  ⟨by decide +kernel, by decide +kernel,
    (fast_tune_sound steadyChip rfl steadyChip_searches anchoredTuner false 100000000).2.1⟩

end RfnmDriver.Lime
