import RfnmDriver.Rx.DcNull

/-!
# Runs of the DC null

The codes the machine writes are always legal, and a probe is over with its fifth window, whatever
happens. Whether it leaves its offset behind is a matter of how a probe ends: see
`restored_iff_harmless`.
-/

namespace RfnmDriver.Rx.Qec

open CheckedInt StepSystem

namespace DcNull

variable {st : DcNull} {codes : Codes} {outcome : Outcome} {w : Window}

/-! ## Writes -/

/-- A legal write is done, and then the pair of zeros programs nothing, or it is refused, with the
codes in the channel or not. -/
theorem qecSetDc_cases (st : DcNull) (h : codes.Legal) (outcome : Outcome) :
    (outcome = .applied ∧ ∃ epoch, st.qecSetDc codes outcome =
      ({ st with
          radio := { st.radio with
            wire := codes
            codes := if codes = .zero then st.radio.codes else codes
            applyEpoch := epoch }
          lastApplyEpoch := epoch }, true)) ∨
    (outcome ≠ .applied ∧ ∃ wire, (wire = codes ∨ wire = st.radio.wire) ∧
      st.qecSetDc codes outcome =
        ({ st with
            radio := { st.radio with wire := wire }
            lastApplyEpoch := st.radio.applyEpoch }, false)) := by
  cases outcome with
  | applied =>
      refine .inl ⟨rfl, st.radio.applyEpoch + 1, ?_⟩
      simp [qecSetDc, Radio.setDc, Radio.apply, h]
  | tuneFailed =>
      refine .inr ⟨by simp, codes, .inl rfl, ?_⟩
      simp [qecSetDc, Radio.setDc, Radio.apply, h]
  | noBoard => exact .inr ⟨by simp, st.radio.wire, .inr rfl, rfl⟩

/-! ## The codes are legal -/

theorem legal_zero : Codes.zero.Legal := by decide

/-- A probe stays in the range. -/
theorem probeOffset_range {code : Int} (hlow : -126 ≤ code) (hhigh : code ≤ 126) :
    -126 ≤ code + probeOffset code ∧ code + probeOffset code ≤ 126 := by
  unfold probeOffset
  split <;> omega

theorem legal_probeI (h : codes.Legal) :
    (⟨codes.i + probeOffset codes.i, codes.q⟩ : Codes).Legal := by
  obtain ⟨hilow, hihigh, hq⟩ := h
  exact ⟨(probeOffset_range hilow hihigh).1, (probeOffset_range hilow hihigh).2, hq⟩

theorem legal_probeQ (h : codes.Legal) :
    (⟨codes.i, codes.q + probeOffset codes.q⟩ : Codes).Legal := by
  obtain ⟨hilow, hihigh, hqlow, hqhigh⟩ := h
  exact ⟨hilow, hihigh, probeOffset_range hqlow hqhigh⟩

theorem stepCode_range (code x : Int) : -126 ≤ stepCode code x ∧ stepCode code x ≤ 126 := by
  unfold stepCode
  dsimp only
  split_ifs <;> omega

theorem stepped_spec (st : DcNull) (x y : Int) :
    (st.stepped x y).Legal ∧ st.stepped x y ≠ .zero := by
  have hi := stepCode_range st.trim.i x
  have hq := stepCode_range st.trim.q y
  unfold stepped
  dsimp only
  split
  · have hone : (-126 : Int) ≤ 1 ∧ (1 : Int) ≤ 126 := by omega
    exact ⟨⟨hone.1, hone.2, hq⟩, fun hzero => absurd (Codes.mk.inj hzero).1 (by omega)⟩
  · next hne => exact ⟨⟨hi.1, hi.2, hq⟩, fun hzero => hne (Codes.mk.inj hzero)⟩

/-- The codes of a solve are legal and are written, and there are at most three solves. -/
theorem solveCodes_spec (h : st.solveCodes w = some codes) :
    codes.Legal ∧ codes ≠ .zero ∧ st.pSolves < 3 := by
  unfold solveCodes at h
  obtain ⟨hsolves, h⟩ := Option.ite_none_left_eq_some.mp h
  split at h
  · cases h
  · next x y _ =>
      obtain ⟨-, h⟩ := Option.ite_none_left_eq_some.mp h
      obtain rfl := Option.some.inj h
      exact ⟨(stepped_spec st x y).1, (stepped_spec st x y).2, by omega⟩

theorem restored_legal (h : st.pE.Legal) : st.restored.Legal := by
  unfold restored
  split
  · decide
  · exact h

theorem restored_ne_zero : st.restored ≠ .zero := by
  unfold restored
  split
  · decide
  · next hne => exact hne

/-! ## The invariant -/

/-- Where a probe stands: how many windows it has had, and how many solves. -/
def OnSchedule (st : DcNull) : Prop :=
  match st.pStage with
  | .off => True
  | .probeI => st.windows = 0 ∧ st.pSolves = 0
  | .probeQ => st.windows = 1 ∧ st.pSolves = 0
  | .solve => st.windows = 1 + st.pSolves ∧ st.pSolves ≤ 3

/-- Every code is legal. -/
structure Lawful (st : DcNull) : Prop where
  trim : st.trim.Legal
  pE : st.pE.Legal
  wire : st.radio.wire.Legal
  codes : st.radio.codes.Legal

/-- What every state of a run has. -/
structure Inv (st : DcNull) : Prop where
  lawful : st.Lawful
  schedule : st.OnSchedule

/-- A probe is over with its fifth window. -/
theorem OnSchedule.bounded (h : st.OnSchedule) (hstage : st.pStage ≠ .off) : st.windows < 5 := by
  unfold OnSchedule at h
  split at h
  · next hoff => exact absurd hoff hstage
  · omega
  · omega
  · omega

theorem onSchedule_off (h : st.pStage = .off) : st.OnSchedule := by
  unfold OnSchedule
  rw [h]
  trivial

theorem onSchedule_solve (h : st.pStage = .solve) (hwindows : st.windows = 1 + st.pSolves)
    (hsolves : st.pSolves ≤ 3) : st.OnSchedule := by
  unfold OnSchedule
  rw [h]
  exact ⟨hwindows, hsolves⟩

/-- The machine is not idle on codes that nobody asked for. -/
def IdleSound (st : DcNull) : Prop := st.pStage = .off → st.Sound

/-- A write that does not go through leaves the machine idle, and the radio as it was. -/
theorem Lawful.refused {wire : Codes} {final : DcNull} (h : st.Lawful)
    (hwire : wire = codes ∨ wire = st.radio.wire) (hcodes : codes.Legal)
    (htrim : final.trim = st.trim) (hpE : final.pE = st.pE) (hoff : final.pStage = .off)
    (hradio : final.radio.wire = wire) (hkept : final.radio.codes = st.radio.codes) :
    final.Inv := by
  refine ⟨⟨htrim ▸ h.trim, hpE ▸ h.pE, ?_, hkept ▸ h.codes⟩, onSchedule_off hoff⟩
  rw [hradio]
  obtain rfl | rfl := hwire
  · exact hcodes
  · exact h.wire

/-! ## The steps -/

/-- A restored or refused write of the give-up ends the probe. -/
theorem giveUp_spec (h : st.Lawful) (w : Window) (outcome : Outcome) :
    (st.giveUp w outcome).Inv ∧ (st.giveUp w outcome).pStage = .off ∧
      ((st.giveUp w outcome).Sound ↔
        if st.Restores w ∧ outcome = .applied then st.restored ∈ st.asked else st.Sound) := by
  have hlegal := restored_legal h.pE
  unfold giveUp
  by_cases hrestores : st.Restores w
  · rw [if_pos hrestores]
    obtain ⟨rfl, epoch, hset⟩ | ⟨hrefused, wire, hwire, hset⟩ := qecSetDc_cases st hlegal outcome
    · rw [if_neg restored_ne_zero] at hset
      rw [hset, if_pos ⟨hrestores, rfl⟩]
      exact ⟨⟨⟨hlegal, h.pE, hlegal, hlegal⟩, onSchedule_off rfl⟩, rfl, Iff.rfl⟩
    · rw [hset, if_neg fun hboth => hrefused hboth.2]
      exact ⟨h.refused hwire hlegal rfl rfl rfl rfl rfl, rfl, Iff.rfl⟩
  · rw [if_neg hrestores, if_neg fun hboth => hrestores hboth.1]
    exact ⟨⟨⟨h.trim, h.pE, h.wire, h.codes⟩, onSchedule_off rfl⟩, rfl, Iff.rfl⟩

/-- What a window does to a probe whose response is identified. -/
theorem solveStep_spec (h : st.Lawful) (hstage : st.pStage = .solve)
    (hwindows : st.windows = 2 + st.pSolves) (w : Window) (dead : BitVec 32) (outcome : Outcome) :
    (st.solveStep w dead outcome).Inv ∧
      ((st.solveStep w dead outcome).IdleSound ↔ st.EndsWell w dead outcome) := by
  unfold solveStep EndsWell
  by_cases hlow : w.level.val < dead.toInt
  · rw [if_pos hlow, if_pos hlow]
    refine ⟨⟨⟨h.trim, h.pE, h.wire, h.codes⟩, onSchedule_off rfl⟩, ?_⟩
    exact forall_prop_of_true rfl
  · rw [if_neg hlow, if_neg hlow]
    cases hcodes : st.solveCodes w with
    | none =>
        obtain ⟨hinv, hoff, hsound⟩ := giveUp_spec h w outcome
        exact ⟨hinv, (forall_prop_of_true hoff).trans hsound⟩
    | some codes =>
        obtain ⟨hlegal, hne, hsolves⟩ := solveCodes_spec hcodes
        dsimp only
        obtain ⟨rfl, epoch, hset⟩ | ⟨hrefused, wire, hwire, hset⟩ :=
          qecSetDc_cases { st with asked := codes :: st.asked } hlegal outcome
        · rw [if_neg hne] at hset
          rw [hset]
          have hschedule : st.windows = 1 + (st.pSolves + 1) ∧ st.pSolves + 1 ≤ 3 := by omega
          refine ⟨⟨⟨hlegal, h.pE, hlegal, hlegal⟩,
            onSchedule_solve hstage hschedule.1 hschedule.2⟩,
            iff_of_true (fun hoff => ?_) (.inl rfl)⟩
          exact absurd (hstage.symm.trans hoff) (by decide)
        · rw [hset]
          refine ⟨h.refused hwire hlegal rfl rfl rfl rfl rfl, ?_⟩
          rw [or_iff_right hrefused]
          exact (forall_prop_of_true rfl).trans List.mem_cons

/-- The probe of lane Q goes through, or ends the probe where it stands. -/
theorem probeQ_spec (h : st.Lawful) (hwindows : st.windows = 1) (hsolves : st.pSolves = 0)
    (w : Window) (outcome : Outcome) :
    (st.qecDcProbeQ w outcome).Inv ∧
      ((st.qecDcProbeQ w outcome).IdleSound ↔ outcome = .applied ∨ st.Sound) := by
  have hlegal := legal_probeQ h.trim
  unfold qecDcProbeQ
  dsimp only
  obtain ⟨rfl, epoch, hset⟩ | ⟨hrefused, wire, hwire, hset⟩ := qecSetDc_cases
      { st with
        ji := ((w.mi - st.pMi).tdiv st.pS1, (w.mq - st.pMq).tdiv st.pS1)
        pMi := w.mi
        pMq := w.mq } hlegal outcome
  · rw [hset]
    refine ⟨⟨⟨hlegal, h.pE, hlegal, ?_⟩, ⟨hwindows, hsolves⟩⟩,
      iff_of_true (fun hoff => ?_) (.inl rfl)⟩
    · show Codes.Legal (if _ then _ else _)
      split
      · exact h.codes
      · exact hlegal
    · cases hoff
  · rw [hset]
    refine ⟨h.refused hwire hlegal rfl rfl rfl rfl rfl, ?_⟩
    exact (forall_prop_of_true rfl).trans (or_iff_right hrefused).symm

/-- A probe is entered, or the machine stays idle and the radio as it was. -/
theorem probeEnter_spec (h : st.Lawful) (hoff : st.pStage = .off) (enable : Bool) (w : Window)
    (outcome : Outcome) :
    let entered := st.qecDcProbeEnter enable w outcome
    entered.1.Inv ∧ (entered.2 = true → entered.1.pStage = .probeI) ∧
      (entered.2 = false → entered.1.pStage = .off ∧
        entered.1.radio.codes = st.radio.codes ∧ entered.1.asked = st.asked) := by
  have hlegal := legal_probeI h.trim
  unfold qecDcProbeEnter
  dsimp only
  split
  · exact ⟨⟨h, onSchedule_off hoff⟩, (nomatch ·), fun _ => ⟨hoff, rfl, rfl⟩⟩
  · obtain ⟨rfl, epoch, hset⟩ | ⟨hrefused, wire, hwire, hset⟩ := qecSetDc_cases
        { st with pE := st.trim, pM0 := w.level, pMi := w.mi, pMq := w.mq } hlegal outcome
    · rw [hset]
      refine ⟨⟨⟨hlegal, h.trim, hlegal, ?_⟩, ⟨rfl, rfl⟩⟩, fun _ => rfl, (nomatch ·)⟩
      show Codes.Legal (if _ then _ else _)
      split
      · exact h.codes
      · exact hlegal
    · rw [hset]
      refine ⟨⟨⟨h.trim, h.trim, ?_, h.codes⟩, onSchedule_off hoff⟩, (nomatch ·),
        fun _ => ⟨hoff, rfl, rfl⟩⟩
      show wire.Legal
      obtain rfl | rfl := hwire
      · exact hlegal
      · exact h.wire

/-- A window of the null. -/
theorem nullStep_spec (h : st.Inv) (params : NullParams) (w : Window) (found : Bool)
    (outcome : Outcome) :
    (st.qecDcNullStep params w found outcome).Inv ∧
      (st.IdleSound → ((st.qecDcNullStep params w found outcome).IdleSound ↔
        st.Harmless (.window params w found outcome))) := by
  obtain ⟨hlawful, hschedule⟩ := h
  have hcounted : st.countWindow.Lawful :=
    ⟨hlawful.trim, hlawful.pE, hlawful.wire, hlawful.codes⟩
  unfold OnSchedule at hschedule
  unfold qecDcNullStep Harmless
  -- the stage tells how many windows and solves the probe has behind it
  cases hstage : st.pStage with
  | off =>
      dsimp only
      rw [iff_true]
      split
      · exact ⟨⟨⟨hlawful.trim, hlawful.pE, hlawful.wire, hlawful.codes⟩, onSchedule_off hstage⟩,
          fun hidle _ => hidle hstage⟩
      · split
        · exact ⟨⟨hlawful, onSchedule_off hstage⟩, fun hidle => hidle⟩
        · obtain ⟨hinv, hin, hout⟩ :=
            probeEnter_spec hlawful hstage params.dc2x2Enable w outcome
          split
          · next hentered =>
              have hprobing := hin hentered
              exact ⟨hinv, fun _ hoff => absurd (hprobing.symm.trans hoff) (by decide)⟩
          · next hentered =>
              obtain ⟨hoff, hcodes, hasked⟩ := hout (Bool.eq_false_iff.mpr hentered)
              obtain ⟨htrim, hpE, hwire, hlegal⟩ := hinv.lawful
              refine ⟨⟨⟨htrim, hpE, hwire, hlegal⟩, onSchedule_off hoff⟩, fun hidle _ => ?_⟩
              have hkept : (st.qecDcProbeEnter params.dc2x2Enable w outcome).1.Sound := by
                unfold Sound
                rw [hcodes, hasked]
                exact hidle hstage
              exact hkept
  | probeI =>
      rw [hstage] at hschedule
      obtain ⟨hwindows, hsolves⟩ := hschedule
      have hcount : st.windows + 1 = 1 := by omega
      obtain ⟨hinv, hiff⟩ := probeQ_spec hcounted hcount hsolves w outcome
      exact ⟨hinv, fun _ => hiff⟩
  | probeQ =>
      rw [hstage] at hschedule
      obtain ⟨hwindows, hsolves⟩ := hschedule
      have hcount : st.windows + 1 = 2 + st.pSolves := by omega
      have hidentified : (st.countWindow.identifyQ w).Lawful :=
        ⟨hlawful.trim, hlawful.pE, hlawful.wire, hlawful.codes⟩
      obtain ⟨hinv, hiff⟩ := solveStep_spec hidentified rfl hcount w params.dcDeadband outcome
      exact ⟨hinv, fun _ => hiff⟩
  | solve =>
      rw [hstage] at hschedule
      obtain ⟨hwindows, hsolves⟩ := hschedule
      have hcount : st.windows + 1 = 2 + st.pSolves := by omega
      obtain ⟨hinv, hiff⟩ := solveStep_spec hcounted hstage hcount w params.dcDeadband outcome
      exact ⟨hinv, fun _ => hiff⟩

/-- The epochs end a probe where it stands. -/
theorem noteEpochs_spec (h : st.Inv) :
    st.noteEpochs.Inv ∧
      (st.IdleSound → (st.noteEpochs.IdleSound ↔ st.Harmless .epochs)) := by
  obtain ⟨htrim, hpE, hwire, hcodes⟩ := h.lawful
  unfold noteEpochs Harmless
  dsimp only
  by_cases hgain : st.radio.gainEpoch ≠ st.lastGainEpoch
  · rw [if_pos hgain]
    have hsound : (st.radio.gainEpoch ≠ st.lastGainEpoch ∨
        st.radio.applyEpoch ≠ st.lastApplyEpoch → st.Sound) ↔ st.Sound :=
      forall_prop_of_true (.inl hgain)
    rw [hsound]
    split
    · exact ⟨⟨⟨htrim, hpE, hwire, hcodes⟩, onSchedule_off rfl⟩, fun _ => forall_prop_of_true rfl⟩
    · exact ⟨⟨⟨htrim, hpE, hwire, hcodes⟩, onSchedule_off rfl⟩, fun _ => forall_prop_of_true rfl⟩
  · rw [if_neg hgain]
    by_cases happly : st.radio.applyEpoch ≠ st.lastApplyEpoch
    · have hsound : (st.radio.gainEpoch ≠ st.lastGainEpoch ∨
          st.radio.applyEpoch ≠ st.lastApplyEpoch → st.Sound) ↔ st.Sound :=
        forall_prop_of_true (.inr happly)
      rw [if_pos happly, hsound]
      exact ⟨⟨⟨htrim, hpE, hwire, hcodes⟩, onSchedule_off rfl⟩, fun _ => forall_prop_of_true rfl⟩
    · rw [if_neg happly]
      exact ⟨h, fun hidle =>
        iff_of_true hidle fun hnew => absurd hnew (not_or.mpr ⟨hgain, happly⟩)⟩

/-- An apply programs the codes in the channel, or changes nothing. -/
theorem apply_cases (radio : Radio) (tuned : Bool) :
    (radio.apply tuned).wire = radio.wire ∧
      (radio.apply tuned).codes =
        if tuned = true ∧ radio.wire ≠ .zero then radio.wire else radio.codes := by
  unfold Radio.apply
  cases tuned with
  | false => exact ⟨rfl, (if_neg fun h => Bool.false_ne_true h.1).symm⟩
  | true =>
      refine ⟨rfl, ?_⟩
      by_cases hzero : radio.wire = .zero
      · simp [hzero]
      · simp [hzero]

/-- One event. -/
theorem next_spec {event : Event} {following : DcNull} (h : st.Inv)
    (hstep : st.next event = some following) :
    following.Inv ∧ (st.IdleSound → (following.IdleSound ↔ st.Harmless event)) := by
  obtain ⟨⟨htrim, hpE, hwire, hcodes⟩, hschedule⟩ := id h
  cases event with
  | apply codes tuned =>
      obtain rfl := Option.some.inj hstep
      obtain ⟨hset, hprogrammed⟩ := apply_cases { st.radio with wire := codes.val } tuned
      refine ⟨⟨⟨htrim, hpE, hset ▸ codes.property, ?_⟩, hschedule⟩,
        fun hidle => iff_true_intro fun hoff => ?_⟩
      · show Codes.Legal (Radio.codes _)
        rw [hprogrammed]
        split
        · exact codes.property
        · exact hcodes
      · unfold Sound
        dsimp only
        rw [hprogrammed]
        split
        · exact List.mem_cons_self
        · exact List.mem_cons_of_mem _ (hidle hoff)
  | reapply gainStep tuned =>
      obtain rfl := Option.some.inj hstep
      obtain ⟨hset, hprogrammed⟩ := apply_cases st.radio tuned
      unfold IdleSound Sound Harmless
      dsimp only
      rw [hprogrammed]
      -- a reapply writes the codes again only after a tune, and not the zero ones
      by_cases hprograms : tuned = true ∧ st.radio.wire ≠ .zero
      · rw [if_pos hprograms]
        exact ⟨⟨⟨htrim, hpE, hset ▸ hwire, hwire⟩, hschedule⟩, fun _ =>
          ⟨fun h hoff _ _ => h hoff, fun h hoff => h hoff hprograms.1 hprograms.2⟩⟩
      · rw [if_neg hprograms]
        exact ⟨⟨⟨htrim, hpE, hset ▸ hwire, hcodes⟩, hschedule⟩, fun hidle =>
          iff_of_true hidle fun _ htuned hwrites => absurd ⟨htuned, hwrites⟩ hprograms⟩
  | epochs =>
      obtain rfl := Option.some.inj hstep
      exact noteEpochs_spec h
  | window params w found outcome =>
      obtain ⟨-, rfl⟩ := of_guard hstep
      exact nullStep_spec h params w found outcome
  | solve params mi mq =>
      obtain ⟨-, hsolve⟩ := Option.ite_none_left_eq_some.mp hstep
      split at hsolve
      · obtain rfl := Option.some.inj hsolve
        exact ⟨⟨⟨htrim, hpE, hwire, hcodes⟩, hschedule⟩, fun hidle => iff_true_intro hidle⟩
      · cases hsolve

/-! ## Runs -/

theorem loaded_inv (wire codes : ClientCodes) (gainEpoch applyEpoch : BitVec 32) :
    (loaded wire codes gainEpoch applyEpoch).Inv ∧
      (loaded wire codes gainEpoch applyEpoch).IdleSound :=
  ⟨⟨⟨legal_zero, legal_zero, wire.property, codes.property⟩, trivial⟩,
    fun _ => List.mem_cons_self⟩

/-- Whatever happens, the codes are legal, and a probe is over with its fifth window. -/
theorem always_inv (wire codes : ClientCodes) (gainEpoch applyEpoch : BitVec 32)
    (events : List Event) :
    Always next (fun st => st.Lawful ∧ (st.pStage ≠ .off → st.windows < 5))
      (loaded wire codes gainEpoch applyEpoch) events := by
  have hkeep : ∀ (st : DcNull) event following, st.Inv → st.next event = some following →
      following.Inv := fun st event following h hstep => (next_spec h hstep).1
  have hall : Always next Inv (loaded wire codes gainEpoch applyEpoch) events :=
    always_of_inductive hkeep (loaded_inv wire codes gainEpoch applyEpoch).1
  exact hall.mono fun st h => ⟨h.lawful, h.schedule.bounded⟩

/-- In every state of a run an idle machine has no probe offset standing, exactly if no event of the
run leaves one. -/
theorem restored_iff_harmless (wire codes : ClientCodes) (gainEpoch applyEpoch : BitVec 32)
    (events : List Event) :
    Always next Restored (loaded wire codes gainEpoch applyEpoch) events ↔
      Guarded next Harmless (loaded wire codes gainEpoch applyEpoch) events := by
  have hkeep : ∀ (st : DcNull) event following, st.Inv ∧ st.IdleSound → st.Harmless event →
      st.next event = some following → following.Inv ∧ following.IdleSound := by
    intro st event following h hharmless hstep
    obtain ⟨hinv, hiff⟩ := next_spec h.1 hstep
    exact ⟨hinv, (hiff h.2).mpr hharmless⟩
  have hproperty : ∀ st : DcNull, st.Inv ∧ st.IdleSound → st.Restored := fun st h =>
    ⟨h.2, ⟨h.1.lawful.wire, h.1.lawful.codes⟩, h.1.schedule.bounded⟩
  have hbreak : ∀ (st : DcNull) event following, st.Inv ∧ st.IdleSound →
      st.next event = some following → following.Restored → st.Harmless event := by
    intro st event following h hstep hrestored
    exact ((next_spec h.1 hstep).2 h.2).mp hrestored.idle
  exact always_iff_everyStep hkeep hproperty hbreak (loaded_inv wire codes gainEpoch applyEpoch)

/-! ## A gain step during a probe -/

theorem drifted_range : |(500 : Int)| ≤ 2048 ∧ |(-200 : Int)| ≤ 2048 := by decide

/-- A mean outside the deadband. -/
def drifted : Window := ⟨500, -200, drifted_range.1, drifted_range.2⟩

/-- A client's apply without a correction arms the null, the first window probes lane I, and before
the second the gain loop steps. -/
def gainStepRun : List Event :=
  [.apply ⟨.zero, legal_zero⟩ true, .epochs, .window ⟨true, true, 24#32⟩ drifted true .applied,
    .reapply true true, .epochs]

/-- The machine is idle, and lane I is left 16 codes off. -/
theorem gain_step_leaves_offset :
    let start := loaded ⟨.zero, legal_zero⟩ ⟨.zero, legal_zero⟩ 0#32 0#32
    ¬ Always next Restored start gainStepRun ∧
      ∃ final, run next start gainStepRun = some final ∧ final.pStage = .off ∧
        final.radio.codes = ⟨16, 0⟩ ∧ final.asked = [.zero] := by
  intro start
  have hrun : ∃ final, run next start gainStepRun = some final ∧ final.pStage = .off ∧
      final.radio.codes = ⟨16, 0⟩ ∧ final.asked = [.zero] := ⟨_, rfl, rfl, rfl, rfl⟩
  refine ⟨fun h => ?_, hrun⟩
  obtain ⟨final, hfinal, hoff, hcodes, hasked⟩ := hrun
  have hsound := (h.final hfinal).idle hoff
  unfold Sound at hsound
  rw [hcodes, hasked] at hsound
  exact absurd hsound (by decide)

end DcNull

end RfnmDriver.Rx.Qec
