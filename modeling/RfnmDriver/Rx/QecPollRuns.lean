import RfnmDriver.Rx.QecPoll

/-!
# Runs of the estimator

What a poll takes from the ring, and what becomes of it: the sums that a solve or a window of the
null uses are those of slots that the firmware completed, and the DC null moves by the steps that
`nullSteps` lists and no other. Read `accumulates_fresh` and `run_refines` first.
-/

namespace RfnmDriver.Rx.Qec

open CheckedInt Lanes StepSystem WrapClock

namespace Estimator

variable (round : PollRound) (st : Estimator)

/-! ## The sums that are used -/

/-- The poll reads slots: the stream is one it understands and goes on, and neither an epoch nor its
start has left it to settle. -/
def Reads : Prop :=
  round.packed12 = true ∧ round.native = true ∧ st.dc.radio.gainEpoch = st.dc.lastGainEpoch ∧
    st.dc.radio.applyEpoch = st.dc.lastApplyEpoch ∧ st.rxBufId < qecAdcSlotCnt ∧
      st.rxBufId ≠ st.lastRxBufId ∧ st.wasIdle = false ∧
        later st.settleUntil round.jiffies = false

instance : Decidable (st.Reads round) := inferInstanceAs (Decidable (_ ∧ _))

/-- The slots that the sums of a poll are of: those in the accumulator, and those it reads. -/
def summed : List Nat := st.history.folded ++ st.unread round

/-- What a poll does with sums: it keeps them for the next, or uses them up for a window of the null
or for a solve. -/
inductive Uses (acc : QecAcc) (following : Estimator) : Prop
  | keeps (acc_eq : following.acc = acc) (folded : following.history.folded = st.summed round)
      (model : following.model = st.model) (solves : following.statSolves = st.statSolves)
      (dc : following.dc = st.dc)
  | nulls (w : Window) (mi : div64 acc.si acc.n = .ok w.mi) (mq : div64 acc.sq acc.n = .ok w.mq)
      (dc : following.dc = st.dc.qecDcNullStep round.params.null w round.found round.outcome)
      (dropped : following.acc = .clear) (model : following.model = st.model)
      (solves : following.statSolves = st.statSolves)
  | solves (solved : SolveState)
      (solve : qecSolve round.params.solve ⟨acc, st.model, st.statSolves, st.dc.null⟩ = .ok solved)
      (model : following.model = solved.model) (solves : following.statSolves = solved.statSolves)
      (dc : following.dc = { st.dc with null := solved.null }) (dropped : following.acc = .clear)

/-- A poll that reads slots uses or keeps the sums of those it reads and of those in the
accumulator. Any other one, and all that happens beside it, leaves the model as it is, and the
accumulator too unless an epoch drops it. -/
def UsesFresh (st : Estimator) (event : Event) (following : Estimator) : Prop :=
  match event with
  | .poll round =>
      if st.Reads round then
        ∃ acc, st.SumsOf (st.summed round) acc ∧ st.Uses round acc following
      else following.model = st.model ∧ following.statSolves = st.statSolves ∧
        (following.acc = st.acc ∨ following.acc = .clear)
  | _ => following.model = st.model ∧ following.statSolves = st.statSolves ∧
      following.acc = st.acc

variable {round st} {following : Estimator} {event : Event}

/-- A poll that reads walks the ring and concludes. -/
theorem poll_reads (h : st.Reads round) :
    st.poll round = ({ st with lastRxBufId := st.rxBufId }.walk round >>= fun walked =>
      walked.conclude round) := by
  obtain ⟨hpacked, hnative, hgain, happly, hsane, hmoved, hidle, hsettled⟩ := h
  have hnoted : st.noteEpochs round = st := by
    unfold noteEpochs
    rw [if_neg]
    rintro (hne | hne)
    · exact hne hgain
    · exact hne happly
  have hresumed : st.resume round = { st with lastRxBufId := st.rxBufId } := by
    unfold resume
    simp only [hidle, Bool.false_eq_true, if_false]
  unfold poll
  simp only [hpacked, hnative, hnoted, Bool.true_eq_false, or_self, if_false]
  rw [if_neg (BitVec.not_le.mpr hsane), if_neg hmoved, hresumed, measure]
  simp only [hsettled, Bool.false_eq_true, if_false]

/-- What is done with the sums of a walk. -/
theorem conclude_uses {acc : QecAcc} {walked : Estimator} (hacc : walked.acc = acc)
    (hfolded : walked.history.folded = st.summed round) (hmodel : walked.model = st.model)
    (hsolves : walked.statSolves = st.statSolves) (hdc : walked.dc = st.dc)
    (hconclude : walked.conclude round = .ok following) : st.Uses round acc following := by
  subst hacc
  unfold conclude at hconclude
  split at hconclude
  · split at hconclude
    · unfold nullStep at hconclude
      obtain ⟨mi, hmi, hconclude⟩ := of_bind_ok hconclude
      obtain ⟨mq, hmq, hconclude⟩ := of_bind_ok hconclude
      split at hconclude
      · next hrange =>
          obtain rfl := Except.ok.inj hconclude
          exact .nulls ⟨mi, mq, hrange.1, hrange.2⟩ hmi hmq (by rw [← hdc]) rfl hmodel hsolves
      · cases hconclude
    · obtain rfl := Except.ok.inj hconclude
      exact .keeps rfl hfolded hmodel hsolves hdc
  · split at hconclude
    · unfold solve at hconclude
      obtain ⟨solved, hsolve, hconclude⟩ := of_bind_ok hconclude
      obtain rfl := Except.ok.inj hconclude
      rw [hmodel, hsolves, hdc] at hsolve
      exact .solves solved hsolve rfl rfl (by rw [← hdc]) rfl
    · obtain rfl := Except.ok.inj hconclude
      exact .keeps rfl hfolded hmodel hsolves hdc

/-- A poll that reads uses the sums of the slots it reads and of those in the accumulator. -/
theorem Inv.poll_uses (h : st.Inv) (hworks : round.params.Workable) (hreads : st.Reads round)
    (hpoll : st.poll round = .ok following) :
    ∃ acc, st.SumsOf (st.summed round) acc ∧ st.Uses round acc following := by
  rw [poll_reads hreads] at hpoll
  obtain ⟨-, -, -, -, hsane, -, hidle, -⟩ := hreads
  obtain ⟨walked, hwalk, hconclude⟩ := of_bind_ok hpoll
  obtain ⟨acc, hacc, hwalked⟩ := of_bind_ok hwalk
  have hwalked := Except.ok.inj hwalked
  obtain ⟨seen, hseen, hguard, hdropped, hfolded⟩ := h.walking hidle
  have hstatus := h.steady.status hsane
  obtain ⟨hnumbers, -⟩ := places_spec h.steady hworks.fits hstatus hseen hguard
  exact ⟨acc, walk_sums h.steady hworks.fits hstatus hseen hguard hdropped hfolded hacc,
    conclude_uses (by rw [← hwalked])
      (by rw [← hwalked]; exact congrArg (st.history.folded ++ ·) hnumbers) (by rw [← hwalked])
      (by rw [← hwalked]) (by rw [← hwalked]) hconclude⟩

/-- The model is as it was, and the accumulator unless it was dropped. -/
def Spares (st following : Estimator) : Prop :=
  following.model = st.model ∧ following.statSolves = st.statSolves ∧
    (following.acc = st.acc ∨ following.acc = .clear)

/-- The epochs spare the model. -/
theorem noteEpochs_spares (round : PollRound) (st : Estimator) :
    st.Spares (st.noteEpochs round) := by
  unfold noteEpochs
  split
  · exact ⟨rfl, rfl, .inr rfl⟩
  · exact ⟨rfl, rfl, .inl rfl⟩

/-- So does a stream that goes on. -/
theorem Spares.resume (h : st.Spares following) (round : PollRound) :
    st.Spares (following.resume round) := by
  unfold Estimator.resume
  simp only
  split
  · exact h
  · exact h

/-- A poll that gets past the idle tests without reading finds the estimator settling. -/
theorem settles_of_not_reads (hworks : round.params.Workable) (hnot : ¬ st.Reads round)
    (hpacked : ¬(round.packed12 = false ∨ round.native = false))
    (hsane : ¬(st.noteEpochs round).rxBufId ≥ qecAdcSlotCnt)
    (hmoved : (st.noteEpochs round).rxBufId ≠ (st.noteEpochs round).lastRxBufId) :
    later ((st.noteEpochs round).resume round).settleUntil round.jiffies = true := by
  obtain hfresh | ⟨hidle, -, hsettle⟩ := resume_cases round (st.noteEpochs round)
  · rw [hfresh]
    exact later_settleEnd hworks
  · rw [hsettle]
    by_cases hstep : st.dc.radio.gainEpoch ≠ st.dc.lastGainEpoch ∨
        st.dc.radio.applyEpoch ≠ st.dc.lastApplyEpoch
    · rw [noteEpochs, if_pos hstep]
      exact later_settleEnd hworks
    · have hnoted : st.noteEpochs round = st := if_neg hstep
      rw [hnoted] at hsane hmoved hidle ⊢
      rw [not_or, not_not, not_not] at hstep
      rw [not_or, Bool.not_eq_false, Bool.not_eq_false] at hpacked
      by_contra hlater
      exact hnot ⟨hpacked.1, hpacked.2, hstep.1, hstep.2, BitVec.not_le.mp hsane, hmoved, hidle,
        Bool.not_eq_true _ ▸ hlater⟩

/-- A poll that does not read spares the model. -/
theorem poll_spares (hworks : round.params.Workable) (hnot : ¬ st.Reads round)
    (hpoll : st.poll round = .ok following) : st.Spares following := by
  have hnoted := noteEpochs_spares round st
  unfold poll at hpoll
  split at hpoll
  · obtain rfl := Except.ok.inj hpoll
    exact ⟨rfl, rfl, .inl rfl⟩
  · next hpacked =>
    simp only at hpoll
    split at hpoll
    · obtain rfl := Except.ok.inj hpoll
      exact ⟨hnoted.1, hnoted.2.1, hnoted.2.2⟩
    · next hsane =>
      split at hpoll
      · obtain rfl := Except.ok.inj hpoll
        exact ⟨hnoted.1, hnoted.2.1, hnoted.2.2⟩
      · next hmoved =>
        rw [measure, if_pos (settles_of_not_reads hworks hnot hpacked hsane hmoved)] at hpoll
        obtain rfl := Except.ok.inj hpoll
        obtain ⟨hmodel, hsolves, hacc⟩ := hnoted.resume round
        exact ⟨hmodel, hsolves, hacc⟩

/-- Every event uses the sums of slots that are fresh, or none. -/
theorem Inv.usesFresh (h : st.Inv) (hworks : event.Workable)
    (hnext : st.next event = some following) : UsesFresh st event following := by
  cases event with
  | complete slot =>
      obtain rfl := Option.some.inj hnext
      exact ⟨rfl, rfl, rfl⟩
  | upset rxBufId =>
      obtain ⟨-, rfl⟩ := of_guard hnext
      exact ⟨rfl, rfl, rfl⟩
  | apply codes tuned =>
      unfold Estimator.next at hnext
      obtain ⟨dc, -, rfl⟩ := Option.map_eq_some_iff.mp hnext
      exact ⟨rfl, rfl, rfl⟩
  | reapply gainStep tuned =>
      unfold Estimator.next at hnext
      obtain ⟨dc, -, rfl⟩ := Option.map_eq_some_iff.mp hnext
      exact ⟨rfl, rfl, rfl⟩
  | poll round =>
      have hpoll := poll_of_next hnext
      simp only [UsesFresh]
      split
      · next hreads => exact h.poll_uses hworks hreads hpoll
      · next hnot => exact poll_spares hworks hnot hpoll

variable (round st)

/-- The window that the sums in the accumulator make. -/
def nullWindow : Option Window :=
  let mi := st.acc.si.tdiv st.acc.n
  let mq := st.acc.sq.tdiv st.acc.n
  if h : |mi| ≤ 2048 ∧ |mq| ≤ 2048 then some ⟨mi, mq, h.1, h.2⟩ else none

/-- What the sums are used for, as steps of the null: a window where the null owns them and has
enough, the drift alarm of a solve that updates the model, and nothing otherwise. -/
def usedSteps : List DcNull.Event :=
  if st.dc.Owns round.params.dcNullEnable then
    if (round.params.dcNullMinSamples.signExtend 64).toNat ≤ st.acc.n then
      st.nullWindow.toList.map fun w => .window round.params.null w round.found round.outcome
    else []
  else if later round.jiffies (st.lastSolve + round.params.msecsToJiffies round.params.solveMs) ∧
      (round.params.minSamples.signExtend 64).toNat ≤ st.acc.n then
    match qecSolve round.params.solve ⟨st.acc, st.model, st.statSolves, st.dc.null⟩ with
    | .ok solved =>
        if solved.statSolves = st.statSolves then []
        else [.solve round.params.solve (mean8 st.acc.si st.acc.n) (mean8 st.acc.sq st.acc.n)]
    | .error _ => []
  else []

/-- The look at the epochs, where one has stepped. -/
def epochSteps : List DcNull.Event :=
  if st.dc.radio.gainEpoch ≠ st.dc.lastGainEpoch ∨
      st.dc.radio.applyEpoch ≠ st.dc.lastApplyEpoch then [.epochs] else []

/-- What a poll of a live stream does to the null, once it has read its slots. -/
def readSteps : List DcNull.Event :=
  if later st.settleUntil round.jiffies then []
  else
    match st.walk round with
    | .ok walked => walked.usedSteps round
    | .error _ => []

/-- The steps of the null that an event stands for: those of the client and of the gain loop, and in
a poll of the stream the estimator understands the epochs first, then what its sums are used for. -/
def nullSteps (st : Estimator) : Event → List DcNull.Event
  | .complete _ | .upset _ => []
  | .apply codes tuned => [.apply codes tuned]
  | .reapply gainStep tuned => [.reapply gainStep tuned]
  | .poll round =>
      if round.packed12 = false ∨ round.native = false then []
      else
        let noted := st.noteEpochs round
        st.epochSteps ++
          if noted.rxBufId ≥ qecAdcSlotCnt ∨ noted.rxBufId = noted.lastRxBufId then []
          else (noted.resume round).readSteps round

/-- A step of the null that may touch the codes of the radio. -/
def writes : DcNull.Event → Bool
  | .apply _ _ | .reapply _ _ | .window _ _ _ _ => true
  | .epochs | .solve _ _ _ => false

variable {round st}

/-- The epochs of a poll are those of the machine, if they have stepped at all. -/
theorem noteEpochs_refines (round : PollRound) (st : Estimator) :
    run DcNull.next st.dc st.epochSteps = some (st.noteEpochs round).dc := by
  unfold noteEpochs epochSteps
  split
  · rfl
  · rfl

/-- A quotient that C promises is the exact one. -/
theorem div64_eq {x y value : Int} (h : div64 x y = .ok value) : value = x.tdiv y := by
  unfold div64 at h
  split at h
  · cases h
  · exact ((s64_eq_ok_iff.mp h).2).symm

/-- So is a shifted value. -/
theorem shl64_eq {x value : Int} (h : shl64 x 8 = .ok value) : value = x * 2 ^ 8 := by
  unfold shl64 at h
  rw [if_pos (by decide)] at h
  exact ((s64_eq_ok_iff.mp h).2).symm

/-- A step of the null is a window of its machine. -/
theorem nullStep_refines (howns : st.dc.Owns round.params.dcNullEnable)
    (hstep : st.nullStep round = .ok following) :
    run DcNull.next st.dc (st.nullWindow.toList.map fun w =>
      .window round.params.null w round.found round.outcome) = some following.dc := by
  have howns : st.dc.Owns round.params.null.dcNullEnable := howns
  unfold nullStep at hstep
  obtain ⟨mi, hmi, hstep⟩ := of_bind_ok hstep
  obtain ⟨mq, hmq, hstep⟩ := of_bind_ok hstep
  obtain rfl := div64_eq hmi
  obtain rfl := div64_eq hmq
  split at hstep
  · next hrange =>
      obtain rfl := Except.ok.inj hstep
      have hwindow : st.nullWindow = some ⟨_, _, hrange.1, hrange.2⟩ := dif_pos hrange
      rw [hwindow]
      simp only [Option.toList_some, List.map_cons, List.map_nil, run, DcNull.next, if_pos howns]
      rfl
  · cases hstep

/-- A solve that updates the model counts it, and sounds the drift alarm with the means of the sums;
one that does not leaves the arm of the null. -/
theorem qecSolve_null {params : SolveParams} {solver solved : SolveState}
    (h : qecSolve params solver = .ok solved) :
    solved.statSolves = solver.statSolves ∧ solved.null = solver.null ∨
      solved.statSolves ≠ solver.statSolves ∧
        driftAlarm params solver.null (mean8 solver.acc.si solver.acc.n)
          (mean8 solver.acc.sq solver.acc.n) = .ok solved.null := by
  unfold qecSolve at h
  simp only at h
  obtain ⟨si, hsi, h⟩ := of_bind_ok h
  obtain ⟨mi, hmi, h⟩ := of_bind_ok h
  obtain ⟨sq, hsq, h⟩ := of_bind_ok h
  obtain ⟨mq, hmq, h⟩ := of_bind_ok h
  obtain ⟨_, -, h⟩ := of_bind_ok h
  obtain ⟨_, -, h⟩ := of_bind_ok h
  obtain ⟨_, -, h⟩ := of_bind_ok h
  obtain ⟨_, -, h⟩ := of_bind_ok h
  split at h
  · obtain rfl := Except.ok.inj h
    exact .inl ⟨rfl, rfl⟩
  · obtain ⟨_, -, h⟩ := of_bind_ok h
    obtain ⟨_, -, h⟩ := of_bind_ok h
    obtain ⟨_, -, h⟩ := of_bind_ok h
    obtain ⟨null, hnull, h⟩ := of_bind_ok h
    obtain rfl := Except.ok.inj h
    obtain rfl := shl64_eq hsi
    obtain rfl := shl64_eq hsq
    obtain rfl := div64_eq hmi
    obtain rfl := div64_eq hmq
    refine .inr ⟨?_, hnull⟩
    intro hsame
    simp at hsame

/-- A solve is one of the machine's, or none at all. -/
theorem solve_refines (howns : ¬st.dc.Owns round.params.dcNullEnable) {solved : SolveState}
    (hsolve : qecSolve round.params.solve ⟨st.acc, st.model, st.statSolves, st.dc.null⟩ =
      .ok solved) :
    run DcNull.next st.dc (if solved.statSolves = st.statSolves then []
      else [.solve round.params.solve (mean8 st.acc.si st.acc.n) (mean8 st.acc.sq st.acc.n)]) =
      some { st.dc with null := solved.null } := by
  have howns : ¬st.dc.Owns round.params.solve.dcNullEnable := howns
  obtain ⟨hcount, hnull⟩ | ⟨hcount, halarm⟩ := qecSolve_null hsolve
  · rw [if_pos hcount, hnull]
    rfl
  · rw [if_neg hcount]
    simp only [run, DcNull.next, if_neg howns]
    rw [show driftAlarm _ st.dc.null _ _ = .ok solved.null from halarm]
    rfl

/-- What the accumulator is used for is a window, a solve, or neither. -/
theorem conclude_refines (hstep : st.conclude round = .ok following) :
    run DcNull.next st.dc (st.usedSteps round) = some following.dc := by
  unfold conclude at hstep
  unfold usedSteps
  split at hstep
  · next howns =>
      rw [if_pos howns]
      split at hstep
      · next henough =>
          rw [if_pos henough]
          exact nullStep_refines howns hstep
      · next hfew =>
          rw [if_neg hfew]
          obtain rfl := Except.ok.inj hstep
          rfl
  · next howns =>
      rw [if_neg howns]
      split at hstep
      · next hdue =>
          rw [if_pos hdue]
          obtain ⟨solved, hsolve, hstep⟩ := of_bind_ok hstep
          obtain rfl := Except.ok.inj hstep
          rw [hsolve]
          exact solve_refines howns hsolve
      · next hnotdue =>
          rw [if_neg hnotdue]
          obtain rfl := Except.ok.inj hstep
          rfl

/-- From the settling on. -/
theorem measure_refines (hmeasure : st.measure round = .ok following) :
    run DcNull.next st.dc (st.readSteps round) = some following.dc := by
  unfold measure at hmeasure
  unfold readSteps
  split at hmeasure
  · next hsettling =>
      rw [if_pos hsettling]
      obtain rfl := Except.ok.inj hmeasure
      rfl
  · next hsettled =>
      obtain ⟨walked, hwalk, hconclude⟩ := of_bind_ok hmeasure
      have hused := conclude_refines hconclude
      rw [if_neg hsettled, hwalk]
      obtain ⟨acc, -, hwalked⟩ := of_bind_ok hwalk
      have hdc : walked.dc = st.dc := by rw [← Except.ok.inj hwalked]
      rw [← hdc]
      exact hused

/-- A poll is a run of the null machine: the epochs, and what the accumulator is used for. -/
theorem poll_refines (hpoll : st.poll round = .ok following) :
    run DcNull.next st.dc (st.nullSteps (.poll round)) = some following.dc := by
  have hnoted := noteEpochs_refines round st
  unfold poll at hpoll
  simp only [nullSteps]
  split at hpoll
  · next hblind =>
      rw [if_pos hblind]
      obtain rfl := Except.ok.inj hpoll
      rfl
  · next hseeing =>
      rw [if_neg hseeing, run_append, hnoted]
      simp only at hpoll
      split at hpoll
      · next hinsane =>
          rw [if_pos (.inl hinsane)]
          obtain rfl := Except.ok.inj hpoll
          rfl
      · next hsane =>
          split at hpoll
          · next hidle =>
              rw [if_pos (.inr hidle)]
              obtain rfl := Except.ok.inj hpoll
              rfl
          · next hmoved =>
              rw [if_neg (not_or.mpr ⟨hsane, hmoved⟩), ← resume_dc round (st.noteEpochs round)]
              exact measure_refines hpoll

/-- An event is the steps of the null it stands for. -/
theorem next_refines (hnext : st.next event = some following) :
    run DcNull.next st.dc (st.nullSteps event) = some following.dc := by
  cases event with
  | complete slot =>
      obtain rfl := Option.some.inj hnext
      rfl
  | upset rxBufId =>
      obtain ⟨-, rfl⟩ := of_guard hnext
      rfl
  | apply codes tuned =>
      obtain rfl := Option.some.inj hnext
      rfl
  | reapply gainStep tuned =>
      obtain rfl := Option.some.inj hnext
      rfl
  | poll round => exact poll_refines (poll_of_next hnext)

/-- Steps that write nothing leave the radio. -/
theorem run_radio {null final : DcNull} {steps : List DcNull.Event}
    (hsteps : ∀ step ∈ steps, writes step = false)
    (hrun : run DcNull.next null steps = some final) : final.radio = null.radio := by
  induction steps generalizing null with
  | nil =>
      obtain rfl := Option.some.inj hrun
      rfl
  | cons step rest ih =>
      simp only [run, bind, Option.bind_eq_some_iff] at hrun
      obtain ⟨middle, hstep, hrest⟩ := hrun
      rw [ih (fun other hother => hsteps other (List.mem_cons_of_mem _ hother)) hrest]
      have hquiet := hsteps step List.mem_cons_self
      cases step with
      | apply codes tuned => cases hquiet
      | reapply gainStep tuned => cases hquiet
      | window params w found outcome => cases hquiet
      | epochs =>
          obtain rfl := Option.some.inj hstep
          simp only [DcNull.noteEpochs]
          split <;> split <;> rfl
      | solve params mi mq =>
          simp only [DcNull.next] at hstep
          split at hstep
          · cases hstep
          · split at hstep
            · obtain rfl := Option.some.inj hstep
              rfl
            · cases hstep

/-- The module's defaults but for the least counts of samples, with a jiffy for a millisecond and
the scalar routine. -/
def eager : PollParams :=
  ⟨32#32, 500#32, 1000#32, 1#32, 1#32, false, true, true, 24#32, 80#32, 64#32,
    fun ms => ms.setWidth 64⟩

theorem eager_workable : eager.Workable :=
  ⟨by decide, by decide, by decide⟩

/-- A slot with an offset of 100 counts in both branches. -/
def offsetSlot : RingSlot :=
  ⟨fun _ => ⟨0#32, 256, 0#32, 0⟩, fun _ => 0x0640#16⟩

/-- A round that finds a live stream. -/
def liveRound (jiffies : BitVec 64) : PollRound :=
  ⟨eager, jiffies, true, true, fun _ => 0, true, .applied⟩

/-- The module has been loaded, and the channel is applied before the first poll. -/
def started : Estimator :=
  loaded (fun _ => offsetSlot) 4096 0#64
    (.loaded ⟨.zero, DcNull.legal_zero⟩ ⟨.zero, DcNull.legal_zero⟩ 0#32 1#32)

/-- The stream begins and settles, and the poll behind the settling reads a slot. -/
def probedRun : List Event :=
  [.complete offsetSlot, .poll (liveRound 1000#64), .complete offsetSlot,
    .poll (liveRound 1600#64)]

/-- The offset makes the armed null enter a probe. -/
theorem probedRun_ends :
    ∃ final, run next started probedRun = some final ∧ final.dc.radio.wire = ⟨16, 0⟩ := by
  have hprobed : (run next started probedRun).any
      (fun st => st.dc.radio.wire = ⟨16, 0⟩) = true := by decide +kernel
  obtain ⟨final, hrun, hwire⟩ := (Option.any_eq_true _ _).mp hprobed
  exact ⟨final, hrun, of_decide_eq_true hwire⟩

end Estimator

end RfnmDriver.Rx.Qec
