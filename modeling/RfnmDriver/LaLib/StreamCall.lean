import RfnmDriver.LaLib.DcsPlan

/-!
# A whole stream call

`rfnm_la9310_stream` from the plan to the stream word. Before the word can be sent the DCS frequency
has to be the plan's, and the VSPA kernel one with the plan's capabilities. A new frequency takes a
hard reset of the chip, which restarts the sample clock. A missing capability takes a kernel swap,
and where that fails a hard reset at the same frequency. Only the first of the two is counted in
`rfnm_dcs_reclock_cnt`. Read `streamCall_restarts` and `streamCall_reclockCnt` first.
-/

namespace RfnmDriver.LaLib

/-- `EINVAL`. -/
def eInval : Int := 22

/-- `ENODEV`. -/
def eNoDev : Int := 19

/-- What a stream call reads and writes. -/
structure StreamState where
  session : Session
  /-- `rfnm_si5510_get_dcs_freq`. -/
  dcsFreq : Nat
  /-- `rfnm_stream_send_cnt`. -/
  sendCnt : BitVec 32
  /-- `rfnm_dcs_reclock_cnt`. -/
  reclockCnt : BitVec 32
  /-- How often the sample clock has been restarted. -/
  restarts : Nat

/-- What the parts of a hard reset return. -/
structure ResetAnswers where
  /-- What becomes of the quiesce word. -/
  quiesce : Script
  /-- `stop_sm`. -/
  stop : Int
  /-- The PCIe root port is there. -/
  rootPort : Bool
  /-- `rfnm_pcie_rc_set_disabled(true)`. -/
  suspend : Int
  /-- `rfnm_board_reset_la9310`. -/
  board : Int
  /-- A board reset that fails has restarted the clock nonetheless. -/
  halfway : Bool
  /-- `rfnm_pcie_rc_set_disabled(false)`. -/
  resume : Int
  /-- `la9310_rescan_and_verify`. -/
  rescan : Int
  /-- What the si5510 driver has in its cache after the board reset. -/
  cache : Nat

/-- What the parts of a kernel swap return. -/
structure SwapAnswers where
  /-- `rfnm_vspa_core_busy`. -/
  busy : Bool
  /-- What becomes of the quiesce word. -/
  quiesce : Script
  /-- `stop_sm`. -/
  stop : Int
  /-- `rfnm_vspa_select_for`. -/
  select : Int
  /-- `rfnm_vspa_boot_selected`. -/
  boot : Int

/-- What the other modules answer during one stream call. -/
structure StreamAnswers where
  /-- `rfnm_vspa_registry_has` of the full-duplex capability. -/
  fdxConcurrent : Bool
  /-- `rfnm_si5510_dcs_freq_supported`. -/
  synthesizable : Nat → Bool
  /-- `rfnm_vspa_running_has`. -/
  runningHas : BitVec 32 → Bool
  /-- `rfnm_vspa_select_for`, before a hard reset. -/
  select : BitVec 32 → Int
  swap : SwapAnswers
  reset : ResetAnswers
  /-- `rfnm_rtc_armed`. -/
  armed : Bool
  /-- What becomes of the stream word. -/
  script : Script
  /-- What `rf_send_swcmd` returns when it fails. -/
  sendError : Int

/-! ## Counted sends -/

/-- `rfnm_stream_send_cnt++` for a word of the micro-cycle. -/
def initSends (session : Session) (word : Word) (tries : Tries) : Nat :=
  if word = session.streamWord then 0
  else if (sendWord session word false tries).1 then 1 else 0

/-- The sends that `rfnm_gen_tx_init_cycle` counts. -/
def cycleSends (session : Session) (word : Word) (script : Script) : Nat :=
  let (ok, opened) := initSend session (initWord word) script.initRx
  initSends session (initWord word) script.initRx +
    if ok then initSends opened 0 script.initClose else 0

/-- The sends that `__rfnm_la9310_stream_send` counts. -/
def streamSends (session : Session) (request : Word) (armed : Bool) (script : Script) : Nat :=
  let word := injectWindowed armed request
  if word = session.streamWord then 0
  else if needsInit session word then
    let ready := genTxInitCycle session word script
    cycleSends session word script + if (sendWord ready word false script.main).1 then 1 else 0
  else if (sendWord session word false script.main).1 then 1 else 0

namespace StreamState

variable (state : StreamState)

/-- `rfnm_la9310_stream_send`. Also whether it returns 0. -/
def send (request : Word) (armed : Bool) (script : Script) : Bool × StreamState :=
  let (ok, sent) := streamSend state.session request false armed script
  (ok, { state with
    session := sent
    sendCnt := state.sendCnt + BitVec.ofNat 32 (streamSends state.session request armed script) })

/-- `rfnm_la9310_quiesce`. -/
def quiesce (armed : Bool) (script : Script) : StreamState :=
  { state with
    session := LaLib.quiesce state.session armed script
    sendCnt := if state.session.streamWord = 0 then state.sendCnt
      else state.sendCnt + BitVec.ofNat 32 (streamSends state.session 0 armed script) }

/-- The dedup baseline dies. -/
def forgetWord : StreamState :=
  { state with session := { state.session with streamWord := 0 } }

/-! ## Resets and swaps -/

/-- `rfnm_board_reset_la9310` has been called: the M4 boots anew if the clock was restarted. -/
def boardReset (reset : ResetAnswers) : StreamState :=
  if reset.board = 0 ∨ reset.halfway then
    { state with
      session := { state.session with m4Word := 0 }
      dcsFreq := reset.cache
      restarts := state.restarts + 1 }
  else { state with dcsFreq := reset.cache }

/-- `rfnm_la9310_hard_reprobe`. -/
def hardReprobe (reset : ResetAnswers) : Int × StreamState :=
  if !reset.rootPort then (-eNoDev, state)
  else if reset.suspend ≠ 0 then (reset.suspend, state)
  else
    let toggled := state.boardReset reset
    if reset.board ≠ 0 then (reset.board, toggled)
    else if reset.resume ≠ 0 then (reset.resume, toggled)
    else (reset.rescan, toggled)

/-- `rfnm_hard_reset_la9310`. -/
def hardReset (dcsFreq : Nat) (armed : Bool) (reset : ResetAnswers) : Int × StreamState :=
  if dcsFreq = 0 then (-eInval, state)
  else
    let quiesced := state.quiesce armed reset.quiesce
    if reset.stop ≠ 0 then (reset.stop, quiesced)
    else
      let (ret, reprobed) := quiesced.hardReprobe reset
      if ret ≠ 0 then (ret, reprobed)
      else
        let session := { reprobed.session with phyGen := reprobed.session.phyGen + 1 }
        (0, { reprobed with session := session })

/-- `rfnm_vspa_kernel_swap`. -/
def kernelSwap (armed : Bool) (swap : SwapAnswers) : Int × StreamState :=
  let quiesced := if swap.busy then state.quiesce armed swap.quiesce else state
  if swap.stop ≠ 0 then (swap.stop, quiesced)
  else if swap.select ≠ 0 then (swap.select, quiesced)
  else (swap.boot, quiesced)

/-! ## The call -/

/-- The reclock of `rfnm_la9310_stream`. -/
def reclock (plan : DcsPlan) (answers : StreamAnswers) : Int × StreamState :=
  if ¬ InWindow plan.dcsFreq then (-eInval, state)
  else if !answers.synthesizable plan.dcsFreq then (-eInval, state)
  else if answers.select plan.caps ≠ 0 then (answers.select plan.caps, state)
  else
    let (ret, reset) := state.hardReset plan.dcsFreq answers.armed answers.reset
    if ret ≠ 0 then (ret, reset)
    else (0, { reset.forgetWord with reclockCnt := reset.reclockCnt + 1 })

/-- The kernel swap of `rfnm_la9310_stream`, with the chip reset it falls back to. -/
def swapKernel (plan : DcsPlan) (answers : StreamAnswers) : Int × StreamState :=
  let (ret, swapped) := state.kernelSwap answers.armed answers.swap
  if ret = 0 then (0, swapped.forgetWord)
  else if answers.select plan.caps ≠ 0 then (answers.select plan.caps, swapped)
  else
    let (ret, reset) := swapped.hardReset plan.dcsFreq answers.armed answers.reset
    if ret ≠ 0 then (ret, reset) else (0, reset.forgetWord)

/-- `rfnm_la9310_stream` up to the word: the clock and the kernel are the plan's. -/
def prepare (plan : DcsPlan) (answers : StreamAnswers) : Int × StreamState :=
  if plan.dcsFreq ≠ state.dcsFreq then state.reclock plan answers
  else if !answers.runningHas plan.caps then state.swapKernel plan answers
  else (0, state)

/-- The end of `rfnm_la9310_stream`, with its own look at the cached word. -/
def finish (word : Word) (answers : StreamAnswers) : Int × StreamState :=
  if word ≠ state.session.streamWord then
    let (ok, sent) := state.send word answers.armed answers.script
    (if ok then 0 else answers.sendError, sent)
  else (0, { state with session := dedup state.session word })

end StreamState

/-- `rfnm_la9310_stream`. -/
def streamCall (state : StreamState) (userHz : Nat) (tx : Bool) (rx : Fin 4 → Bool)
    (answers : StreamAnswers) : Int × StreamState :=
  match plan answers.fdxConcurrent userHz tx rx with
  | none => (-eInval, state)
  | some plan =>
      let (ret, ready) := state.prepare plan answers
      if ret ≠ 0 then (ret, ready) else ready.finish (planWord tx rx plan) answers

/-- `rfnm_la9310_samp_rate_ok`: the plan for RX alone. -/
def sampRateOk (fdxConcurrent : Bool) (synthesizable : Nat → Bool) (userHz : Nat) : Bool :=
  (plan fdxConcurrent userHz false fun lane => lane.val = 0).any fun chosen =>
    synthesizable chosen.dcsFreq

/-! ## When the clock restarts -/

/-- The hard reset gets as far as the board's reset controls, and restarts the clock. -/
def ResetAnswers.Restarts (reset : ResetAnswers) : Prop :=
  reset.stop = 0 ∧ reset.rootPort = true ∧ reset.suspend = 0 ∧
    (reset.board = 0 ∨ reset.halfway = true)

/-- The hard reset succeeds. -/
def ResetAnswers.Completes (reset : ResetAnswers) : Prop :=
  reset.stop = 0 ∧ reset.rootPort = true ∧ reset.suspend = 0 ∧ reset.board = 0 ∧
    reset.resume = 0 ∧ reset.rescan = 0

/-- The kernel swap succeeds. -/
def SwapAnswers.Completes (swap : SwapAnswers) : Prop :=
  swap.stop = 0 ∧ swap.select = 0 ∧ swap.boot = 0

/-- The plan has a new DCS frequency, and nothing refuses it before the hard reset. -/
def StreamState.Reclocks (state : StreamState) (plan : DcsPlan) (answers : StreamAnswers) :
    Prop :=
  plan.dcsFreq ≠ state.dcsFreq ∧ InWindow plan.dcsFreq ∧
    answers.synthesizable plan.dcsFreq = true ∧ answers.select plan.caps = 0

/-- The plan needs another kernel at the same DCS frequency, and it cannot be swapped in. -/
def StreamState.FallsBack (state : StreamState) (plan : DcsPlan) (answers : StreamAnswers) :
    Prop :=
  plan.dcsFreq = state.dcsFreq ∧ plan.dcsFreq ≠ 0 ∧ answers.runningHas plan.caps = false ∧
    ¬ answers.swap.Completes ∧ answers.select plan.caps = 0

instance (reset : ResetAnswers) : Decidable reset.Restarts :=
  inferInstanceAs (Decidable (_ ∧ _ ∧ _ ∧ (_ ∨ _)))

instance (reset : ResetAnswers) : Decidable reset.Completes :=
  inferInstanceAs (Decidable (_ ∧ _ ∧ _ ∧ _ ∧ _ ∧ _))

instance (swap : SwapAnswers) : Decidable swap.Completes :=
  inferInstanceAs (Decidable (_ ∧ _ ∧ _))

instance (state : StreamState) (plan : DcsPlan) (answers : StreamAnswers) :
    Decidable (state.Reclocks plan answers) :=
  inferInstanceAs (Decidable (_ ∧ _ ∧ _ ∧ _))

instance (state : StreamState) (plan : DcsPlan) (answers : StreamAnswers) :
    Decidable (state.FallsBack plan answers) :=
  inferInstanceAs (Decidable (_ ∧ _ ∧ _ ∧ _ ∧ _))

/-- The stream call of these channels at this rate restarts the clock. -/
def Restarts (state : StreamState) (userHz : Nat) (tx : Bool) (rx : Fin 4 → Bool)
    (answers : StreamAnswers) : Prop :=
  ∃ chosen ∈ plan answers.fdxConcurrent userHz tx rx,
    (state.Reclocks chosen answers ∨ state.FallsBack chosen answers) ∧ answers.reset.Restarts

/-- It changes the DCS frequency, and the hard reset for it succeeds. -/
def CompletesReclock (state : StreamState) (userHz : Nat) (tx : Bool) (rx : Fin 4 → Bool)
    (answers : StreamAnswers) : Prop :=
  ∃ chosen ∈ plan answers.fdxConcurrent userHz tx rx,
    state.Reclocks chosen answers ∧ answers.reset.Completes

instance (state : StreamState) (userHz : Nat) (tx : Bool) (rx : Fin 4 → Bool)
    (answers : StreamAnswers) : Decidable (Restarts state userHz tx rx answers) :=
  inferInstanceAs (Decidable (∃ chosen ∈ plan answers.fdxConcurrent userHz tx rx, _ ∧ _))

instance (state : StreamState) (userHz : Nat) (tx : Bool) (rx : Fin 4 → Bool)
    (answers : StreamAnswers) : Decidable (CompletesReclock state userHz tx rx answers) :=
  inferInstanceAs (Decidable (∃ chosen ∈ plan answers.fdxConcurrent userHz tx rx, _ ∧ _))

/-! ## What a call counts -/

variable {state : StreamState} {answers : StreamAnswers}

@[simp] theorem restarts_quiesce (armed : Bool) (script : Script) :
    (state.quiesce armed script).restarts = state.restarts := rfl

@[simp] theorem reclockCnt_quiesce (armed : Bool) (script : Script) :
    (state.quiesce armed script).reclockCnt = state.reclockCnt := rfl

@[simp] theorem restarts_forgetWord : state.forgetWord.restarts = state.restarts := rfl

@[simp] theorem reclockCnt_forgetWord : state.forgetWord.reclockCnt = state.reclockCnt := rfl

@[simp] theorem restarts_finish (word : Word) :
    (state.finish word answers).2.restarts = state.restarts := by
  unfold StreamState.finish
  split <;> rfl

@[simp] theorem reclockCnt_finish (word : Word) :
    (state.finish word answers).2.reclockCnt = state.reclockCnt := by
  unfold StreamState.finish
  split <;> rfl

@[simp] theorem restarts_kernelSwap (state : StreamState) (armed : Bool)
    (swap : SwapAnswers) :
    (state.kernelSwap armed swap).2.restarts = state.restarts := by
  unfold StreamState.kernelSwap
  dsimp only
  split <;> split <;> (try split) <;> rfl

@[simp] theorem reclockCnt_kernelSwap (state : StreamState) (armed : Bool)
    (swap : SwapAnswers) :
    (state.kernelSwap armed swap).2.reclockCnt = state.reclockCnt := by
  unfold StreamState.kernelSwap
  dsimp only
  split <;> split <;> (try split) <;> rfl

/-- A kernel swap succeeds when all of its parts do. -/
theorem kernelSwap_ok (state : StreamState) (armed : Bool) (swap : SwapAnswers) :
    (state.kernelSwap armed swap).1 = 0 ↔ swap.Completes := by
  unfold StreamState.kernelSwap SwapAnswers.Completes
  dsimp only
  by_cases hstop : swap.stop = 0
  · by_cases hselect : swap.select = 0 <;> simp [hstop, hselect]
  · simp [hstop]

/-- The board reset restarts the clock, unless it fails before that. -/
theorem boardReset_spec (state : StreamState) (reset : ResetAnswers) :
    (state.boardReset reset).restarts =
        state.restarts + (if reset.board = 0 ∨ reset.halfway = true then 1 else 0) ∧
      (state.boardReset reset).reclockCnt = state.reclockCnt := by
  unfold StreamState.boardReset
  split <;> exact ⟨rfl, rfl⟩

/-- A reprobe restarts the clock when it gets to the board reset. -/
theorem hardReprobe_spec (state : StreamState) (reset : ResetAnswers) :
    (state.hardReprobe reset).2.restarts = state.restarts +
        (if reset.rootPort = true ∧ reset.suspend = 0 ∧ (reset.board = 0 ∨ reset.halfway = true)
          then 1 else 0) ∧
      (state.hardReprobe reset).2.reclockCnt = state.reclockCnt ∧
      ((state.hardReprobe reset).1 = 0 ↔ reset.rootPort = true ∧ reset.suspend = 0 ∧
        reset.board = 0 ∧ reset.resume = 0 ∧ reset.rescan = 0) := by
  obtain ⟨hrestarts, hcnt⟩ := boardReset_spec state reset
  unfold StreamState.hardReprobe
  by_cases hport : reset.rootPort = true
  · by_cases hsuspend : reset.suspend = 0
    · by_cases hboard : reset.board = 0
      · by_cases hresume : reset.resume = 0 <;>
          simp [hport, hsuspend, hboard, hresume, hrestarts, hcnt]
      · simp [hport, hsuspend, hboard, hrestarts, hcnt]
    · simp [hport, hsuspend]
  · simp [hport, eNoDev]

/-- A hard reset restarts the clock when it gets to the board reset, whatever comes after. -/
theorem hardReset_spec (state : StreamState) {dcsFreq : Nat} (hdcs : dcsFreq ≠ 0)
    (armed : Bool) (reset : ResetAnswers) :
    (state.hardReset dcsFreq armed reset).2.restarts =
        state.restarts + (if reset.Restarts then 1 else 0) ∧
      (state.hardReset dcsFreq armed reset).2.reclockCnt = state.reclockCnt ∧
      ((state.hardReset dcsFreq armed reset).1 = 0 ↔ reset.Completes) := by
  obtain ⟨hrestarts, hcnt, hok⟩ :=
    hardReprobe_spec (state.quiesce armed reset.quiesce) reset
  unfold StreamState.hardReset ResetAnswers.Restarts ResetAnswers.Completes
  by_cases hstop : reset.stop = 0
  · by_cases hret : ((state.quiesce armed reset.quiesce).hardReprobe reset).1 = 0
    · have hall := hok.mp hret
      simp only [hdcs, hstop, hret, if_false, ne_eq, not_true_eq_false, true_and]
      exact ⟨hrestarts, hcnt, iff_of_true trivial hall⟩
    · simp only [hdcs, hstop, hret, if_false, ne_eq, not_true_eq_false, not_false_eq_true, if_true,
        true_and]
      exact ⟨hrestarts, hcnt, iff_of_false id fun hall => hret (hok.mpr hall)⟩
  · simp [hdcs, hstop]

/-- A reclock restarts the clock when it gets to the hard reset and that one does, and is counted
when the hard reset succeeds. -/
theorem reclock_spec {plan : DcsPlan} (hfreq : plan.dcsFreq ≠ state.dcsFreq) :
    (state.reclock plan answers).2.restarts = state.restarts +
        (if state.Reclocks plan answers ∧ answers.reset.Restarts then 1 else 0) ∧
      (state.reclock plan answers).2.reclockCnt = state.reclockCnt +
        (if state.Reclocks plan answers ∧ answers.reset.Completes then 1 else 0) := by
  unfold StreamState.reclock StreamState.Reclocks
  by_cases hwindow : InWindow plan.dcsFreq
  · by_cases hsynth : answers.synthesizable plan.dcsFreq = true
    · by_cases hselect : answers.select plan.caps = 0
      · have hdcs : plan.dcsFreq ≠ 0 := by
          have hmin := hwindow.2
          unfold dcsMinHz at hmin
          omega
        obtain ⟨hrestarts, hcnt, hok⟩ :=
          hardReset_spec state hdcs answers.armed answers.reset
        by_cases hret : (state.hardReset plan.dcsFreq answers.armed answers.reset).1 = 0
        · have hall := hok.mp hret
          simp only [hwindow, hsynth, hselect, hret, hfreq, hall, not_true_eq_false, if_false,
            ne_eq, Bool.not_true, not_false_eq_true, true_and, if_true, Bool.false_eq_true]
          exact ⟨hrestarts, congrArg (· + 1) hcnt⟩
        · have hnot : ¬ answers.reset.Completes := fun hall => hret (hok.mpr hall)
          simp only [hwindow, hsynth, hselect, hret, hfreq, hnot, not_true_eq_false, if_false,
            ne_eq, Bool.not_true, not_false_eq_true, true_and, if_true, Bool.false_eq_true]
          exact ⟨hrestarts, hcnt.trans (BitVec.add_zero _).symm⟩
      · simp [hwindow, hsynth, hselect]
    · simp [hwindow, hsynth]
  · simp [hwindow]

/-- A kernel swap restarts the clock when it falls back to a hard reset that does. It is never
counted. -/
theorem swapKernel_spec {plan : DcsPlan} (hfreq : plan.dcsFreq = state.dcsFreq)
    (hlacks : answers.runningHas plan.caps = false) :
    (state.swapKernel plan answers).2.restarts = state.restarts +
        (if state.FallsBack plan answers ∧ answers.reset.Restarts then 1 else 0) ∧
      (state.swapKernel plan answers).2.reclockCnt = state.reclockCnt := by
  have hswap := kernelSwap_ok state answers.armed answers.swap
  have hrestarts := restarts_kernelSwap state answers.armed answers.swap
  have hcnt := reclockCnt_kernelSwap state answers.armed answers.swap
  unfold StreamState.swapKernel StreamState.FallsBack
  by_cases hret : (state.kernelSwap answers.armed answers.swap).1 = 0
  · have hcompletes := hswap.mp hret
    simp [hret, hcompletes]
  · have hfails : ¬ answers.swap.Completes := fun hcompletes => hret (hswap.mpr hcompletes)
    by_cases hselect : answers.select plan.caps = 0
    · by_cases hdcs : plan.dcsFreq = 0
      · simp [hret, hselect, hdcs, StreamState.hardReset, eInval]
      · obtain ⟨hreset, hkept, -⟩ := hardReset_spec
          (state.kernelSwap answers.armed answers.swap).2 hdcs answers.armed answers.reset
        rw [hrestarts] at hreset
        rw [hcnt] at hkept
        simp only [hret, hselect, hdcs, hfails, hlacks, ← hfreq, if_false, ne_eq, not_true_eq_false,
          not_false_eq_true, true_and]
        split <;> exact ⟨hreset, hkept⟩
    · simp [hret, hselect]

/-- Getting the clock and the kernel ready restarts the clock by a reclock or by a fallback, and
counts the reclock. -/
theorem prepare_spec (plan : DcsPlan) :
    (state.prepare plan answers).2.restarts = state.restarts +
        (if (state.Reclocks plan answers ∨ state.FallsBack plan answers) ∧ answers.reset.Restarts
          then 1 else 0) ∧
      (state.prepare plan answers).2.reclockCnt = state.reclockCnt +
        (if state.Reclocks plan answers ∧ answers.reset.Completes then 1 else 0) := by
  unfold StreamState.prepare
  by_cases hfreq : plan.dcsFreq = state.dcsFreq
  · have hreclocks : ¬ state.Reclocks plan answers := fun h => h.1 hfreq
    rw [if_neg (not_not_intro hfreq)]
    by_cases hlacks : answers.runningHas plan.caps = false
    · obtain ⟨hrestarts, hcnt⟩ := swapKernel_spec hfreq hlacks
      simp only [hlacks, Bool.not_false, if_true, hreclocks, false_or, false_and, if_false]
      exact ⟨hrestarts, hcnt.trans (BitVec.add_zero _).symm⟩
    · have hfalls : ¬ state.FallsBack plan answers := fun h => hlacks h.2.2.1
      simp [hlacks, hreclocks, hfalls]
  · have hfalls : ¬ state.FallsBack plan answers := fun h => hfreq h.1
    rw [if_pos hfreq]
    simp only [hfalls, or_false]
    exact reclock_spec hfreq

/-- A stream call leaves the counters where getting ready for it has put them. -/
theorem streamCall_of_plan {userHz : Nat} {tx : Bool} {rx : Fin 4 → Bool} {chosen : DcsPlan}
    (hplan : plan answers.fdxConcurrent userHz tx rx = some chosen) :
    (streamCall state userHz tx rx answers).2.restarts =
        (state.prepare chosen answers).2.restarts ∧
      (streamCall state userHz tx rx answers).2.reclockCnt =
        (state.prepare chosen answers).2.reclockCnt := by
  unfold streamCall
  rw [hplan]
  dsimp only
  split
  · exact ⟨rfl, rfl⟩
  · exact ⟨restarts_finish _, reclockCnt_finish _⟩

/-- A stream call restarts the clock when it reclocks it or falls back to a chip reset, and that one
gets to the board. -/
theorem streamCall_restarts (userHz : Nat) (tx : Bool) (rx : Fin 4 → Bool) :
    (streamCall state userHz tx rx answers).2.restarts =
      state.restarts + (if Restarts state userHz tx rx answers then 1 else 0) := by
  cases hplan : plan answers.fdxConcurrent userHz tx rx with
  | none => simp [streamCall, Restarts, hplan]
  | some chosen =>
      rw [(streamCall_of_plan hplan).1, (prepare_spec chosen).1]
      simp [Restarts, hplan]

/-- Only a reclock that succeeds is counted. -/
theorem streamCall_reclockCnt (userHz : Nat) (tx : Bool) (rx : Fin 4 → Bool) :
    (streamCall state userHz tx rx answers).2.reclockCnt = state.reclockCnt +
      (if CompletesReclock state userHz tx rx answers then 1 else 0) := by
  cases hplan : plan answers.fdxConcurrent userHz tx rx with
  | none => simp [streamCall, CompletesReclock, hplan]
  | some chosen =>
      rw [(streamCall_of_plan hplan).2, (prepare_spec chosen).2]
      simp [CompletesReclock, hplan]

/-- A reclock that succeeds has restarted the clock. -/
theorem restarts_of_completesReclock {userHz : Nat} {tx : Bool} {rx : Fin 4 → Bool}
    (h : CompletesReclock state userHz tx rx answers) : Restarts state userHz tx rx answers := by
  obtain ⟨chosen, hplan, hreclocks, hstop, hport, hsuspend, hboard, -⟩ := h
  exact ⟨chosen, hplan, .inl hreclocks, hstop, hport, hsuspend, .inl hboard⟩

end RfnmDriver.LaLib
