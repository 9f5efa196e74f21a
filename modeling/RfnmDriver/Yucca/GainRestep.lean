import RfnmDriver.Yucca.Convergence

/-!
# Gain steps on the Yucca board

A lane that is on is applied again with another gain, as the gain control does it. `Quiet` says that
this is at most one call, the SetGain of the lane. The PLL has the frequency of the channel applied
last, so `quiet_iff` asks that this was one with the frequency of the lane.
-/

namespace RfnmDriver.Yucca

open RefusableCalls Proc StepSystem

namespace Board

variable (board : Board)

/-- An apply that succeeds. -/
def nextSuccess (event : Event) : Option Board :=
  if board.offers event ∧ (board.apply event).2 = true then some (board.apply event).1 else none

/-- The channel of a lane with another gain. -/
def regained (lane : Lane) (gain : Int) : RxCh := { board.rxS lane with gain := gain }

/-- The calls of an RX apply with it. -/
def restepCalls (lane : Lane) (gain : Int) : Proc Mt Unit :=
  applyProc (board.rxWanted lane (board.regained lane gain)) (board.regained lane gain).on
    (setRxGain lane (rxGainCode gain))

/-- The calls with those of the fail-safe. -/
def restep (lane : Lane) (gain : Int) : Proc Mt Bool := guarded (board.restepCalls lane gain)

/-- No call is made, or the SetGain of the lane alone. Of a longer list the answers that are left
show how many calls there were. -/
def OneCall (lane : Lane) (gain : Int) (answer : Bool) : Prop :=
  ∀ later, let ended := (board.restep lane gain board.mt (answer :: later)).2
    ended.1.chip = board.mt.chip ∧ ended.2 = answer :: later ∨
      board.mt.chip.setRxGain lane (rxGainCode gain) = some ended.1.chip ∧ ended.2 = later

/-- The apply, where the chip gives this answer first and any others later, leaves everything but
the gain of the lane. -/
structure Quiet (lane : Lane) (gain : Int) (answer : Bool) : Prop where
  calls : board.OneCall lane gain answer
  /-- The PLL, the path, the bandwidths and the mode. -/
  state : ∀ later, let chip := (board.rxSet lane (board.regained lane gain)
    (answer :: later)).1.mt.chip
    chip.state = board.mt.chip.state
  rxGain : ∀ later, let chip := (board.rxSet lane (board.regained lane gain)
    (answer :: later)).1.mt.chip
    ∀ other, other ≠ lane → chip.rxGain other = board.mt.chip.rxGain other
  txGain : ∀ later, let chip := (board.rxSet lane (board.regained lane gain)
    (answer :: later)).1.mt.chip
    chip.txGain = board.mt.chip.txGain

/-- Where only applies succeeded, the mirror has the applied channels but for the LO. -/
structure Settled : Prop where
  tracked : board.Tracked
  path : board.applied.path ≠ .none → board.mt.mirror.path = board.applied.path
  act : board.applied.path ≠ .none → board.mt.mirror.act = board.applied.computeTarget.act
  rxbw : board.applied.path ≠ .none → board.mt.mirror.rxbw = board.applied.computeTarget.rxbw
  txbw : board.applied.path ≠ .none → board.mt.mirror.txbw = board.applied.computeTarget.txbw

end Board

/-! ## Successful applies -/

section Applies

variable {board following : Board} {event : Event} {lane : Lane} {gain : Int}

theorem probed_settled (hasTx : Bool) : (Board.probed hasTx).Settled := by
  have hidle : (Board.probed hasTx).applied.path = .none := by cases hasTx <;> rfl
  have hnone {consequence : Prop} (h : (Board.probed hasTx).applied.path ≠ .none) : consequence :=
    absurd hidle h
  exact ⟨probed_tracked hasTx, hnone, hnone, hnone, hnone⟩

theorem settled_next (h : board.Settled) (hnext : board.nextSuccess event = some following) :
    following.Settled := by
  obtain ⟨⟨-, hsucceeds⟩, rfl⟩ := of_guard hnext
  have htracked := tracked_apply event h.tracked
  rcases apply_cases event h.tracked with
    hparam | ⟨mt, hrefused, -⟩ | ⟨-, mt, hdone, hconverged | ⟨hpath, -, -⟩⟩
  · exact Bool.noConfusion (hsucceeds.symm.trans (congrArg Prod.snd hparam))
  · exact Bool.noConfusion (hsucceeds.symm.trans (congrArg Prod.snd hrefused))
  · rw [hdone] at htracked ⊢
    have htarget := hconverged.holds.target
    exact ⟨htracked, fun _ => htarget.path, fun _ => htarget.act, htarget.rxbw, htarget.txbw⟩
  · rw [hdone] at htracked ⊢
    have hnone {consequence : Prop} (h : (board.wanted event).path ≠ .none) : consequence :=
      absurd hpath h
    exact ⟨htracked, hnone, hnone, hnone, hnone⟩

/-- Every state that successful applies reach. -/
theorem settled_run {hasTx : Bool} {events : List Event}
    (hrun : run Board.nextSuccess (Board.probed hasTx) events = some board) : board.Settled :=
  (always_of_inductive (fun _ _ _ => settled_next) (probed_settled hasTx)).final hrun

theorem path_ne_none (hon : (board.rxS lane).on = true) : board.applied.path ≠ .none := by
  intro hpath
  have hlane : board.applied.path.rx lane = true := (Wanted.path_rx lane).trans hon
  rw [hpath] at hlane
  obtain rfl | rfl := Lane.cases lane
  · cases hlane
  · cases hlane

/-- A gain does not count for the target, and the lane owns the LO. -/
theorem regained_target (hon : (board.rxS lane).on = true) :
    (board.rxWanted lane (board.regained lane gain)).computeTarget =
      { board.applied.computeTarget with loHz := (board.rxS lane).freq } := by
  have hloHz : (board.rxWanted lane (board.regained lane gain)).loHz = (board.rxS lane).freq := by
    have howner : (board.rxWanted lane (board.regained lane gain)).owner =
        some (board.rxS lane).freq := if_pos hon
    rw [Wanted.loHz, howner]
  unfold Wanted.computeTarget
  rw [hloHz]
  obtain rfl | rfl := Lane.cases lane
  · rfl
  · rfl

/-- The apply is a remount exactly where the PLL has another frequency. -/
theorem needsRestructure_regained (h : board.Settled) (hon : (board.rxS lane).on = true) :
    needsRestructure board.mt.mirror
        (board.rxWanted lane (board.regained lane gain)).computeTarget = false ↔
      board.mt.mirror.loHz = (board.rxS lane).freq := by
  have hpath := path_ne_none hon
  rw [regained_target hon, needsRestructure_eq_false]
  constructor
  · intro ⟨_, _, hrest⟩
    exact (hrest hpath).1.symm
  · intro hloHz
    exact ⟨(h.path hpath).symm, (h.act hpath).symm, fun _ =>
      ⟨hloHz.symm, (h.rxbw hpath).symm, (h.txbw hpath).symm⟩⟩

/-- The gain word of a lane that is on is known. -/
theorem rxGainCode_known (h : board.Settled) (hon : (board.rxS lane).on = true) :
    board.mt.mirror.rxGainCode lane = some (rxGainCode (board.rxS lane).gain) := by
  refine h.tracked.rxGain lane ?_
  rw [h.path (path_ne_none hon), Wanted.path_rx]
  exact hon

/-- The chip is ACTIVE while a lane is on. -/
theorem active_of_on (h : board.Settled) (hon : (board.rxS lane).on = true) :
    ∃ word mount mode, board.mt.chip.state = .active word mount mode := by
  have hpath := path_ne_none hon
  have hmirror : board.mt.mirror.path ≠ .none := by rwa [h.path hpath]
  rw [h.tracked.state hmirror, Mirror.state, if_neg hmirror]
  exact ⟨_, _, _, rfl⟩

end Applies

/-! ## Refusals -/

section Refusals

variable {mt : Mt} {left : List Bool} {tries : Nat}

/-- The walk to STANDBY asks for the state first. -/
theorem toStandby_of_refused : toStandby (tries + 1) mt (false :: left) = (none, mt, left) := rfl

/-- And from ACTIVE it goes on with a SetActive. -/
theorem toStandby_of_active {word : Nat} {mount : Mount} {mode : Activation}
    (hstate : mt.chip.state = .active word mount mode) :
    toStandby (tries + 1) mt (true :: false :: left) = (none, mt, left) := by
  have hsys : mt.sysState = .active := by
    unfold Mt.sysState
    rw [hstate]
  have hquery : query Mt.sysState mt (true :: false :: left) =
      (some .active, mt, false :: left) := by
    rw [← hsys]
    rfl
  rw [toStandby, bind_of_some hquery]
  rfl

/-- The fail-safe that follows a refusal begins with a call. -/
theorem guarded_of_none {first : Proc Mt Unit} {after : Mt} {answers : List Bool}
    (h : first mt answers = (none, after, false :: left)) :
    (guarded first mt answers).2.2 = left := by
  have hattempt : attempt first mt answers = (some false, after, false :: left) := by
    rw [attempt, h]
    rfl
  rw [guarded, bind_of_some hattempt]
  rfl

end Refusals

/-! ## The step -/

section Restep

variable {board : Board} {lane : Lane} {gain : Int} {answer : Bool}

/-- What is not quiet leaves fewer answers. -/
theorem not_oneCall (later : List Bool)
    (h : (board.restep lane gain board.mt (answer :: later)).2.2.length < later.length) :
    ¬ board.OneCall lane gain answer := by
  intro hcall
  obtain ⟨-, hleft⟩ | ⟨-, hleft⟩ := hcall later
  · rw [hleft, List.length_cons] at h
    omega
  · rw [hleft] at h
    omega

/-- A remount takes at least two calls. -/
theorem not_oneCall_of_remount (h : board.Settled) (hon : (board.rxS lane).on = true)
    (hneeds : needsRestructure board.mt.mirror
      (board.rxWanted lane (board.regained lane gain)).computeTarget = true) :
    ¬ board.OneCall lane gain answer := by
  obtain ⟨word, mount, mode, hstate⟩ := active_of_on h hon
  refine not_oneCall [false, false] ?_
  have hproc (answers : List Bool) : board.restepCalls lane gain board.mt answers =
      restructure (board.rxWanted lane (board.regained lane gain)) board.mt answers := by
    show (if needsRestructure board.mt.mirror _ then restructure _ else _) board.mt answers = _
    rw [hneeds]
    rfl
  unfold Board.restep
  cases answer with
  | false =>
      have hwalk : restructure (board.rxWanted lane (board.regained lane gain)) board.mt
          [false, false, false] = (none, board.mt, [false, false]) :=
        bind_of_none toStandby_of_refused
      rw [guarded_of_none ((hproc _).trans hwalk)]
      decide
  | true =>
      have hwalk : restructure (board.rxWanted lane (board.regained lane gain)) board.mt
          [true, false, false] = (none, board.mt, [false]) :=
        bind_of_none (toStandby_of_active hstate)
      rw [guarded_of_none ((hproc _).trans hwalk)]
      decide

/-! ### The gain word -/

section GainWord

variable {mt : Mt} {code : Nat} {answers left : List Bool}

theorem setRxGain_of_known (hknown : mt.mirror.rxGainCode lane = some code) :
    setRxGain lane code mt answers = (some (), mt, answers) := by
  show onlyIf (!decide (mt.mirror.rxGainCode lane = some code)) _ mt answers = _
  rw [decide_eq_true hknown]
  rfl

theorem setRxGain_of_unknown (hunknown : mt.mirror.rxGainCode lane ≠ some code) :
    setRxGain lane code mt answers =
      (api (·.setRxGain lane code) >>= fun _ => keep (·.putRxGain lane code)) mt answers := by
  show onlyIf (!decide (mt.mirror.rxGainCode lane = some code)) _ mt answers = _
  rw [decide_eq_false hunknown]
  rfl

theorem setRxGain_of_refused (hunknown : mt.mirror.rxGainCode lane ≠ some code) :
    setRxGain lane code mt (false :: left) = (none, mt, left) := by
  rw [setRxGain_of_unknown hunknown]
  exact bind_of_none rfl

theorem setRxGain_of_accepted {chip : Mt3812} (hunknown : mt.mirror.rxGainCode lane ≠ some code)
    (hchip : mt.chip.setRxGain lane code = some chip) :
    setRxGain lane code mt (true :: left) =
      (some (), ⟨chip, mt.mirror.putRxGain lane code⟩, left) := by
  have hcall : api (·.setRxGain lane code) mt (true :: left) =
      (some (), { mt with chip := chip }, left) := by
    exact call_of_some (congrArg (Option.map fun chip => { mt with chip := chip }) hchip)
  rw [setRxGain_of_unknown hunknown, bind_of_some hcall]
  rfl

end GainWord

/-- At the frequency of the PLL the apply writes the gain word. -/
theorem restepCalls_of_loHz (h : board.Settled) (hon : (board.rxS lane).on = true)
    (hloHz : board.mt.mirror.loHz = (board.rxS lane).freq) (answers : List Bool) :
    board.restepCalls lane gain board.mt answers =
      setRxGain lane (rxGainCode gain) board.mt answers := by
  have hon' : (board.regained lane gain).on = true := hon
  show (if needsRestructure board.mt.mirror _ then _ else onlyIf _ _) board.mt answers = _
  rw [(needsRestructure_regained h hon).mpr hloHz, hon']
  rfl

/-- The chip of an apply in the envelope. -/
theorem rxSet_mt (hfreq : inEnvelope (board.rxS lane).freq = true) (answers : List Bool) :
    (board.rxSet lane (board.regained lane gain) answers).1.mt =
      (board.restep lane gain board.mt answers).2.1 := by
  have hvalid : ((board.regained lane gain).on && !inEnvelope (board.regained lane gain).freq) =
      false := by
    show (_ && !inEnvelope (board.rxS lane).freq) = false
    rw [hfreq]
    exact Bool.and_false _
  unfold Board.rxSet
  rw [hvalid, if_neg Bool.false_ne_true]
  dsimp only
  split <;> rfl

/-- The one call leaves all but the gain of the lane. -/
theorem Board.OneCall.quiet (h : board.OneCall lane gain answer)
    (hfreq : inEnvelope (board.rxS lane).freq = true) : board.Quiet lane gain answer := by
  have hchip (later : List Bool) :
      let chip := (board.rxSet lane (board.regained lane gain) (answer :: later)).1.mt.chip
      chip.state = board.mt.chip.state ∧
        (∀ other, other ≠ lane → chip.rxGain other = board.mt.chip.rxGain other) ∧
        chip.txGain = board.mt.chip.txGain := by
    dsimp only
    rw [rxSet_mt hfreq]
    obtain ⟨hsame, -⟩ | ⟨hset, -⟩ := h later
    · rw [hsame]
      exact ⟨rfl, fun _ _ => rfl, rfl⟩
    · obtain ⟨-, hset⟩ := of_guard hset
      rw [hset]
      exact ⟨rfl, fun _ hother => if_neg hother, rfl⟩
  exact ⟨h, fun later => (hchip later).1, fun later => (hchip later).2.1,
    fun later => (hchip later).2.2⟩

/-- At the frequency of the PLL a new word takes one call, unless the chip refuses it. -/
theorem oneCall_of_loHz (h : board.Settled) (hon : (board.rxS lane).on = true)
    (hloHz : board.mt.mirror.loHz = (board.rxS lane).freq)
    (hword : rxGainCode gain = rxGainCode (board.rxS lane).gain ∨ answer = true) :
    board.OneCall lane gain answer := by
  intro later
  have hcalls : board.restepCalls lane gain board.mt (answer :: later) =
      setRxGain lane (rxGainCode gain) board.mt (answer :: later) :=
    restepCalls_of_loHz h hon hloHz _
  by_cases hknown : board.mt.mirror.rxGainCode lane = some (rxGainCode gain)
  · rw [setRxGain_of_known hknown] at hcalls
    rw [Board.restep, guarded_of_some hcalls]
    exact .inl ⟨rfl, rfl⟩
  · obtain rfl : answer = true := hword.resolve_left fun hsame =>
      hknown (hsame ▸ rxGainCode_known h hon)
    obtain ⟨word, mount, mode, hstate⟩ := active_of_on h hon
    have hmounted : board.mt.chip.mounted = true := by
      unfold Mt3812.mounted
      rw [hstate]
    obtain ⟨chip, hchip⟩ : ∃ chip, board.mt.chip.setRxGain lane (rxGainCode gain) = some chip :=
      ⟨_, if_pos hmounted⟩
    rw [setRxGain_of_accepted hknown hchip] at hcalls
    rw [Board.restep, guarded_of_some hcalls]
    exact .inr ⟨hchip, rfl⟩

/-- A refused word is answered by the fail-safe, which calls again. -/
theorem not_oneCall_of_refused (h : board.Settled) (hon : (board.rxS lane).on = true)
    (hloHz : board.mt.mirror.loHz = (board.rxS lane).freq)
    (hword : rxGainCode gain ≠ rxGainCode (board.rxS lane).gain) :
    ¬ board.OneCall lane gain false := by
  have hunknown : board.mt.mirror.rxGainCode lane ≠ some (rxGainCode gain) := fun hknown =>
    hword (Option.some.inj (hknown.symm.trans (rxGainCode_known h hon)))
  refine not_oneCall [false] ?_
  have hcalls : board.restepCalls lane gain board.mt [false, false] =
      setRxGain lane (rxGainCode gain) board.mt [false, false] :=
    restepCalls_of_loHz h hon hloHz _
  rw [setRxGain_of_refused hunknown] at hcalls
  rw [Board.restep, guarded_of_none hcalls]
  decide

/-- In every state that successful applies reach, a gain step of a lane that is on is quiet exactly
if the PLL has the frequency of the lane, and the chip does not refuse a word that is new. -/
theorem quiet_iff {hasTx : Bool} {events : List Event}
    (hrun : run Board.nextSuccess (Board.probed hasTx) events = some board)
    (hon : (board.rxS lane).on = true) :
    board.Quiet lane gain answer ↔ board.mt.mirror.loHz = (board.rxS lane).freq ∧
      (rxGainCode gain = rxGainCode (board.rxS lane).gain ∨ answer = true) := by
  have h := settled_run hrun
  constructor
  · intro hquiet
    have hneeds : needsRestructure board.mt.mirror
        (board.rxWanted lane (board.regained lane gain)).computeTarget = false :=
      Bool.eq_false_iff.mpr fun hneeds => not_oneCall_of_remount h hon hneeds hquiet.calls
    have hloHz := (needsRestructure_regained h hon).mp hneeds
    refine ⟨hloHz, or_iff_not_imp_left.mpr fun hword => (Bool.not_eq_false _).mp ?_⟩
    rintro rfl
    exact not_oneCall_of_refused h hon hloHz hword hquiet.calls
  · rintro ⟨hloHz, hword⟩
    exact (oneCall_of_loHz h hon hloHz hword).quiet (h.tracked.envelope.rx lane hon)

theorem quiet_lone_lane :
    ∃ board, run Board.nextSuccess (Board.probed true)
        [.rxSet .rx1 ⟨2500000000, 30, 50, .rfOn⟩ []] = some board ∧
      board.Quiet .rx1 31 true := by
  have hrun : run Board.nextSuccess (Board.probed true)
      [.rxSet .rx1 ⟨2500000000, 30, 50, .rfOn⟩ []] = some _ := rfl
  exact ⟨_, hrun, (quiet_iff hrun (by decide)).mpr ⟨by decide, .inr rfl⟩⟩

/-- A second lane has moved the PLL to its own frequency; a gain of the first one moves it back. -/
theorem second_lane_restep :
    ¬ ∀ events board, run Board.nextSuccess (Board.probed true) events = some board →
      ∀ lane, (board.rxS lane).on = true → ∀ gain answer, board.Quiet lane gain answer := by
  intro h
  have hquiet := h [.rxSet .rx1 ⟨2500000000, 30, 50, .rfOn⟩ [],
    .rxSet .rx2 ⟨2600000000, 30, 50, .rfOn⟩ []] _ rfl .rx1 (by decide) 31 true
  exact absurd (hquiet.state []) (by decide)

end Restep

end RfnmDriver.Yucca
