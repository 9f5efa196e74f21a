import RfnmDriver.Yucca.Walks

/-!
# Whether the Yucca chip, its mirror and the target agree

Runs of TX and RX applies from probe, with any answers of the chip. `converges_iff_parked`: an
apply that succeeds leaves the chip at its target and the mirror at the chip, exactly when none of
the run's applies is one that leaves no lane on while the mirror says unmounted and the chip is
not in STANDBY. The fail-safe makes such a state: it clears the mirror also where the walk to
STANDBY was refused, and such an apply then skips the remount.
-/

namespace RfnmDriver.Yucca

open RefusableCalls Proc StepSystem

/-! ## What an apply is to reach -/

/-- The chip is as the channels want it. The LO is compared in the chip's steps of 500 Hz; an
unmounted chip has no bandwidth. -/
structure Mt3812.Serves (chip : Mt3812) (wanted : Wanted) : Prop where
  state : chip.state = wanted.computeTarget.state
  rxGain : ∀ lane, wanted.path.rx lane = true → chip.rxGain lane = some (wanted.rxCode lane)
  txGain : wanted.path.tx1 = true → chip.txGain = some wanted.txCode

/-- The chip state that the mirror stands for. -/
def Mirror.state (mirror : Mirror) : MtState :=
  if mirror.path = .none then .standby
  else
    .active (mirror.loHz / 500) ⟨mirror.path, bandFor mirror.loHz, mirror.rxbw, mirror.txbw⟩
      mirror.act

/-- The mirror is the chip's. -/
structure Mirror.Shows (mirror : Mirror) (chip : Mt3812) : Prop where
  state : chip.state = mirror.state
  idle : mirror.path = .none → mirror.loHz = 0 ∧ mirror.act = .off
  rxGain : ∀ lane, mirror.path.rx lane = true → mirror.rxGainCode lane = chip.rxGain lane
  txGain : mirror.path.tx1 = true → mirror.txGainCode = chip.txGain

namespace Event

variable (event : Event)

/-- The channel that is applied is on. -/
def on : Bool :=
  match event with
  | .txSet ch _ => ch.on
  | .rxSet _ ch _ => ch.on

def freq : Nat :=
  match event with
  | .txSet ch _ => ch.freq
  | .rxSet _ ch _ => ch.freq

def answers : List Bool :=
  match event with
  | .txSet _ answers => answers
  | .rxSet _ _ answers => answers

/-- The gain step of an apply that does not remount. -/
def gain : Proc Mt Unit :=
  match event with
  | .txSet ch _ => setTxGain (txGainCode ch.power)
  | .rxSet lane ch _ => setRxGain lane (rxGainCode ch.gain)

end Event

/-- The channels of an apply: the one applied, and the applied ones of the others. -/
def Board.wanted (board : Board) : Event → Wanted
  | .txSet ch _ => board.txWanted ch
  | .rxSet lane ch _ => board.rxWanted lane ch

/-- An apply that succeeds leaves the chip as wanted, and the mirror shows it. -/
def Converges (board : Board) (event : Event) (following : Board) : Prop :=
  (board.apply event).2 = true →
    following.mt.chip.Serves (board.wanted event) ∧ following.mt.mirror.Shows following.mt.chip

/-- Where no lane is to be on and the mirror says unmounted, the chip is in STANDBY. -/
def Board.ParkedWhereIdle (board : Board) (event : Event) : Prop :=
  (board.wanted event).path = .none → board.mt.mirror.path = .none →
    board.mt.chip.state = .standby

/-! ## What every apply keeps -/

/-- The applied channels, as an apply that changes none would see them. -/
def Board.applied (board : Board) : Wanted := ⟨board.rxS, board.txS, none⟩

/-- The channels that are on lie in the envelope. -/
structure Wanted.InEnvelope (wanted : Wanted) : Prop where
  rx : ∀ lane, (wanted.rx lane).on = true → inEnvelope (wanted.rx lane).freq = true
  tx : ∀ ch ∈ wanted.tx, ch.on = true → inEnvelope ch.freq = true
  owner : ∀ freq ∈ wanted.owner, inEnvelope freq = true

/-- The mirror says unmounted, or the chip is as it says, with the gains of the applied channels. -/
structure Board.Tracked (board : Board) : Prop where
  envelope : board.applied.InEnvelope
  gains : board.mt.GainsMatch
  idle : board.mt.mirror.path = .none → board.mt.mirror.loHz = 0 ∧ board.mt.mirror.act = .off
  state : board.mt.mirror.path ≠ .none → board.mt.chip.state = board.mt.mirror.state
  rxGain : ∀ lane, board.mt.mirror.path.rx lane = true →
    board.mt.mirror.rxGainCode lane = some (board.applied.rxCode lane)
  txGain : board.mt.mirror.path.tx1 = true →
    board.mt.mirror.txGainCode = some board.applied.txCode

/-- The mirror has the target. -/
structure Mirror.HasTarget (mirror : Mirror) (target : Target) : Prop where
  loHz : mirror.loHz = target.loHz
  path : mirror.path = target.path
  act : mirror.act = target.act
  rxbw : target.path ≠ .none → mirror.rxbw = target.rxbw
  txbw : target.path ≠ .none → mirror.txbw = target.txbw

/-- The mirror has the target and the gains of the wanted lanes. -/
structure Mirror.Holds (mirror : Mirror) (wanted : Wanted) : Prop where
  target : mirror.HasTarget wanted.computeTarget
  rxGain : ∀ lane, wanted.path.rx lane = true →
    mirror.rxGainCode lane = some (wanted.rxCode lane)
  txGain : wanted.path.tx1 = true → mirror.txGainCode = some wanted.txCode

section Wanted

variable {wanted : Wanted} {mirror : Mirror}

theorem Wanted.path_eq_none :
    wanted.path = .none ↔
      (wanted.rx 0).on = false ∧ (wanted.rx 1).on = false ∧ wanted.tx.any TxCh.on = false :=
  Path.mk.injEq .. ▸ Iff.rfl

/-- The path has the lanes that are on. -/
theorem Wanted.path_rx (lane : Lane) : wanted.path.rx lane = (wanted.rx lane).on := by
  match lane with
  | 0 => rfl
  | 1 => rfl

/-- With no lane on there is no LO and nothing to activate. -/
theorem Wanted.idle_of_path (hpath : wanted.path = .none) (howner : wanted.owner = none) :
    wanted.loHz = 0 ∧ wanted.computeTarget.act = .off := by
  obtain ⟨h0, h1, htx⟩ := path_eq_none.mp hpath
  have hfilter : wanted.tx.filter TxCh.on = none := by
    cases h : wanted.tx with
    | none => rfl
    | some tx => simpa [h] using htx
  constructor
  · simp [loHz, howner, hfilter, h0, h1]
  · simp [computeTarget, hpath, Path.none]

theorem loWord_eq {freq : Nat} (hfreq : inEnvelope freq = true) : loWord freq = freq / 500 := by
  simp only [inEnvelope, Bool.and_eq_true, decide_eq_true_eq] at hfreq
  exact Nat.mod_eq_of_lt (by omega)

/-- The LO of channels in the envelope fits its word. -/
theorem Wanted.InEnvelope.loWord_eq (henvelope : wanted.InEnvelope) :
    loWord wanted.loHz = wanted.loHz / 500 := by
  unfold Wanted.loHz
  split
  next freq _ howner => exact Yucca.loWord_eq (henvelope.owner _ howner)
  next tx _ htx =>
    obtain ⟨hmem, hon⟩ := Option.filter_eq_some_iff.mp htx
    exact Yucca.loWord_eq (henvelope.tx _ hmem hon)
  next =>
    split_ifs with h1 h0
    · exact Yucca.loWord_eq (henvelope.rx 1 h1)
    · exact Yucca.loWord_eq (henvelope.rx 0 h0)
    · rfl

theorem Mirror.HasTarget.state {target : Target} (hhas : mirror.HasTarget target) :
    mirror.state = target.state := by
  unfold Mirror.state Target.state
  rw [hhas.path]
  split_ifs with hpath
  · rfl
  · rw [hhas.loHz, hhas.act, hhas.rxbw hpath, hhas.txbw hpath]
    rfl

theorem needsRestructure_eq_false {target : Target} :
    needsRestructure mirror target = false ↔
      target.path = mirror.path ∧ target.act = mirror.act ∧ (target.path ≠ .none →
        target.loHz = mirror.loHz ∧ target.rxbw = mirror.rxbw ∧ target.txbw = mirror.txbw) := by
  simp [needsRestructure, and_assoc]

/-- A restructure brings the mirror to the target. -/
theorem restructured_holds (howner : wanted.path = .none → wanted.owner = none) :
    (mirror.restructured wanted).Holds wanted := by
  unfold Mirror.restructured
  split_ifs with hpath
  · obtain ⟨hlo, hact⟩ := Wanted.idle_of_path hpath (howner hpath)
    refine ⟨⟨hlo.symm, hpath.symm, hact.symm, fun hne => absurd hpath hne,
      fun hne => absurd hpath hne⟩, fun lane hlane => ?_, fun hlane => ?_⟩
    · simp [hpath, Path.rx, Path.none] at hlane
    · simp [hpath, Path.none] at hlane
  · exact ⟨⟨rfl, rfl, rfl, fun _ => rfl, fun _ => rfl⟩, fun lane hlane => if_pos hlane,
      fun hlane => if_pos hlane⟩

end Wanted

/-! ## One apply -/

section Apply

variable {board : Board} {event : Event}

theorem wanted_owner :
    (board.wanted event).owner = if event.on then some event.freq else none := by
  cases event <;> rfl

/-- The path has the channel that is applied, when it is on. -/
theorem path_of_on (hon : event.on = true) : (board.wanted event).path ≠ .none := by
  intro hpath
  obtain ⟨h0, h1, htx⟩ := Wanted.path_eq_none.mp hpath
  cases event with
  | txSet ch answers => exact Bool.noConfusion (hon.symm.trans htx)
  | rxSet lane ch answers =>
      match lane with
      | 0 => exact Bool.noConfusion (hon.symm.trans h0)
      | 1 => exact Bool.noConfusion (hon.symm.trans h1)

/-- An RX apply is about one lane. -/
theorem rxWanted_rxCode {lane other : Lane} {ch : RxCh} (hother : other ≠ lane) :
    (board.rxWanted lane ch).rxCode other = board.applied.rxCode other :=
  congrArg (fun ch : RxCh => rxGainCode ch.gain) (if_neg hother)

theorem rxWanted_rx_self {lane : Lane} {ch : RxCh} : (board.rxWanted lane ch).rx lane = ch :=
  if_pos rfl

/-- The channels of an apply lie in the envelope when the one applied does. -/
theorem wanted_inEnvelope (henvelope : board.applied.InEnvelope)
    (hfreq : event.on = true → inEnvelope event.freq = true) :
    (board.wanted event).InEnvelope := by
  have howner : ∀ freq ∈ (board.wanted event).owner, inEnvelope freq = true := by
    intro freq hmem
    rw [wanted_owner] at hmem
    obtain ⟨hon, rfl⟩ := of_guard hmem
    exact hfreq hon
  cases event with
  | txSet ch answers =>
      refine ⟨henvelope.rx, fun tx htx hon => ?_, howner⟩
      obtain rfl := Option.some.inj htx
      exact hfreq hon
  | rxSet lane ch answers =>
      refine ⟨fun other hon => ?_, henvelope.tx, howner⟩
      change (if other = lane then ch else board.rxS other).on = true at hon
      show inEnvelope (if other = lane then ch else board.rxS other).freq = true
      split_ifs at hon ⊢ with hlane
      · exact hfreq hon
      · exact henvelope.rx other hon

/-- The chip is at the target of the channels, and so is the mirror. -/
structure Mt.Converged (mt : Mt) (wanted : Wanted) : Prop where
  state : mt.chip.state = wanted.computeTarget.state
  holds : mt.mirror.Holds wanted
  gains : mt.GainsMatch

theorem Mt.At.converged {mt : Mt} {mirror : Mirror} {wanted : Wanted}
    (hat : mt.At wanted.computeTarget.state mirror) (hholds : mirror.Holds wanted) :
    mt.Converged wanted :=
  ⟨hat.state, hat.mirror ▸ hholds, hat.gains⟩

/-- What an apply without a remount still has to do about gains. -/
theorem gain_converges (htracked : board.Tracked) (hpath : (board.wanted event).path ≠ .none)
    (hneeds : needsRestructure board.mt.mirror (board.wanted event).computeTarget = false) :
    Meets (onlyIf event.on event.gain) (fun _ after => after.Converged (board.wanted event))
      (fun _ => True) board.mt := by
  have hhas : board.mt.mirror.HasTarget (board.wanted event).computeTarget := by
    obtain ⟨hsame, hact, hrest⟩ := needsRestructure_eq_false.mp hneeds
    obtain ⟨hlo, hrxbw, htxbw⟩ := hrest hpath
    exact ⟨hlo.symm, hsame.symm, hact.symm, fun _ => hrxbw.symm, fun _ => htxbw.symm⟩
  -- without a restructure the chip is in the state the target asks for, but for the gains
  have hat : board.mt.At (board.wanted event).computeTarget.state board.mt.mirror := by
    refine ⟨?_, rfl, htracked.gains⟩
    rw [htracked.state (hhas.path ▸ hpath), hhas.state]
  have hrxGain := hhas.path ▸ htracked.rxGain
  have htxGain := hhas.path ▸ htracked.txGain
  cases event with
  | txSet ch answers =>
      refine meets_onlyIf (fun hon => ?_) fun hoff => hat.converged ⟨hhas, hrxGain, fun htx => ?_⟩
      · refine (setTxGain_walks _ board.mt hat).mono (fun _ after hafter => ?_) fun _ h => h
        exact hafter.converged ⟨⟨hhas.loHz, hhas.path, hhas.act, hhas.rxbw, hhas.txbw⟩,
          hrxGain, fun _ => rfl⟩
      · -- a path with TX1 has the channel of this apply on
        exact Bool.noConfusion (hoff.symm.trans htx)
  | rxSet lane ch answers =>
      refine meets_onlyIf (fun hon => ?_)
        fun hoff => hat.converged ⟨hhas, fun other hother => ?_, htxGain⟩
      · refine (setRxGain_walks lane _ board.mt hat).mono (fun _ after hafter => ?_) fun _ h => h
        refine hafter.converged ⟨⟨hhas.loHz, hhas.path, hhas.act, hhas.rxbw, hhas.txbw⟩,
          fun other hother => ?_, htxGain⟩
        by_cases hlane : other = lane
        · rw [hlane, Board.wanted, Wanted.rxCode, rxWanted_rx_self]
          exact if_pos rfl
        · -- the other lane keeps the word of its applied channel
          rw [Board.wanted, rxWanted_rxCode hlane, ← hrxGain other hother]
          exact if_neg hlane
      · by_cases hlane : other = lane
        · rw [hlane, Wanted.path_rx, Board.wanted, rxWanted_rx_self] at hother
          exact Bool.noConfusion (hoff.symm.trans hother)
        · rw [Board.wanted, rxWanted_rxCode hlane, ← hrxGain other hother]

/-- What an apply comes to that the chip does not refuse. -/
theorem applyProc_meets (htracked : board.Tracked)
    (hfreq : event.on = true → inEnvelope event.freq = true) :
    Meets (Board.applyProc (board.wanted event) event.on event.gain)
      (fun _ after => after.Converged (board.wanted event) ∨
        (board.wanted event).path = .none ∧ board.mt.mirror.path = .none ∧ after = board.mt)
      (fun _ => True) board.mt := by
  refine meets_bind (meets_read ?_)
  cases hneeds : needsRestructure board.mt.mirror (board.wanted event).computeTarget with
  | true =>
      have hwalk :
          Walks (restructure (board.wanted event)) board.mt.chip.state board.mt.mirror _ _ :=
        restructure_walks fun _ => (wanted_inEnvelope htracked.envelope hfreq).loWord_eq
      refine (hwalk board.mt ⟨rfl, rfl, htracked.gains⟩).mono (fun _ after hat => ?_) fun _ h => h
      refine Or.inl (hat.converged (restructured_holds fun hpath => ?_))
      rw [wanted_owner, if_neg fun hon => path_of_on hon hpath]
  | false =>
      -- with no lane on and an unmounted mirror nothing is done, whatever the chip is in
      by_cases hpath : (board.wanted event).path = .none
      · refine meets_onlyIf (fun hon => absurd hpath (path_of_on hon)) fun _ => Or.inr ?_
        exact ⟨hpath, (needsRestructure_eq_false.mp hneeds).1.symm.trans hpath, rfl⟩
      · exact (gain_converges htracked hpath hneeds).mono (fun _ _ => Or.inl) fun _ h => h

/-- The two kinds of apply as one. -/
theorem apply_eq :
    board.apply event =
      if event.on && !inEnvelope event.freq then (board, false)
      else
        match guarded (Board.applyProc (board.wanted event) event.on event.gain) board.mt
          event.answers with
        | (succeeds, mt, _) =>
          if succeeds = some true then
            (⟨mt, (board.wanted event).tx, (board.wanted event).rx⟩, true)
          else ({ board with mt := mt }, false) := by
  cases event <;> rfl

/-- What an apply comes to: its frequency is out of the envelope, or the chip refuses, or it
succeeds, with the chip at the target or with nothing done. -/
theorem apply_cases (event : Event) (htracked : board.Tracked) :
    board.apply event = (board, false) ∨
    (∃ mt : Mt, board.apply event = ({ board with mt := mt }, false) ∧ mt.mirror.Cleared) ∨
    (event.on = true → inEnvelope event.freq = true) ∧
      ∃ mt : Mt, board.apply event =
          (⟨mt, (board.wanted event).tx, (board.wanted event).rx⟩, true) ∧
        (mt.Converged (board.wanted event) ∨
          (board.wanted event).path = .none ∧ board.mt.mirror.path = .none ∧ mt = board.mt) := by
  rw [apply_eq]
  split_ifs with hparam
  · exact Or.inl rfl
  have hfreq : event.on = true → inEnvelope event.freq = true := by simpa using hparam
  have hmeets := guarded_meets (fun _ => False) (applyProc_meets htracked hfreq) event.answers
  rcases hrun : guarded (Board.applyProc (board.wanted event) event.on event.gain) board.mt
    event.answers with ⟨_ | succeeds, mt, left⟩ <;> rw [hrun] at hmeets
  · -- the fail-safe takes every refusal
    exact hmeets.elim
  · cases succeeds with
    | false => exact Or.inr (Or.inl ⟨mt, rfl, hmeets⟩)
    | true => exact Or.inr (Or.inr ⟨hfreq, mt, rfl, hmeets⟩)

end Apply

/-! ## Runs of applies -/

section Runs

variable {board following : Board} {event : Event} {mt : Mt} {wanted : Wanted}

/-- An unmounted mirror makes a tracked board, whatever the chip is in. -/
theorem tracked_of_unmounted (henvelope : board.applied.InEnvelope)
    (hgains : board.mt.GainsMatch) (hpath : board.mt.mirror.path = .none)
    (hidle : board.mt.mirror.loHz = 0 ∧ board.mt.mirror.act = .off) : board.Tracked where
  envelope := henvelope
  gains := hgains
  idle _ := hidle
  state hne := absurd hpath hne
  rxGain lane hlane := by simp [hpath, Path.rx, Path.none] at hlane
  txGain htx := by simp [hpath, Path.none] at htx

theorem probed_tracked (hasTx : Bool) : (Board.probed hasTx).Tracked := by
  refine tracked_of_unmounted ⟨fun lane hon => absurd hon Bool.false_ne_true,
    fun ch hch hon => ?_, nofun⟩ ⟨nofun, nofun⟩ rfl ⟨rfl, rfl⟩
  obtain ⟨-, rfl⟩ := of_guard hch
  exact absurd hon Bool.false_ne_true

theorem Mirror.Cleared.gainsMatch (hcleared : mt.mirror.Cleared) : mt.GainsMatch := by
  refine ⟨fun lane code hcode => ?_, fun code hcode => ?_⟩
  · exact absurd ((hcleared.rxGain lane).symm.trans hcode) nofun
  · exact absurd (hcleared.txGain.symm.trans hcode) nofun

theorem Mt.Converged.path (hconverged : mt.Converged wanted) : mt.mirror.path = wanted.path :=
  hconverged.holds.target.path

/-- An apply that brings the chip to its target leaves a tracked board. -/
theorem Mt.Converged.tracked (hconverged : mt.Converged wanted) (henvelope : wanted.InEnvelope)
    (howner : wanted.path = .none → wanted.owner = none) :
    (⟨mt, wanted.tx, wanted.rx⟩ : Board).Tracked where
  envelope := ⟨henvelope.rx, henvelope.tx, nofun⟩
  gains := hconverged.gains
  idle hpath := by
    have hnone : wanted.path = .none := hconverged.path.symm.trans hpath
    obtain ⟨hlo, hact⟩ := Wanted.idle_of_path hnone (howner hnone)
    exact ⟨hconverged.holds.target.loHz.trans hlo, hconverged.holds.target.act.trans hact⟩
  state _ := hconverged.state.trans hconverged.holds.target.state.symm
  rxGain lane hlane := hconverged.holds.rxGain lane (hconverged.path ▸ hlane)
  txGain htx := hconverged.holds.txGain (hconverged.path ▸ htx)

/-- The chip and the mirror of a converged apply agree. -/
theorem Mt.Converged.serves_shows (hconverged : mt.Converged wanted)
    (howner : wanted.path = .none → wanted.owner = none) :
    mt.chip.Serves wanted ∧ mt.mirror.Shows mt.chip := by
  obtain ⟨hstate, ⟨htarget, hrxGain, htxGain⟩, hgains⟩ := hconverged
  have hpath : mt.mirror.path = wanted.path := htarget.path
  refine ⟨⟨hstate, fun lane hlane => hgains.rx lane _ (hrxGain lane hlane),
    fun htx => hgains.tx _ (htxGain htx)⟩, hstate.trans htarget.state.symm, fun hidle => ?_,
    fun lane hlane => ?_, fun htx => ?_⟩
  · have hnone := hpath.symm.trans hidle
    obtain ⟨hlo, hact⟩ := Wanted.idle_of_path hnone (howner hnone)
    exact ⟨htarget.loHz.trans hlo, htarget.act.trans hact⟩
  · have hcode := hrxGain lane (hpath ▸ hlane)
    rw [hcode, hgains.rx lane _ hcode]
  · have hcode := htxGain (hpath ▸ htx)
    rw [hcode, hgains.tx _ hcode]

theorem owner_of_path (hpath : (board.wanted event).path = .none) :
    (board.wanted event).owner = none := by
  rw [wanted_owner, if_neg fun hon => path_of_on hon hpath]

/-- Every apply keeps the board tracked, refused or not. -/
theorem tracked_apply (event : Event) (htracked : board.Tracked) :
    (board.apply event).1.Tracked := by
  rcases apply_cases event htracked with
    hparam | ⟨mt, hrefused, hcleared⟩ | ⟨hfreq, mt, hdone, hconverged | ⟨hpath, hidle, rfl⟩⟩
  · rw [hparam]
    exact htracked
  · rw [hrefused]
    -- the cleared mirror vouches for nothing, so the refused walk does not matter here
    exact tracked_of_unmounted htracked.envelope hcleared.gainsMatch hcleared.path
      ⟨hcleared.loHz, hcleared.act⟩
  · rw [hdone]
    exact hconverged.tracked (wanted_inEnvelope htracked.envelope hfreq) owner_of_path
  · rw [hdone]
    have henvelope := wanted_inEnvelope htracked.envelope hfreq
    exact tracked_of_unmounted ⟨henvelope.rx, henvelope.tx, nofun⟩ htracked.gains hidle
      (htracked.idle hidle)

theorem tracked_next (htracked : board.Tracked) (hnext : board.next event = some following) :
    following.Tracked := by
  obtain ⟨-, rfl⟩ := of_guard hnext
  exact tracked_apply event htracked

/-- An apply to leave no lane on, under a mirror that says unmounted, touches nothing. -/
theorem apply_of_idle (event : Event) (htracked : board.Tracked)
    (hpath : (board.wanted event).path = .none) (hidle : board.mt.mirror.path = .none) :
    board.apply event =
      (⟨board.mt, (board.wanted event).tx, (board.wanted event).rx⟩, true) := by
  have hoff : event.on = false := Bool.eq_false_iff.mpr fun hon => path_of_on hon hpath
  have hneeds : needsRestructure board.mt.mirror (board.wanted event).computeTarget = false := by
    obtain ⟨-, hact⟩ := Wanted.idle_of_path hpath (owner_of_path hpath)
    refine needsRestructure_eq_false.mpr ⟨hpath.trans hidle.symm, ?_, fun hne => absurd hpath hne⟩
    exact hact.trans (htracked.idle hidle).2.symm
  have hproc : Board.applyProc (board.wanted event) false event.gain board.mt event.answers =
      (some (), board.mt, event.answers) := by
    show (if needsRestructure board.mt.mirror (board.wanted event).computeTarget then
      restructure (board.wanted event) else onlyIf false event.gain) board.mt event.answers = _
    rw [hneeds]
    rfl
  rw [apply_eq, hoff, guarded_of_some hproc]
  rfl

/-- That is right where the chip is in STANDBY. -/
theorem idle_converged (htracked : board.Tracked) (hpath : (board.wanted event).path = .none)
    (hidle : board.mt.mirror.path = .none) (hstate : board.mt.chip.state = .standby) :
    board.mt.Converged (board.wanted event) := by
  obtain ⟨hlo, hact⟩ := Wanted.idle_of_path hpath (owner_of_path hpath)
  obtain ⟨hmirrorLo, hmirrorAct⟩ := htracked.idle hidle
  refine ⟨?_, ⟨⟨hmirrorLo.trans hlo.symm, hidle.trans hpath.symm, hmirrorAct.trans hact.symm,
    fun hne => absurd hpath hne, fun hne => absurd hpath hne⟩, fun lane hlane => ?_,
    fun htx => ?_⟩, htracked.gains⟩
  · rw [hstate, Target.state, Wanted.computeTarget_path, if_pos hpath]
  · simp [hpath, Path.rx, Path.none] at hlane
  · simp [hpath, Path.none] at htx

/-- One apply converges exactly where it is not fooled by an unmounted mirror. -/
theorem converges_iff (htracked : board.Tracked) (hnext : board.next event = some following) :
    Converges board event following ↔ board.ParkedWhereIdle event := by
  obtain ⟨-, rfl⟩ := of_guard hnext
  constructor
  · -- no call was made, so the chip at the target is the chip before
    intro hconverges hpath hidle
    rw [Converges, apply_of_idle event htracked hpath hidle] at hconverges
    have hstate := (hconverges rfl).1.state
    rwa [Target.state, Wanted.computeTarget_path, if_pos hpath] at hstate
  · intro hparked hdone
    rcases apply_cases event htracked with
      hparam | ⟨mt, hrefused, hcleared⟩ | ⟨hfreq, mt, hsucceeds, hend⟩
    · exact absurd hdone (by rw [hparam]; exact Bool.false_ne_true)
    · exact absurd hdone (by rw [hrefused]; exact Bool.false_ne_true)
    · rw [hsucceeds]
      refine Mt.Converged.serves_shows ?_ owner_of_path
      rcases hend with hconverged | ⟨hpath, hidle, rfl⟩
      · exact hconverged
      · exact idle_converged htracked hpath hidle (hparked hpath hidle)

/-- Every apply that succeeds in a run converges exactly if no apply of the run that leaves no lane
on meets an unmounted mirror over a chip that is not in STANDBY. -/
theorem converges_iff_parked (hasTx : Bool) (events : List Event) :
    EveryStep Board.next Converges (Board.probed hasTx) events ↔
      Guarded Board.next Board.ParkedWhereIdle (Board.probed hasTx) events :=
  everyStep_iff_guarded (fun _ _ _ => converges_iff)
    (fun _ _ _ htracked _ hnext => tracked_next htracked hnext) (probed_tracked hasTx)

end Runs

/-- A transmitter that is switched on, given a new power that the chip refuses, as it refuses the
fail-safe's first question, and switched off: no call reaches the chip, which stays ACTIVE. -/
theorem unmounted_mirror_trusted :
    ¬ EveryStep Board.next Converges (Board.probed true)
      [.txSet ⟨2500000000, 0, 50, .rfOn⟩ [], .txSet ⟨2500000000, 5, 50, .rfOn⟩ [false, false],
        .txSet ⟨2500000000, 0, 50, .rfOff⟩ []] := by
  intro hevery
  obtain ⟨-, hrefused⟩ := hevery _ rfl
  obtain ⟨-, hoff⟩ := hrefused _ rfl
  obtain ⟨hserves, -⟩ := (hoff _ rfl).1 (by decide)
  exact absurd hserves.state (by decide)

end RfnmDriver.Yucca
