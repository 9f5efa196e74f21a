import RfnmDriver.Yucca.Convergence
import RfnmDriver.Yucca.TddProfiles

/-!
# The front end of the mounted lanes

An apply remounts the chip for all lanes that are on, and writes the latches of its own lane only.
`FrontEndRight` is what the mounted RX lanes need of the latches; `agrees_iff_leavesRight` says
after which applies that succeed they have it.
-/

namespace RfnmDriver.Yucca

open LatchBit RegisterFile StepSystem

/-- The antenna switch of a lane at receive. -/
def antRx (lane : Lane) : Srb := if lane = .rx1 then (ffAntA, false) else (ffAntB, true)

/-- The LNA of a lane enabled, and bypassed or not as the gain says. -/
def lnaDemand (lane : Lane) (ch : RxCh) : List Srb :=
  let bypass := !decide (lnaGainThreshold ≤ ch.gain)
  if lane = .rx1 then [(antALnaEnb, false), (antALnaByp, bypass)]
  else [(antBLnaEnb, false), (antBLnaByp, bypass)]

/-- The switch that a refused apply of a lane leaves off. -/
def lnaEnb (lane : Lane) : LatchBit := if lane = .rx1 then antALnaEnb else antBLnaEnb

/-- A lane whose LNA is enabled has its antenna. -/
def HasAntenna (fe : Fe) (lane : Lane) : Prop :=
  fe (lnaEnb lane) = false → fe (antRx lane).1 = (antRx lane).2

/-- What the mounted RX lanes need of the latches. With TX mounted the antennas and the pin are
its own. -/
structure FrontEndRight (fe : Fe) (mount : Path) (rxS : Lane → RxCh) : Prop where
  antenna : ∀ lane, mount.rx lane = true → mount.tx1 = false → fe (antRx lane).1 = (antRx lane).2
  lna : ∀ lane, mount.rx lane = true → Meets fe (lnaDemand lane (rxS lane))
  pin : ∀ lane, mount.rx lane = true → mount.tx1 = false → fe mtTrx = true

/-- The apply without what only the latches see. -/
def TddEvent.event : TddEvent → Event
  | .txSet ch _ answers => .txSet ch answers
  | .rxSet lane ch answers => .rxSet lane ch answers

namespace TddBoard

variable (tdd : TddBoard)

/-- The lanes that the chip has mounted. -/
def mounted : Path := tdd.board.mt.chip.getPath.path

def succeeds (event : TddEvent) : Bool := (tdd.board.apply event.event).2

/-- After an apply that succeeds the front end is right. -/
def Agrees (event : TddEvent) (following : TddBoard) : Prop :=
  tdd.succeeds event = true →
    FrontEndRight following.fe following.mounted following.board.rxS

/-- The lanes that an apply leaves mounted: those that are on then. With none on, and a mirror that
says unmounted, the chip is not touched. -/
def leaves (event : TddEvent) : Path :=
  if (tdd.board.wanted event.event).path = .none ∧ tdd.board.mt.mirror.path = .none then
    tdd.mounted
  else (tdd.board.wanted event.event).path

/-- An apply that succeeds finds the LNA of every RX lane right that it leaves mounted and does not
write, and one that switches an RX lane off leaves neither this lane nor the other one without
TX. -/
def LeavesRight (event : TddEvent) : Prop :=
  tdd.succeeds event = true →
    match event with
    | .txSet .. => ∀ lane, (tdd.leaves event).rx lane = true →
        Meets tdd.fe (lnaDemand lane (tdd.board.rxS lane))
    | .rxSet lane ch _ =>
        (∀ other, other ≠ lane → (tdd.leaves event).rx other = true →
          Meets tdd.fe (lnaDemand other (tdd.board.rxS other))) ∧
        (ch.on = false → (tdd.leaves event).rx lane = false ∧
          ∀ other, (tdd.leaves event).rx other = true → (tdd.leaves event).tx1 = true)

/-- What every apply keeps, refused or not. -/
structure Kept : Prop where
  tracked : tdd.board.Tracked
  antenna : tdd.board.txS.any TxCh.on = false → ∀ lane, (tdd.board.rxS lane).on = true →
    HasAntenna tdd.fe lane
  /-- A chip that is mounted behind the mirror's back has both LNAs bypassed. -/
  bypassed : tdd.board.mt.mirror.path = .none → tdd.board.mt.chip.state ≠ .standby →
    Meets tdd.fe yucca0DisableAllLna

end TddBoard

/-! ## What the functions of the front end leave -/

section FrontEnd

variable {fe : Fe} {mount : Path} {rxS : Lane → RxCh} {lane other : Lane} {ch otherCh : RxCh}
  {wanted : Wanted} {txS : Option TxCh} {path : RfPath} {pa : Bool}

theorem mem_lnaDemand {want : Srb} (h : want ∈ lnaDemand lane ch) :
    want.1 = lnaEnb lane ∨ want.1 = (if lane = .rx1 then antALnaByp else antBLnaByp) := by
  rcases lane.cases with rfl | rfl <;> simp [lnaDemand] at h <;> rcases h with rfl | rfl <;>
    simp [lnaEnb]

theorem lnaEnb_mem : (lnaEnb lane, false) ∈ lnaDemand lane ch := by
  rcases lane.cases with rfl | rfl <;> simp [lnaDemand, lnaEnb]

/-- The LNAs are not of the TX. -/
theorem txOn_lna : ∀ want ∈ lnaDemand lane ch, want.1 ∉ driven (yucca0TxOn path pa) := by
  intro want hwant
  rcases mem_lnaDemand hwant with heq | heq <;> rw [heq] <;> rcases lane.cases with rfl | rfl <;>
    cases pa <;> simp [lnaEnb, driven, yucca0TxOn]

theorem txOff_lna : ∀ want ∈ lnaDemand lane ch, want.1 ∉ driven yucca0TxOff := by
  intro want hwant
  rcases mem_lnaDemand hwant with heq | heq <;> rw [heq] <;> rcases lane.cases with rfl | rfl <;>
    decide

/-- Off, the TX gives both antennas and the pin to the lanes. -/
theorem txOff_antenna : store fe yucca0TxOff (antRx lane).1 = (antRx lane).2 := by
  rcases lane.cases with rfl | rfl <;> simp [store, yucca0TxOff, antRx]

theorem txOff_pin : store fe yucca0TxOff mtTrx = true := by
  simp [store, yucca0TxOff]

/-- A lane that is switched on has all it needs. -/
theorem rxOn_own : ∀ want ∈ antRx lane :: (mtTrx, true) :: lnaDemand lane ch,
    store fe (rxOnWrites txS lane ch) want.1 = want.2 := by
  intro want hwant
  unfold rxOnWrites
  rcases lane.cases with rfl | rfl <;> simp [antRx, lnaDemand] at hwant <;>
    rcases hwant with rfl | rfl | rfl | rfl <;> split <;>
    simp [store, rxAntOn, yucca0RxAntAOn, yucca0RxAntBOn, yucca0DisableAllPa]

/-- It leaves the antenna and the LNA of the other one. -/
theorem rxOn_other (hother : other ≠ lane) : ∀ want ∈ antRx other :: lnaDemand other otherCh,
    want.1 ∉ driven (rxOnWrites txS lane ch) := by
  intro want hwant
  unfold rxOnWrites
  obtain ⟨rfl, rfl⟩ | ⟨rfl, rfl⟩ := Lane.cases_ne hother <;>
    simp [antRx, lnaDemand] at hwant <;> rcases hwant with rfl | rfl | rfl <;> split <;>
    simp [driven, rxAntOn, yucca0RxAntAOn, yucca0RxAntBOn, yucca0DisableAllPa]

/-- A lane that is switched off has its LNA off, and the pin is at transmit. -/
theorem rxOff_own :
    store fe (rxOffWrites wanted lane) (lnaEnb lane) = true ∧
      store fe (rxOffWrites wanted lane) mtTrx = false := by
  unfold rxOffWrites
  rcases lane.cases with rfl | rfl <;> split <;>
    simp [store, rxAntOff, yucca0RxAntAOff, yucca0RxAntBOff, failSafeWrites, lnaEnb,
      yucca0DisableAllPa, yucca0DisableAllLna]

/-- The antenna of the other one stays, and so does its LNA unless all are bypassed. -/
theorem rxOff_other (hother : other ≠ lane)
    (hbypassed : wanted.path = .none → Meets fe yucca0DisableAllLna) :
    ∀ want ∈ antRx other :: lnaDemand other otherCh,
      store fe (rxOffWrites wanted lane) want.1 = fe want.1 := by
  intro want hwant
  unfold rxOffWrites
  split
  case isTrue hnone =>
    have hall := hbypassed hnone
    have ha := hall (antALnaByp, true) (by decide)
    have hb := hall (antBLnaByp, true) (by decide)
    obtain ⟨rfl, rfl⟩ | ⟨rfl, rfl⟩ := Lane.cases_ne hother <;>
      simp [antRx, lnaDemand] at hwant <;> rcases hwant with rfl | rfl | rfl <;>
      simp [store, rxAntOff, yucca0RxAntAOff, yucca0RxAntBOff, failSafeWrites,
        yucca0DisableAllPa, yucca0DisableAllLna, ha, hb]
  case isFalse =>
    obtain ⟨rfl, rfl⟩ | ⟨rfl, rfl⟩ := Lane.cases_ne hother <;>
      simp [antRx, lnaDemand] at hwant <;> rcases hwant with rfl | rfl | rfl <;>
      simp [store, rxAntOff, yucca0RxAntAOff, yucca0RxAntBOff]

/-! ### What the mounted lanes find -/

theorem txOn_frontEnd (htx : mount.tx1 = true) :
    FrontEndRight (store fe (yucca0TxOn path pa)) mount rxS ↔
      ∀ lane, mount.rx lane = true → Meets fe (lnaDemand lane (rxS lane)) := by
  have hlna (lane : Lane) : Meets (store fe (yucca0TxOn path pa)) (lnaDemand lane (rxS lane)) ↔
      Meets fe (lnaDemand lane (rxS lane)) := meets_store_of_disjoint txOn_lna
  have hpin : mount.tx1 ≠ false := by simp [htx]
  constructor
  · exact fun h lane hlane => (hlna lane).mp (h.lna lane hlane)
  · exact fun h => ⟨fun _ _ hnone => absurd hnone hpin,
      fun lane hlane => (hlna lane).mpr (h lane hlane), fun _ _ hnone => absurd hnone hpin⟩

theorem txOff_frontEnd :
    FrontEndRight (store fe yucca0TxOff) mount rxS ↔
      ∀ lane, mount.rx lane = true → Meets fe (lnaDemand lane (rxS lane)) := by
  have hlna (lane : Lane) : Meets (store fe yucca0TxOff) (lnaDemand lane (rxS lane)) ↔
      Meets fe (lnaDemand lane (rxS lane)) := meets_store_of_disjoint txOff_lna
  constructor
  · exact fun h lane hlane => (hlna lane).mp (h.lna lane hlane)
  · exact fun h => ⟨fun _ _ _ => txOff_antenna, fun lane hlane => (hlna lane).mpr (h lane hlane),
      fun _ _ _ => txOff_pin⟩

theorem rxOn_frontEnd
    (hantenna : mount.tx1 = false → ∀ other, other ≠ lane → mount.rx other = true →
      HasAntenna fe other) :
    FrontEndRight (store fe (rxOnWrites txS lane ch)) mount (withLane rxS lane ch) ↔
      ∀ other, other ≠ lane → mount.rx other = true →
        Meets fe (lnaDemand other (rxS other)) := by
  have hown : ∀ want ∈ antRx lane :: (mtTrx, true) :: lnaDemand lane ch,
      store fe (rxOnWrites txS lane ch) want.1 = want.2 := rxOn_own
  have hleft (other : Lane) (hother : other ≠ lane) :
      ∀ want ∈ antRx other :: lnaDemand other (rxS other),
        want.1 ∉ driven (rxOnWrites txS lane ch) := rxOn_other hother
  constructor
  · intro h other hother hmounted
    have hlna := h.lna other hmounted
    rw [withLane_of_ne hother] at hlna
    exact (meets_store_of_disjoint fun want hwant =>
      hleft other hother want (List.mem_cons_of_mem _ hwant)).mp hlna
  · intro h
    refine ⟨fun other hmounted htx => ?_, fun other hmounted => ?_, fun _ _ _ => ?_⟩
    · by_cases hother : other = lane
      · rw [hother]
        exact hown _ List.mem_cons_self
      · -- The other lane has its antenna since its LNA is enabled.
        rw [store_of_not_driven (hleft other hother _ List.mem_cons_self)]
        exact hantenna htx other hother hmounted (h other hother hmounted _ lnaEnb_mem)
    · by_cases hother : other = lane
      · rw [hother, withLane_self]
        exact fun want hwant => hown want (List.mem_cons_of_mem _ (List.mem_cons_of_mem _ hwant))
      · rw [withLane_of_ne hother]
        exact (meets_store_of_disjoint fun want hwant =>
          hleft other hother want (List.mem_cons_of_mem _ hwant)).mpr (h other hother hmounted)
    · exact hown _ (List.mem_cons_of_mem _ List.mem_cons_self)

theorem rxOff_frontEnd
    (hbypassed : ∀ other, mount.rx other = true → wanted.path = .none →
      Meets fe yucca0DisableAllLna) :
    FrontEndRight (store fe (rxOffWrites wanted lane)) mount (withLane rxS lane ch) ↔
      (∀ other, other ≠ lane → mount.rx other = true →
        Meets fe (lnaDemand other (rxS other))) ∧
      mount.rx lane = false ∧ ∀ other, mount.rx other = true → mount.tx1 = true := by
  have hother (other : Lane) (hne : other ≠ lane) (hmounted : mount.rx other = true) :
      Meets (store fe (rxOffWrites wanted lane)) (lnaDemand other (rxS other)) ↔
        Meets fe (lnaDemand other (rxS other)) :=
    forall₂_congr fun want hwant => by
      rw [rxOff_other hne (hbypassed other hmounted) want (List.mem_cons_of_mem _ hwant)]
  have howner (h : ∀ other, mount.rx other = true → mount.tx1 = true) (other : Lane)
      (hmounted : mount.rx other = true) : mount.tx1 ≠ false := by simp [h other hmounted]
  constructor
  · intro h
    refine ⟨fun other hne hmounted => ?_, Bool.eq_false_iff.mpr fun hmounted => ?_,
      fun other hmounted => ?_⟩
    · have hlna := h.lna other hmounted
      rw [withLane_of_ne hne] at hlna
      exact (hother other hne hmounted).mp hlna
    · have henabled := h.lna lane hmounted _ lnaEnb_mem
      exact Bool.noConfusion (rxOff_own.1.symm.trans henabled)
    · by_contra hnone
      have hpin := h.pin other hmounted (Bool.eq_false_iff.mpr hnone)
      exact Bool.noConfusion (rxOff_own.2.symm.trans hpin)
  · rintro ⟨hlna, hlane, htx⟩
    refine ⟨fun other hmounted hnone => absurd hnone (howner htx other hmounted),
      fun other hmounted => ?_,
      fun other hmounted hnone => absurd hnone (howner htx other hmounted)⟩
    have hne : other ≠ lane := fun heq => Bool.noConfusion (hlane.symm.trans (heq ▸ hmounted))
    rw [withLane_of_ne hne]
    exact (hother other hne hmounted).mpr (hlna other hne hmounted)

/-! ### Antennas -/

theorem HasAntenna.failSafe (h : HasAntenna fe lane) :
    HasAntenna (store fe failSafeWrites) lane := by
  have hleft : ∀ bit ∈ [lnaEnb lane, (antRx lane).1], bit ∉ driven failSafeWrites := by
    rcases lane.cases with rfl | rfl <;> decide
  unfold HasAntenna
  rw [store_of_not_driven (hleft _ (by simp)), store_of_not_driven (hleft _ (by simp))]
  exact h

theorem hasAntenna_txOff : HasAntenna (store fe yucca0TxOff) lane := fun _ => txOff_antenna

theorem hasAntenna_rxOn : HasAntenna (store fe (rxOnWrites txS lane ch)) lane := fun _ =>
  have hown : ∀ want ∈ antRx lane :: (mtTrx, true) :: lnaDemand lane ch,
      store fe (rxOnWrites txS lane ch) want.1 = want.2 := rxOn_own
  hown _ List.mem_cons_self

theorem HasAntenna.rxOn (h : HasAntenna fe other) (hother : other ≠ lane) :
    HasAntenna (store fe (rxOnWrites txS lane ch)) other := by
  have hleft : ∀ want ∈ antRx other :: lnaDemand other ch,
      want.1 ∉ driven (rxOnWrites txS lane ch) := rxOn_other hother
  have henb : lnaEnb other ∉ driven (rxOnWrites txS lane ch) :=
    hleft (lnaEnb other, false) (List.mem_cons_of_mem _ lnaEnb_mem)
  unfold HasAntenna
  rw [store_of_not_driven henb, store_of_not_driven (hleft _ List.mem_cons_self)]
  exact h

/-- A lane that is parked has its LNA off. -/
theorem HasAntenna.rxOff (h : HasAntenna fe other) :
    HasAntenna (store fe (rxOffWrites wanted lane)) other := by
  intro henabled
  by_cases hother : other = lane
  · rw [hother] at henabled
    exact Bool.noConfusion (rxOff_own.1.symm.trans henabled)
  · have hleft : ∀ bit ∈ [lnaEnb other, (antRx other).1],
        bit ∉ driven (rxOffWrites wanted lane) := by
      unfold rxOffWrites
      obtain ⟨rfl, rfl⟩ | ⟨rfl, rfl⟩ := Lane.cases_ne hother <;> split <;> decide
    rw [store_of_not_driven (hleft _ (by simp))] at henabled
    rw [store_of_not_driven (hleft _ (by simp))]
    exact h henabled

theorem failSafe_bypasses : Meets (store fe failSafeWrites) yucca0DisableAllLna := by
  intro want hwant
  simp only [yucca0DisableAllLna, List.mem_cons, List.not_mem_nil, or_false] at hwant
  rcases hwant with rfl | rfl <;>
    simp [store, failSafeWrites, yucca0DisableAllLna, yucca0DisableAllPa]

end FrontEnd

/-! ## Applies -/

/-- A chip at a target has the lanes of the target mounted. -/
theorem getPath_of_target {chip : Mt3812} {target : Target} (h : chip.state = target.state) :
    chip.getPath.path = target.path := by
  unfold Mt3812.getPath
  rw [h, Target.state]
  by_cases hpath : target.path = .none
  · rw [if_pos hpath, hpath]
  · rw [if_neg hpath]
    rfl

namespace TddBoard

variable {tdd following : TddBoard} {event : TddEvent}

/-- The bits an apply writes that switches its channel off, before the chip follows. -/
def offWrites (tdd : TddBoard) : TddEvent → List Srb
  | .txSet .. => yucca0TxOff
  | .rxSet lane ch _ => rxOffWrites (tdd.board.rxWanted lane ch) lane

/-- The bits an apply writes that switches its channel on, after the chip. -/
def onWrites (tdd : TddBoard) : TddEvent → List Srb
  | .txSet ch path _ => yucca0TxOn path (decide (paGainThreshold ≤ ch.power))
  | .rxSet lane ch _ => rxOnWrites tdd.board.txS lane ch

theorem set_board (tdd : TddBoard) (event : TddEvent) :
    (tdd.set event).board = (tdd.board.apply event.event).1 := by
  cases event with
  | txSet ch path answers =>
      show (tdd.txSet ch path answers).board = (tdd.board.txSet ch answers).1
      unfold txSet
      dsimp only
      split_ifs with hparam
      · rw [Board.txSet, if_pos hparam]
      all_goals rfl
  | rxSet lane ch answers =>
      show (tdd.rxSet lane ch answers).board = (tdd.board.rxSet lane ch answers).1
      unfold rxSet
      dsimp only
      split_ifs with hparam
      · rw [Board.rxSet, if_pos hparam]
      all_goals rfl

/-- The latches after an apply that succeeds. -/
theorem set_fe (h : tdd.succeeds event = true) :
    (tdd.set event).fe =
      store tdd.fe (if event.event.on then tdd.onWrites event else tdd.offWrites event) := by
  cases event with
  | txSet ch path answers =>
      have hsucceeds : (tdd.board.txSet ch answers).2 = true := h
      have hvalid := (txSet_channels tdd.board ch answers).2.2 hsucceeds
      show (tdd.txSet ch path answers).fe = store tdd.fe (if ch.on then _ else _)
      unfold txSet
      dsimp only
      rw [hvalid, hsucceeds]
      cases ch.on <;> rfl
  | rxSet lane ch answers =>
      have hsucceeds : (tdd.board.rxSet lane ch answers).2 = true := h
      have hvalid := (rxSet_channels tdd.board lane ch answers).2.2 hsucceeds
      show (tdd.rxSet lane ch answers).fe = store tdd.fe (if ch.on then _ else _)
      unfold rxSet
      dsimp only
      rw [hvalid, hsucceeds]
      cases ch.on <;> rfl

/-- An apply that is refused does nothing, for its frequency, or parks the latches. -/
theorem set_of_refused (h : tdd.succeeds event = false) :
    tdd.set event = tdd ∨
      (tdd.set event).fe = store
        (if event.event.on then tdd.fe else store tdd.fe (tdd.offWrites event)) failSafeWrites := by
  cases event with
  | txSet ch path answers =>
      have hrefused : (tdd.board.txSet ch answers).2 = false := h
      show tdd.txSet ch path answers = _ ∨ (tdd.txSet ch path answers).fe = _
      unfold txSet
      dsimp only
      rw [hrefused]
      split
      · exact .inl rfl
      · right
        show _ = store (if ch.on then _ else _) failSafeWrites
        cases ch.on <;> rfl
  | rxSet lane ch answers =>
      have hrefused : (tdd.board.rxSet lane ch answers).2 = false := h
      show tdd.rxSet lane ch answers = _ ∨ (tdd.rxSet lane ch answers).fe = _
      unfold rxSet
      dsimp only
      rw [hrefused]
      split
      · exact .inl rfl
      · right
        show _ = store (if ch.on then _ else _) failSafeWrites
        cases ch.on <;> rfl

/-- The channels after an apply. -/
theorem channels_set :
    (tdd.set event).board.txS =
        (if tdd.succeeds event then (tdd.board.wanted event.event).tx else tdd.board.txS) ∧
      (tdd.set event).board.rxS =
        (if tdd.succeeds event then (tdd.board.wanted event.event).rx else tdd.board.rxS) := by
  rw [set_board]
  cases event with
  | txSet ch path answers =>
      obtain ⟨hrxS, htxS, -⟩ := txSet_channels tdd.board ch answers
      exact ⟨htxS, hrxS.trans (ite_self _).symm⟩
  | rxSet lane ch answers =>
      obtain ⟨htxS, hrxS, -⟩ := rxSet_channels tdd.board lane ch answers
      exact ⟨htxS.trans (ite_self _).symm, hrxS⟩

/-- The channels after an apply that succeeds. -/
theorem set_channels (h : tdd.succeeds event = true) :
    (tdd.set event).board.txS = (tdd.board.wanted event.event).tx ∧
      (tdd.set event).board.rxS = (tdd.board.wanted event.event).rx := by
  rw [channels_set.1, channels_set.2, if_pos h, if_pos h]
  exact ⟨rfl, rfl⟩

/-- The channels after one that is refused. -/
theorem set_channels_refused (h : tdd.succeeds event = false) :
    (tdd.set event).board.txS = tdd.board.txS ∧ (tdd.set event).board.rxS = tdd.board.rxS := by
  have hrefused := Bool.eq_false_iff.mp h
  rw [channels_set.1, channels_set.2, if_neg hrefused, if_neg hrefused]
  exact ⟨rfl, rfl⟩

/-- Switching a channel off takes the antenna of no lane whose LNA stays enabled. -/
theorem hasAntenna_off {lane : Lane} (h : HasAntenna tdd.fe lane) :
    HasAntenna (store tdd.fe (tdd.offWrites event)) lane := by
  cases event with
  | txSet => exact hasAntenna_txOff
  | rxSet => exact h.rxOff

/-- What `Kept` says of the antennas, after an apply that succeeds. -/
theorem antenna_set (h : tdd.Kept) (hsucceeds : tdd.succeeds event = true)
    (htx : (tdd.board.wanted event.event).tx.any TxCh.on = false) {lane : Lane}
    (hlane : ((tdd.board.wanted event.event).rx lane).on = true) :
    HasAntenna (tdd.set event).fe lane := by
  rw [set_fe hsucceeds]
  cases hon : event.event.on with
  | false =>
      show HasAntenna (store tdd.fe (tdd.offWrites event)) lane
      -- the antenna was there before, and the other lane's writes do not touch it
      cases event with
      | txSet ch path answers => exact hasAntenna_txOff
      | rxSet own ch answers =>
          refine HasAntenna.rxOff (h.antenna htx lane ?_)
          have hne : lane ≠ own := by
            rintro rfl
            change ((tdd.board.rxWanted lane ch).rx lane).on = true at hlane
            rw [rxWanted_rx_self] at hlane
            exact Bool.noConfusion (hon.symm.trans hlane)
          have hsame : withLane tdd.board.rxS own ch lane = tdd.board.rxS lane :=
            withLane_of_ne hne ch
          rw [← hsame]
          exact hlane
  | true =>
      show HasAntenna (store tdd.fe (tdd.onWrites event)) lane
      cases event with
      | txSet ch path answers => exact Bool.noConfusion (hon.symm.trans htx)
      | rxSet own ch answers =>
          by_cases hne : lane = own
          · rw [hne]
            exact hasAntenna_rxOn
          · refine HasAntenna.rxOn (h.antenna htx lane ?_) hne
            have hsame : withLane tdd.board.rxS own ch lane = tdd.board.rxS lane :=
              withLane_of_ne hne ch
            rw [← hsame]
            exact hlane

/-- And after one that is refused. -/
theorem antenna_set_refused {lane : Lane} (h : HasAntenna tdd.fe lane)
    (hrefused : tdd.succeeds event = false) : HasAntenna (tdd.set event).fe lane := by
  obtain hnothing | hfe := set_of_refused hrefused
  · rwa [hnothing]
  rw [hfe]
  refine HasAntenna.failSafe ?_
  split
  · exact h
  · exact hasAntenna_off h

/-- Where the mirror says unmounted and the chip is not in STANDBY, a fail-safe has bypassed the
LNAs, and no apply since has got as far as the chip. -/
theorem bypassed_set (h : tdd.Kept) (hidle : (tdd.set event).board.mt.mirror.path = .none)
    (hstate : (tdd.set event).board.mt.chip.state ≠ .standby) :
    Meets (tdd.set event).fe yucca0DisableAllLna := by
  cases hsucceeds : tdd.succeeds event with
  | false =>
      obtain hnothing | hfe := set_of_refused hsucceeds
      · rw [hnothing] at hidle hstate ⊢
        exact h.bypassed hidle hstate
      · rw [hfe]
        exact failSafe_bypasses
  | true =>
      rw [set_board] at hidle hstate
      rcases apply_cases event.event h.tracked with
        hparam | ⟨mt, hrefused, -⟩ | ⟨-, mt, hdone, hconverged | ⟨hpath, hbefore, rfl⟩⟩
      · exact Bool.noConfusion (hsucceeds.symm.trans (congrArg Prod.snd hparam))
      · exact Bool.noConfusion (hsucceeds.symm.trans (congrArg Prod.snd hrefused))
      · -- The chip has followed the mirror to STANDBY.
        rw [hdone] at hidle hstate
        have hnone : (tdd.board.wanted event.event).path = .none := hconverged.path.symm.trans hidle
        refine absurd ?_ hstate
        rw [hconverged.state, Target.state, Wanted.computeTarget_path, if_pos hnone]
      · rw [hdone] at hstate
        have hbypassed := h.bypassed hbefore hstate
        have hoff : event.event.on = false := Bool.eq_false_iff.mpr fun hon => path_of_on hon hpath
        rw [set_fe hsucceeds, hoff]
        cases event with
        | txSet ch path answers =>
            show Meets (store tdd.fe yucca0TxOff) yucca0DisableAllLna
            exact (meets_store_of_disjoint (by decide)).mpr hbypassed
        | rxSet lane ch answers =>
            show Meets (store tdd.fe (rxOffWrites (tdd.board.rxWanted lane ch) lane)) _
            have hnone : (tdd.board.rxWanted lane ch).computeTarget.path = .none := hpath
            rw [rxOffWrites, if_pos hnone, store_append]
            exact failSafe_bypasses

theorem Kept.set (h : tdd.Kept) (event : TddEvent) : (tdd.set event).Kept := by
  refine ⟨?_, fun htx lane hlane => ?_, bypassed_set h⟩
  · rw [set_board]
    exact tracked_apply event.event h.tracked
  · cases hsucceeds : tdd.succeeds event with
    | false =>
        obtain ⟨htxS, hrxS⟩ := set_channels_refused hsucceeds
        rw [htxS] at htx
        rw [hrxS] at hlane
        exact antenna_set_refused (h.antenna htx lane hlane) hsucceeds
    | true =>
        obtain ⟨htxS, hrxS⟩ := set_channels hsucceeds
        rw [htxS] at htx
        rw [hrxS] at hlane
        exact antenna_set h hsucceeds htx hlane

theorem probed_tddKept (hasTx : Bool) : (probed hasTx).Kept where
  tracked := probed_tracked hasTx
  antenna _ _ hlane := absurd hlane Bool.false_ne_true
  bypassed _ hstate := absurd rfl hstate

/-- What a successful apply leaves mounted. -/
theorem mounted_set (h : tdd.Kept) (hsucceeds : tdd.succeeds event = true) :
    (tdd.set event).mounted = tdd.leaves event := by
  unfold mounted leaves
  rw [set_board]
  split
  case isTrue hidle =>
    rw [apply_of_idle event.event h.tracked hidle.1 hidle.2]
    rfl
  case isFalse hbusy =>
    rcases apply_cases event.event h.tracked with
      hparam | ⟨mt, hrefused, -⟩ | ⟨-, mt, hdone, hconverged | hidle⟩
    · exact Bool.noConfusion (hsucceeds.symm.trans (congrArg Prod.snd hparam))
    · exact Bool.noConfusion (hsucceeds.symm.trans (congrArg Prod.snd hrefused))
    · rw [hdone]
      exact getPath_of_target hconverged.state
    · exact absurd ⟨hidle.1, hidle.2.1⟩ hbusy

theorem leaves_of_on (hon : event.event.on = true) :
    tdd.leaves event = (tdd.board.wanted event.event).path :=
  if_neg fun hidle => path_of_on hon hidle.1

/-- An RX lane that is left mounted although none is on is mounted behind the mirror's back. -/
theorem Kept.bypassed_of_leaves (h : tdd.Kept) {lane : Lane}
    (hmounted : (tdd.leaves event).rx lane = true)
    (hnone : (tdd.board.wanted event.event).path = .none) : Meets tdd.fe yucca0DisableAllLna := by
  unfold leaves at hmounted
  split at hmounted
  case isTrue hidle =>
    refine h.bypassed hidle.2 fun hstate => ?_
    rw [mounted, Mt3812.getPath, hstate] at hmounted
    rcases lane.cases with rfl | rfl <;> simp [Path.rx, Path.none] at hmounted
  case isFalse =>
    rw [hnone] at hmounted
    rcases lane.cases with rfl | rfl <;> simp [Path.rx, Path.none] at hmounted

/-- An apply leaves the front end right exactly if it finds the other lanes so. -/
theorem agrees_iff (h : tdd.Kept) (hnext : tdd.next event = some following) :
    tdd.Agrees event following ↔ tdd.LeavesRight event := by
  obtain ⟨-, rfl⟩ := of_guard hnext
  refine imp_congr_right fun hsucceeds => ?_
  obtain ⟨htxS, hrxS⟩ := set_channels hsucceeds
  rw [mounted_set h hsucceeds, hrxS, set_fe hsucceeds]
  cases event with
  | txSet ch path answers =>
      cases hon : (TddEvent.txSet ch path answers).event.on with
      | false => exact txOff_frontEnd
      | true =>
          have htx : (tdd.leaves (.txSet ch path answers)).tx1 = true := by
            rw [leaves_of_on hon]
            exact hon
          exact txOn_frontEnd htx
  | rxSet lane ch answers =>
      cases hon : (TddEvent.rxSet lane ch answers).event.on with
      | false =>
          -- a lane mounted behind the mirror's back has its amplifiers off already
          have hbypassed (other : Lane)
              (hmounted : (tdd.leaves (.rxSet lane ch answers)).rx other = true)
              (hnone : (tdd.board.rxWanted lane ch).path = .none) :
              Meets tdd.fe yucca0DisableAllLna := h.bypassed_of_leaves hmounted hnone
          refine (rxOff_frontEnd hbypassed).trans (and_congr_right fun _ => ?_)
          exact ⟨fun hleft _ => hleft, fun hleft => hleft hon⟩
      | true =>
          have hpath : tdd.leaves (.rxSet lane ch answers) = (tdd.board.rxWanted lane ch).path :=
            leaves_of_on hon
          refine (rxOn_frontEnd fun htx other hother hmounted => ?_).trans ?_
          · rw [hpath] at htx hmounted
            rw [Wanted.path_rx] at hmounted
            refine h.antenna htx other ?_
            have hsame : withLane tdd.board.rxS lane ch other = tdd.board.rxS other :=
              withLane_of_ne hother ch
            rw [← hsame]
            exact hmounted
          · refine ⟨fun hlna => ⟨hlna, fun hoff => ?_⟩, fun hlna => hlna.1⟩
            exact Bool.noConfusion (hoff.symm.trans hon)

/-- In every run from the probe each apply that succeeds leaves the front end right exactly if each
finds the lanes right that it does not write. -/
theorem agrees_iff_leavesRight (hasTx : Bool) (events : List TddEvent) :
    EveryStep next Agrees (probed hasTx) events ↔
      Guarded next LeavesRight (probed hasTx) events := by
  have hkeep (tdd event following) (h : Kept tdd) (_ : tdd.Agrees event following)
      (hnext : tdd.next event = some following) : following.Kept := by
    obtain ⟨-, rfl⟩ := of_guard hnext
    exact h.set event
  exact everyStep_iff_guarded (fun _ _ _ => agrees_iff) hkeep (probed_tddKept hasTx)

/-- Of two lanes that receive one is switched off: the pin goes to transmit under the other. -/
theorem lane_off_turns_pin :
    ¬ EveryStep next Agrees (probed true)
      [.rxSet .rx1 ⟨2500000000, 30, 50, .rfOn⟩ [], .rxSet .rx2 ⟨2500000000, 30, 50, .rfOn⟩ [],
        .rxSet .rx1 ⟨2500000000, 30, 50, .rfOff⟩ []] := by
  intro hevery
  obtain ⟨-, hsecond⟩ := hevery _ rfl
  obtain ⟨-, hoff⟩ := hsecond _ rfl
  have hright := (hoff _ rfl).1 (by decide)
  exact absurd (hright.pin .rx2 (by decide) (by decide)) (by decide)

end TddBoard

end RfnmDriver.Yucca
