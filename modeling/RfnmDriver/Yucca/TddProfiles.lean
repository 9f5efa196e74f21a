import RfnmDriver.Daughterboard.HalfProfiles
import RfnmDriver.Yucca.FrontEnd

/-!
# TDD on the Yucca board

The applies of `rfnm_yucca_m.c` with their latches and half-profiles. An RX apply switches the
antenna of its own lane, so the RX profile it takes has of the other lane what the last TX apply or
the last fail-safe left.
-/

namespace RfnmDriver.Yucca

open Daughterboard LatchBit RegisterFile

/-- The board with its latch image and its profiles. -/
structure TddBoard where
  board : Board
  /-- `path` of the applied TX channel. -/
  txPath : RfPath
  fe : Fe
  profiles : Profiles LatchBit

/-- One apply, with the chip's answers to its calls. -/
inductive TddEvent
  | txSet (ch : TxCh) (path : RfPath) (answers : List Bool)
  | rxSet (lane : Lane) (ch : RxCh) (answers : List Bool)

def TxCh.tdd (ch : TxCh) : Bool := ch.enable = .rfOnTdd

def RxCh.tdd (ch : RxCh) : Bool := ch.enable = .rfOnTdd

namespace TddBoard

variable (tdd : TddBoard)

/-- An RX channel is applied in TDD. -/
def rxTdd : Bool := (tdd.board.rxS .rx1).tdd || (tdd.board.rxS .rx2).tdd

/-- The TX channel is applied in TDD. -/
def txTdd : Bool := tdd.board.txS.any TxCh.tdd

/-- `rfnm_tx_ch_set`. -/
def txSet (ch : TxCh) (path : RfPath) (answers : List Bool) : TddBoard :=
  let (board, succeeds) := tdd.board.txSet ch answers
  if ch.on && !inEnvelope ch.freq then tdd
  else
    let parked := if ch.on then tdd.fe else store tdd.fe yucca0TxOff
    if !succeeds then { tdd with board := board, fe := store parked failSafeWrites }
    else if ch.on then
      let fe := store parked (yucca0TxOn path (decide (paGainThreshold ≤ ch.power)))
      { board := board
        txPath := path
        fe := fe
        profiles := if ch.tdd then tdd.profiles.snapTx fe tdd.rxTdd else tdd.profiles }
    else { tdd with board := board, txPath := path, fe := parked }

/-- `rfnm_rx_ch_set`. -/
def rxSet (lane : Lane) (ch : RxCh) (answers : List Bool) : TddBoard :=
  let (board, succeeds) := tdd.board.rxSet lane ch answers
  if ch.on && !inEnvelope ch.freq then tdd
  else
    let parked := if ch.on then tdd.fe
      else store tdd.fe (rxOffWrites (tdd.board.rxWanted lane ch) lane)
    if !succeeds then { tdd with board := board, fe := store parked failSafeWrites }
    else if ch.on then
      let fe := store parked (rxOnWrites tdd.board.txS lane ch)
      { tdd with
        board := board
        fe := fe
        profiles := if ch.tdd then tdd.profiles.snapRx fe tdd.txTdd else tdd.profiles }
    else { tdd with board := board, fe := parked }

/-- A board without a TX channel gets no TX apply. -/
def offers : TddEvent → Bool
  | .txSet .. => tdd.board.txS.isSome
  | .rxSet .. => true

/-- One apply. -/
def set : TddEvent → TddBoard
  | .txSet ch path answers => tdd.txSet ch path answers
  | .rxSet lane ch answers => tdd.rxSet lane ch answers

def next (event : TddEvent) : Option TddBoard :=
  if tdd.offers event then some (tdd.set event) else none

/-- After `rfnm_yucca_probe`, with or without a TX channel. -/
def probed (hasTx : Bool) : TddBoard :=
  { board := .probed hasTx
    txPath := .null
    fe := fun _ => false
    profiles := .blank }

end TddBoard

/-! ## Demands -/

/-- What a TX channel demands: its antenna port at transmit, and the amplifier as its power says. -/
def txDemand (ch : TxCh) (path : RfPath) : Demand LatchBit :=
  let pa := decide (paGainThreshold ≤ ch.power)
  [(ffAntT, decide (path = .smaA)), (ffAntA, true), (ffAntB, false), (mtTrx, false), (paEn, pa),
    (txTli, !pa), (txTlo, pa)]

/-- What an RX channel demands: its antenna port at receive, and its LNA as its gain says. -/
def laneDemand (lane : Lane) (ch : RxCh) : Demand LatchBit :=
  let bypass := !decide (lnaGainThreshold ≤ ch.gain)
  if lane = .rx1 then
    [(ffAntA, false), (mtTrx, true), (antALnaEnb, false), (antALnaByp, bypass)]
  else [(ffAntB, true), (mtTrx, true), (antBLnaEnb, false), (antBLnaByp, bypass)]

/-- The demand of a lane, if it is in TDD. -/
def laneTddDemand (rxS : Lane → RxCh) (lane : Lane) : Demand LatchBit :=
  if (rxS lane).tdd then laneDemand lane (rxS lane) else []

/-- What the RX channels in TDD demand, and no amplifier. -/
def rxDemand (rxS : Lane → RxCh) : Demand LatchBit :=
  yucca0DisableAllPa ++ laneTddDemand rxS .rx1 ++ laneTddDemand rxS .rx2

/-- The profiles of the board, and what its channels in TDD demand. -/
def TddBoard.duplex (tdd : TddBoard) : Duplex LatchBit where
  profiles := tdd.profiles
  tx := (tdd.board.txS.filter TxCh.tdd).map fun ch => txDemand ch tdd.txPath
  rx := if tdd.rxTdd then some (rxDemand tdd.board.rxS) else none

/-- The channels once a lane is applied. -/
def withLane (rxS : Lane → RxCh) (lane : Lane) (ch : RxCh) : Lane → RxCh :=
  fun other => if other = lane then ch else rxS other

/-- An apply in TDD that succeeds. -/
def TddBoard.snaps (tdd : TddBoard) : TddEvent → Bool
  | .txSet ch _ answers => (tdd.board.txSet ch answers).2 && ch.tdd
  | .rxSet lane ch answers => (tdd.board.rxSet lane ch answers).2 && ch.tdd

/-- An RX apply finds in the latches that it does not write what the RX channels demand. -/
def TddBoard.Finds (tdd : TddBoard) (lane : Lane) (ch : RxCh) : Prop :=
  ∀ want ∈ rxDemand (withLane tdd.board.rxS lane ch),
    want.1 ∉ driven (rxOnWrites tdd.board.txS lane ch) → tdd.fe want.1 = want.2

/-- While the TX channel is in TDD, an RX apply in TDD finds in the latches what it does not write
itself, and a TX apply finds an RX profile that meets the demands. -/
def TddBoard.Spared (tdd : TddBoard) (event : TddEvent) : Prop :=
  tdd.snaps event = true →
    match event with
    | .txSet .. => tdd.rxTdd = true → Meets tdd.profiles.rx (rxDemand tdd.board.rxS)
    | .rxSet lane ch _ => tdd.txTdd = true → tdd.Finds lane ch

/-- An RX apply in TDD finds in the latches what it does not write itself. -/
def TddBoard.Settled (tdd : TddBoard) (event : TddEvent) : Prop :=
  tdd.snaps event = true →
    match event with
    | .txSet .. => True
    | .rxSet lane ch _ => tdd.Finds lane ch

/-- What an apply is for the profiles. -/
def TddBoard.duplexEvent (tdd : TddBoard) (event : TddEvent) : DuplexEvent LatchBit :=
  let following := tdd.set event
  if tdd.snaps event then
    match event with
    | .txSet ch path _ => .tx following.fe (txDemand ch path)
    | .rxSet .. => .rx following.fe (rxDemand following.board.rxS)
  else .rest following.duplex.tx following.duplex.rx

/-! ## What an apply leaves -/

/-- The channels after a TX apply. -/
theorem txSet_channels (board : Board) (ch : TxCh) (answers : List Bool) :
    (board.txSet ch answers).1.rxS = board.rxS ∧
      (board.txSet ch answers).1.txS =
        (if (board.txSet ch answers).2 then some ch else board.txS) ∧
      ((board.txSet ch answers).2 = true → (ch.on && !inEnvelope ch.freq) = false) := by
  unfold Board.txSet
  split
  case isTrue h => exact ⟨rfl, rfl, nofun⟩
  case isFalse h =>
    dsimp only
    split
    · exact ⟨rfl, rfl, fun _ => Bool.not_eq_true _ |>.mp h⟩
    · exact ⟨rfl, rfl, nofun⟩

/-- The channels after an RX apply. -/
theorem rxSet_channels (board : Board) (lane : Lane) (ch : RxCh) (answers : List Bool) :
    (board.rxSet lane ch answers).1.txS = board.txS ∧
      (board.rxSet lane ch answers).1.rxS =
        (if (board.rxSet lane ch answers).2 then withLane board.rxS lane ch else board.rxS) ∧
      ((board.rxSet lane ch answers).2 = true → (ch.on && !inEnvelope ch.freq) = false) := by
  unfold Board.rxSet
  split
  case isTrue h => exact ⟨rfl, rfl, nofun⟩
  case isFalse h =>
    dsimp only
    split
    · exact ⟨rfl, rfl, fun _ => Bool.not_eq_true _ |>.mp h⟩
    · exact ⟨rfl, rfl, nofun⟩

theorem TxCh.on_of_tdd {ch : TxCh} (h : ch.tdd = true) : ch.on = true := by
  simp only [TxCh.tdd, TxCh.on, decide_eq_true_eq] at h ⊢
  rw [h]
  nofun

theorem RxCh.on_of_tdd {ch : RxCh} (h : ch.tdd = true) : ch.on = true := by
  simp only [RxCh.tdd, RxCh.on, decide_eq_true_eq] at h ⊢
  rw [h]
  nofun

/-- A TX apply leaves what its channel demands. -/
theorem txOn_meets (fe : Fe) (ch : TxCh) (path : RfPath) :
    Meets (store fe (yucca0TxOn path (decide (paGainThreshold ≤ ch.power))))
      (txDemand ch path) := by
  intro want hwant
  cases hpa : decide (paGainThreshold ≤ ch.power) <;>
    simp only [txDemand, hpa, List.mem_cons, List.not_mem_nil, or_false] at hwant <;>
    rcases hwant with rfl | rfl | rfl | rfl | rfl | rfl | rfl <;>
    simp [yucca0TxOn, store]

/-- What an RX apply in TDD writes. -/
theorem rxOnWrites_of_tdd (txS : Option TxCh) (lane : Lane) {ch : RxCh} (htdd : ch.tdd = true) :
    rxOnWrites txS lane ch =
      rxAntOn lane (decide (lnaGainThreshold ≤ ch.gain)) ++ yucca0DisableAllPa := by
  have henable : ch.enable = .rfOnTdd := of_decide_eq_true htdd
  simp [rxOnWrites, henable]

/-- An RX apply in TDD writes all that its own lane demands, and leaves it. -/
theorem rxOn_settles (fe : Fe) (txS : Option TxCh) (lane : Lane) {ch : RxCh}
    (htdd : ch.tdd = true) :
    ∀ want ∈ yucca0DisableAllPa ++ laneDemand lane ch,
      store fe (rxOnWrites txS lane ch) want.1 = want.2 ∧
        want.1 ∈ driven (rxOnWrites txS lane ch) := by
  intro want hwant
  rw [rxOnWrites_of_tdd txS lane htdd]
  rcases lane.cases with rfl | rfl <;>
    simp only [laneDemand, yucca0DisableAllPa] at hwant <;>
    simp at hwant <;>
    rcases hwant with rfl | rfl | rfl | rfl | rfl <;>
    simp [rxAntOn, yucca0RxAntAOn, yucca0RxAntBOn, yucca0DisableAllPa, store, driven]

/-- Of what the other lane demands it writes only the receive switch of the chip. -/
theorem rxOn_drives_other (txS : Option TxCh) {lane other : Lane} (hother : other ≠ lane)
    {ch otherCh : RxCh} (htdd : ch.tdd = true) :
    ∀ want ∈ laneDemand other otherCh, want.1 ∈ driven (rxOnWrites txS lane ch) →
      want = (mtTrx, true) := by
  intro want hwant hdriven
  rw [rxOnWrites_of_tdd txS lane htdd] at hdriven
  rcases lane.cases with rfl | rfl <;> rcases other.cases with rfl | rfl <;>
    simp only [ne_eq, not_true_eq_false] at hother <;>
    simp [laneDemand] at hwant <;>
    rcases hwant with rfl | rfl | rfl | rfl <;>
    simp [rxAntOn, yucca0RxAntAOn, yucca0RxAntBOn, yucca0DisableAllPa, driven] at hdriven ⊢

theorem withLane_self (rxS : Lane → RxCh) (lane : Lane) (ch : RxCh) :
    withLane rxS lane ch lane = ch := if_pos rfl

theorem withLane_of_ne {rxS : Lane → RxCh} {lane other : Lane} (h : other ≠ lane) (ch : RxCh) :
    withLane rxS lane ch other = rxS other := if_neg h

/-- What is demanded is demanded by the amplifiers or by a lane in TDD. -/
theorem mem_rxDemand {rxS : Lane → RxCh} {want : LatchBit × Bool} :
    want ∈ rxDemand rxS ↔ want ∈ yucca0DisableAllPa ∨
      ∃ lane, (rxS lane).tdd = true ∧ want ∈ laneDemand lane (rxS lane) := by
  have hlane : ∀ lane, want ∈ laneTddDemand rxS lane ↔
      (rxS lane).tdd = true ∧ want ∈ laneDemand lane (rxS lane) := by
    intro lane
    unfold laneTddDemand
    split <;> simp_all
  rw [Fin.exists_fin_two]
  simp only [rxDemand, List.mem_append, hlane, or_assoc]
  exact Iff.rfl

/-- What an RX apply in TDD writes of the bits that are demanded has the value that is demanded. -/
theorem rxOn_drives (fe : Fe) (txS : Option TxCh) (rxS : Lane → RxCh) {lane : Lane} {ch : RxCh}
    (htdd : ch.tdd = true) :
    ∀ want ∈ rxDemand (withLane rxS lane ch), want.1 ∈ driven (rxOnWrites txS lane ch) →
      store fe (rxOnWrites txS lane ch) want.1 = want.2 := by
  intro want hwant hdriven
  have hmeets := fun want hwant => (rxOn_settles fe txS lane htdd want hwant).1
  rcases mem_rxDemand.mp hwant with hpa | ⟨other, -, hmem⟩
  · exact hmeets want (List.mem_append_left _ hpa)
  by_cases hother : other = lane
  · rw [hother, withLane_self] at hmem
    exact hmeets want (List.mem_append_right _ hmem)
  · obtain rfl := rxOn_drives_other txS hother htdd want hmem hdriven
    refine hmeets _ (List.mem_append_right _ ?_)
    unfold laneDemand
    split <;> simp

variable {tdd following : TddBoard} {event : TddEvent}

namespace TddBoard

theorem snaps_txSet {ch : TxCh} {path : RfPath} {answers : List Bool}
    (h : tdd.snaps (.txSet ch path answers) = true) :
    (tdd.board.txSet ch answers).2 = true ∧ ch.tdd = true :=
  Bool.and_eq_true _ _ |>.mp h

theorem snaps_rxSet {lane : Lane} {ch : RxCh} {answers : List Bool}
    (h : tdd.snaps (.rxSet lane ch answers) = true) :
    (tdd.board.rxSet lane ch answers).2 = true ∧ ch.tdd = true :=
  Bool.and_eq_true _ _ |>.mp h

/-- A successful TX apply in TDD. -/
theorem txSet_of_tdd {ch : TxCh} {path : RfPath} {answers : List Bool}
    (hsnaps : tdd.snaps (.txSet ch path answers) = true) :
    let fe := store tdd.fe (yucca0TxOn path (decide (paGainThreshold ≤ ch.power)))
    tdd.txSet ch path answers =
      { board := (tdd.board.txSet ch answers).1
        txPath := path
        fe := fe
        profiles := tdd.profiles.snapTx fe tdd.rxTdd } := by
  obtain ⟨hsucceeds, htdd⟩ := snaps_txSet hsnaps
  have hvalid := (txSet_channels tdd.board ch answers).2.2 hsucceeds
  have hon := TxCh.on_of_tdd htdd
  rw [hon, Bool.true_and] at hvalid
  simp [txSet, hsucceeds, hvalid, htdd, hon]

/-- Any other TX apply. -/
theorem txSet_rest {ch : TxCh} {path : RfPath} {answers : List Bool}
    (hrest : tdd.snaps (.txSet ch path answers) = false) :
    let following := tdd.txSet ch path answers
    following.profiles = tdd.profiles ∧ following.board.rxS = tdd.board.rxS ∧
      (following.duplex.tx = tdd.duplex.tx ∨ following.duplex.tx = none) := by
  have hchannels := txSet_channels tdd.board ch answers
  have hrest : ((tdd.board.txSet ch answers).2 && ch.tdd) = false := hrest
  dsimp only
  unfold txSet
  dsimp only
  split
  · exact ⟨rfl, rfl, .inl rfl⟩
  cases hsucceeds : (tdd.board.txSet ch answers).2 with
  | false =>
      rw [hsucceeds] at hchannels
      refine ⟨rfl, hchannels.1, .inl ?_⟩
      simp [duplex, hchannels.2.1]
  | true =>
      -- the channel is applied, and is not in TDD
      rw [hsucceeds] at hchannels hrest
      have htdd : ch.tdd = false := hrest
      cases ch.on with
      | true =>
          refine ⟨by simp [htdd], hchannels.1, .inr ?_⟩
          simp [duplex, hchannels.2.1, htdd]
      | false =>
          refine ⟨rfl, hchannels.1, .inr ?_⟩
          simp [duplex, hchannels.2.1, htdd]

/-- A successful RX apply in TDD. -/
theorem rxSet_of_tdd {lane : Lane} {ch : RxCh} {answers : List Bool}
    (hsnaps : tdd.snaps (.rxSet lane ch answers) = true) :
    let fe := store tdd.fe (rxOnWrites tdd.board.txS lane ch)
    tdd.rxSet lane ch answers =
      { tdd with
        board := (tdd.board.rxSet lane ch answers).1
        fe := fe
        profiles := tdd.profiles.snapRx fe tdd.txTdd } := by
  obtain ⟨hsucceeds, htdd⟩ := snaps_rxSet hsnaps
  have hvalid := (rxSet_channels tdd.board lane ch answers).2.2 hsucceeds
  have hon := RxCh.on_of_tdd htdd
  rw [hon, Bool.true_and] at hvalid
  simp [rxSet, hsucceeds, hvalid, htdd, hon]

/-- Any other RX apply. -/
theorem rxSet_rest {lane : Lane} {ch : RxCh} {answers : List Bool}
    (hrest : tdd.snaps (.rxSet lane ch answers) = false) :
    let following := tdd.rxSet lane ch answers
    following.profiles = tdd.profiles ∧ following.duplex.tx = tdd.duplex.tx ∧
      (following.board.rxS = tdd.board.rxS ∨
        following.board.rxS = withLane tdd.board.rxS lane ch ∧ ch.tdd = false) := by
  have hchannels := rxSet_channels tdd.board lane ch answers
  have hrest : ((tdd.board.rxSet lane ch answers).2 && ch.tdd) = false := hrest
  dsimp only
  unfold rxSet
  dsimp only
  split
  · exact ⟨rfl, rfl, .inl rfl⟩
  cases hsucceeds : (tdd.board.rxSet lane ch answers).2 with
  | false =>
      rw [hsucceeds] at hchannels
      exact ⟨rfl, by simp [duplex, hchannels.1], .inl hchannels.2.1⟩
  | true =>
      rw [hsucceeds] at hchannels hrest
      have htdd : ch.tdd = false := hrest
      cases ch.on with
      | true => exact ⟨by simp [htdd], by simp [duplex, hchannels.1], .inr ⟨hchannels.2.1, htdd⟩⟩
      | false => exact ⟨rfl, by simp [duplex, hchannels.1], .inr ⟨hchannels.2.1, htdd⟩⟩

theorem duplex_rx_eq (tdd : TddBoard) :
    tdd.duplex.rx = if tdd.rxTdd then some (rxDemand tdd.board.rxS) else none := rfl

theorem duplex_rx_isSome (tdd : TddBoard) : tdd.duplex.rx.isSome = tdd.rxTdd := by
  rw [duplex_rx_eq]
  cases tdd.rxTdd <;> rfl

theorem duplex_tx_isSome (tdd : TddBoard) : tdd.duplex.tx.isSome = tdd.txTdd := by
  rw [duplex, txTdd, Option.isSome_map, Option.isSome_filter]

/-- A lane that is applied in TDD is one in TDD. -/
theorem withLane_tdd {rxS : Lane → RxCh} {lane : Lane} {ch : RxCh} (hch : ch.tdd = true) :
    ((withLane rxS lane ch .rx1).tdd || (withLane rxS lane ch .rx2).tdd) = true := by
  rcases lane.cases with rfl | rfl
  · simp [withLane, hch]
  · simp [withLane, hch]

/-- A lane that is applied and not in TDD adds to no demand. -/
theorem rxDemand_subset {rxS : Lane → RxCh} {lane : Lane} {ch : RxCh} (hch : ch.tdd = false) :
    rxDemand (withLane rxS lane ch) ⊆ rxDemand rxS := by
  intro want hwant
  rcases mem_rxDemand.mp hwant with hpa | ⟨other, htdd, hmem⟩
  · exact mem_rxDemand.mpr (.inl hpa)
  by_cases hother : other = lane
  · rw [hother, withLane_self, hch] at htdd
    cases htdd
  · rw [withLane_of_ne hother] at htdd hmem
    exact mem_rxDemand.mpr (.inr ⟨other, htdd, hmem⟩)

theorem rxTdd_iff : tdd.rxTdd = true ↔ ∃ lane, (tdd.board.rxS lane).tdd = true := by
  rw [Fin.exists_fin_two]
  exact Bool.or_eq_true _ _ |>.to_iff

/-- The channels make the same demand on the RX profile while they are the same. -/
theorem duplex_rx_congr {other : TddBoard} (h : other.board.rxS = tdd.board.rxS) :
    other.duplex.rx = tdd.duplex.rx := by
  unfold duplex rxTdd
  rw [h]

/-- The demand on the RX profile after an RX apply that is not one in TDD. -/
theorem duplex_rx_of_rest {other : TddBoard} {lane : Lane} {ch : RxCh}
    (hother : other.board.rxS = tdd.board.rxS ∨
      other.board.rxS = withLane tdd.board.rxS lane ch ∧ ch.tdd = false) :
    ∀ demand, other.duplex.rx = some demand →
      ∃ whole, tdd.duplex.rx = some whole ∧ demand ⊆ whole := by
  intro demand hdemand
  rcases hother with hsame | ⟨hlane, hch⟩
  · exact ⟨demand, duplex_rx_congr hsame ▸ hdemand, List.Subset.refl _⟩
  · have hotherTdd : other.rxTdd = true := by
      rw [← duplex_rx_isSome, hdemand]
      rfl
    rw [duplex_rx_eq, hotherTdd, if_pos rfl] at hdemand
    obtain rfl := Option.some.inj hdemand
    obtain ⟨place, hplace⟩ := rxTdd_iff.mp hotherTdd
    have hrx : tdd.rxTdd = true := by
      refine rxTdd_iff.mpr ⟨place, ?_⟩
      by_cases heq : place = lane
      · rw [hlane, heq, withLane_self, hch] at hplace
        cases hplace
      · rwa [hlane, withLane_of_ne heq] at hplace
    refine ⟨rxDemand tdd.board.rxS, ?_, ?_⟩
    · rw [duplex_rx_eq, hrx, if_pos rfl]
    · rw [hlane]
      exact rxDemand_subset hch

/-- The applies of the board do to its profiles and demands what `Duplex` says. -/
theorem refines : Refines next duplex duplexEvent := by
  intro tdd event following hnext
  obtain ⟨-, rfl⟩ := StepSystem.of_guard hnext
  unfold duplexEvent
  cases hsnaps : tdd.snaps event with
  | false =>
      simp only [Bool.false_eq_true, if_false]
      cases event with
      | txSet ch path answers =>
          obtain ⟨hprofiles, hrxS, htx⟩ := txSet_rest hsnaps
          refine ⟨Duplex.step_rest hprofiles, htx, fun demand hdemand => ?_⟩
          exact ⟨demand, duplex_rx_congr hrxS ▸ hdemand, List.Subset.refl _⟩
      | rxSet lane ch answers =>
          obtain ⟨hprofiles, htx, hrxS⟩ := rxSet_rest hsnaps
          exact ⟨Duplex.step_rest hprofiles, .inl htx, duplex_rx_of_rest hrxS⟩
  | true =>
      simp only [if_true]
      cases event with
      | txSet ch path answers =>
          obtain ⟨hsucceeds, htdd⟩ := snaps_txSet hsnaps
          obtain ⟨hrxS, htxS, -⟩ := txSet_channels tdd.board ch answers
          rw [hsucceeds] at htxS
          simp only [set, txSet_of_tdd hsnaps]
          refine ⟨?_, txOn_meets tdd.fe ch path⟩
          simp only [Duplex.step, duplex_rx_isSome]
          simp [duplex, rxTdd, hrxS, htxS, htdd]
      | rxSet lane ch answers =>
          obtain ⟨hsucceeds, htdd⟩ := snaps_rxSet hsnaps
          obtain ⟨htxS, hrxS, -⟩ := rxSet_channels tdd.board lane ch answers
          rw [hsucceeds] at hrxS
          simp only [set, rxSet_of_tdd hsnaps]
          refine ⟨?_, trivial⟩
          simp only [Duplex.step, duplex_tx_isSome]
          simp only [duplex, rxTdd, hrxS, htxS, if_true, withLane_tdd htdd]

/-- The image an RX apply in TDD leaves meets the demands where it finds what it does not write. -/
theorem meets_rxSet_iff {lane : Lane} {ch : RxCh} {answers : List Bool}
    (hsnaps : tdd.snaps (.rxSet lane ch answers) = true) :
    Meets (tdd.rxSet lane ch answers).fe (rxDemand (tdd.rxSet lane ch answers).board.rxS) ↔
      tdd.Finds lane ch := by
  obtain ⟨hsucceeds, htdd⟩ := snaps_rxSet hsnaps
  obtain ⟨-, hrxS, -⟩ := rxSet_channels tdd.board lane ch answers
  rw [hsucceeds, if_pos rfl] at hrxS
  simp only [rxSet_of_tdd hsnaps, hrxS]
  exact meets_store_iff (rxOn_drives tdd.fe tdd.board.txS tdd.board.rxS htdd)

/-- An apply is spared as the profiles see it. -/
theorem spared_iff (tdd : TddBoard) (event : TddEvent) :
    tdd.duplex.Spared (tdd.duplexEvent event) ↔ tdd.Spared event := by
  unfold duplexEvent Spared
  cases hsnaps : tdd.snaps event with
  | false => simp [Duplex.Spared]
  | true =>
      simp only [if_true, true_imp_iff]
      cases event with
      | txSet ch path answers =>
          show (∀ rx, tdd.duplex.rx = some rx → Meets tdd.profiles.rx rx) ↔ _
          rw [duplex_rx_eq]
          cases tdd.rxTdd <;> simp
      | rxSet lane ch answers =>
          show (tdd.duplex.tx.isSome = true → _) ↔ _
          rw [duplex_tx_isSome]
          exact imp_congr_right fun _ => meets_rxSet_iff hsnaps

/-- An apply is clean as the profiles see it. -/
theorem clean_iff (tdd : TddBoard) (event : TddEvent) :
    (tdd.duplexEvent event).Clean ↔ tdd.Settled event := by
  unfold duplexEvent Settled
  cases hsnaps : tdd.snaps event with
  | false => simp [DuplexEvent.Clean]
  | true =>
      simp only [if_true, true_imp_iff]
      cases event with
      | txSet ch path answers => exact Iff.rfl
      | rxSet lane ch answers => exact meets_rxSet_iff hsnaps

/-- Where no other lane is in TDD, an RX apply in TDD writes all that is demanded. -/
theorem settled_of_oneLane {lane : Lane} {ch : RxCh} (answers : List Bool)
    (hother : ∀ other, other ≠ lane → (tdd.board.rxS other).tdd = false) :
    tdd.Settled (.rxSet lane ch answers) := by
  intro hsnaps want hwant hnot
  have hdriven := fun hmem =>
    (rxOn_settles tdd.fe tdd.board.txS lane (snaps_rxSet hsnaps).2 want hmem).2
  rcases mem_rxDemand.mp hwant with hpa | ⟨other, htdd, hmem⟩
  · exact absurd (hdriven (List.mem_append_left _ hpa)) hnot
  by_cases heq : other = lane
  · rw [heq, withLane_self] at hmem
    exact absurd (hdriven (List.mem_append_right _ hmem)) hnot
  · rw [withLane_of_ne heq, hother other heq] at htdd
    cases htdd

/-- The first state, in which no channel is applied. -/
theorem probed_kept (hasTx : Bool) : CleanlyKept duplex (probed hasTx) := by
  refine ⟨⟨fun demand hdemand => ?_, fun _ hsome => ?_⟩, fun demand hdemand => ?_⟩
  · cases hasTx <;> cases hdemand
  · cases hsome
  · cases hdemand

end TddBoard

end RfnmDriver.Yucca
