import RfnmDriver.Lime.Board

/-!
# RX applies across a session boundary

What an RX apply does to the antenna port, the gain stages, the loopback and the power amplifiers
depends on who transmits, and it asks the applied copy of the TX channel. A session reset switches
off the wanted copies only, so the transmitter of an earlier session still owns the port.
`silence` takes the TX applies out of a history, `independent_iff_released` says exactly when the
RX apply of a new session comes out the same without them, and `port_stays_owned` is a client that
receives through the port of one that has left.
-/

namespace RfnmDriver.Lime

open RegisterFile

/-- A TX apply. -/
def Event.isTx : Event → Bool
  | .txSet .. => true
  | _ => false

/-- An RX apply of a session. -/
structure RxApply where
  slot : Slot
  ch : RxCh
  tune : Tune

def RxApply.event (apply : RxApply) : Event := .rxSet apply.slot apply.ch apply.tune

/-- The same history on boards whose TX was never enabled. -/
def silence (events : List Event) : List Event := events.filter fun event => !event.isTx

/-- A session reset and the RX applies since. -/
def newSession (later : List RxApply) : List Event := .reset :: later.map RxApply.event

/-- What an RX apply comes to. -/
structure RxStaging where
  port : PortStaging
  /-- The antenna port, and the supplies of the power amplifiers. -/
  latches : List Bool
  lnaRaw : Int
  pgaDb : Nat
  chipLoopback : Bool
  pathRfe : RfePath
  parking : PaParking
  deriving DecidableEq, Repr

/-- The latch bits that are part of it. -/
def stagedBits : List LatchBit := antPort ++ paSupplies

namespace Driver

variable (params : Params)

/-- The driver after a history that begins at the probe. -/
def after (events : List Event) : Driver := events.foldl (step params) .probed

/-- What an RX apply would come to; `none` when its synthesizer is refused. -/
def rxStaging (driver : Driver) (slot : Slot) (ch : RxCh) (tune : Tune) : Option RxStaging :=
  let owner := (driver.board slot).txS
  let set := driver.rxSet params slot ch tune
  if set.2 then
    some
      { port := portStaging owner ch
        latches := stagedBits.map (set.1.board slot).fe
        lnaRaw := lnaRaw owner ch
        pgaDb := pgaDb params owner ch (dcTrim ch driver.cache.rxDcTrimHz)
        chipLoopback := Lime.chipLoopback owner ch
        pathRfe := wantPath owner ch
        parking := paParking owner ch }
  else none

end Driver

/-! ## What the transmitter decides -/

/-- The transmitter leaves the port and the power amplifiers to this RX apply: it is off, or it is
in a TDD pattern of which the apply sets up the other half. -/
def releases (owner : Option TxCh) (ch : RxCh) : Bool :=
  owner.all fun tx =>
    tx.enable = .rfOff || tx.enable = .rfOnTdd && (ch.path = .loopback || ch.enable = .rfOnTdd)

/-- All bits an RX apply writes. -/
def rxWrites (owner : Option TxCh) (ch : RxCh) : List Srb :=
  bandWrites owner ch ++ portWrites owner ch

variable {params : Params} {owner : Option TxCh} {ch : RxCh}

theorem rfLive_of_releases (h : releases owner ch) : rfLive owner = false := by
  rcases owner with _ | ⟨_, _, _, _, _ | _ | _⟩
  · rfl
  · rfl
  · exact absurd h Bool.false_ne_true
  · rfl

theorem txLive_of_releases (h : releases owner ch) : txLive owner = false := by
  rcases owner with _ | ⟨_, _, _, _, _ | _ | _⟩
  · rfl
  · rfl
  · exact absurd h Bool.false_ne_true
  · rfl

theorem chipLoopback_of_releases (h : releases owner ch) : chipLoopback owner ch = false := by
  rw [chipLoopback, txLive_of_releases h, Bool.and_false]

theorem portStaging_of_releases (h : releases owner ch) :
    portStaging owner ch = portStaging none ch := by
  rw [portStaging, portStaging, rfLive_of_releases h]
  rfl

theorem paParking_of_releases (h : releases owner ch) :
    paParking owner ch = paParking none ch := by
  rw [paParking, paParking, txLive_of_releases h]
  by_cases hpath : ch.path = .loopback
  · simp [hpath, txLive]
  · simp only [hpath, if_false, Option.all_none, if_true]
    rcases owner with _ | ⟨_, _, _, _, _ | _ | _⟩
    · rfl
    · rfl
    · exact absurd h Bool.false_ne_true
    · simpa [releases, hpath] using h

/-- The port and the amplifiers are staged as without a transmitter only if it releases them. -/
theorem releases_iff :
    releases owner ch ↔
      portStaging owner ch = portStaging none ch ∧ paParking owner ch = paParking none ch := by
  refine ⟨fun h => ⟨portStaging_of_releases h, paParking_of_releases h⟩, ?_⟩
  rintro ⟨hport, hparking⟩
  rcases owner with _ | ⟨freq, power, path, biasTee, _ | _ | _⟩
  · rfl
  · rfl
  · -- a transmitter in plain RF_ON keeps the port
    have howned : portStaging (some ⟨freq, power, path, biasTee, .rfOn⟩) ch = .txOwned := rfl
    rw [howned] at hport
    unfold portStaging at hport
    split_ifs at hport with hlive
    simp [rfLive] at hlive
  · -- in TDD only the amplifiers tell whose the board is
    by_cases hpath : ch.path = .loopback
    · simp [releases, hpath]
    · by_cases henable : ch.enable = .rfOnTdd
      · simp [releases, henable]
      · simp [paParking, hpath, henable] at hparking

/-- Everything an RX apply takes from a transmitter that releases the board is as without one. -/
theorem rxStaging_congr_owner (params : Params) (trim : Option Nat) (h : releases owner ch) :
    lnaRaw owner ch = lnaRaw none ch ∧ pgaDb params owner ch trim = pgaDb params none ch trim ∧
      wantPath owner ch = wantPath none ch ∧ rxWrites owner ch = rxWrites none ch := by
  have hport := portStaging_of_releases h
  have hloop := chipLoopback_of_releases h
  have hnone : chipLoopback none ch = false :=
    chipLoopback_of_releases (show releases none ch from rfl)
  have hdbm : stagedDbm owner ch = stagedDbm none ch := by rw [stagedDbm, stagedDbm, hport]
  refine ⟨by rw [lnaRaw, lnaRaw, hdbm], ?_, ?_, ?_⟩
  · rw [pgaDb, pgaDb, pgaWanted, pgaWanted, hloop, hnone, hdbm]
  · simp [wantPath, hloop]
  · rw [rxWrites, rxWrites, bandWrites, bandWrites, portWrites, portWrites, hloop, hnone, hport,
      paParking_of_releases h]

/-! ## The two boards -/

/-- What a board keeps in common with one that went through the same RX applies and never
transmitted. -/
structure Twin (driver silent : Driver) : Prop where
  sxr : driver.cache.sxrLastHz = silent.cache.sxrLastHz
  trim : driver.cache.rxDcTrimHz = silent.cache.rxDcTrimHz
  wanted : ∀ slot, (driver.board slot).rxCh = (silent.board slot).rxCh
  off : ∀ slot, (silent.board slot).txS.all fun tx => tx.enable = .rfOff

namespace Twin

variable {driver silent : Driver} {slot : Slot} {tune : Tune}

/-- A silent board releases everything. -/
theorem releases (h : Twin driver silent) : Lime.releases (silent.board slot).txS ch := by
  have hoff := h.off slot
  rcases hs : (silent.board slot).txS with _ | tx
  · rfl
  · simp_all [Lime.releases]

/-- The synthesizer does the same on both. -/
theorem rxAccepts (h : Twin driver silent) :
    driver.rxAccepts ch tune = silent.rxAccepts ch tune := by
  rw [Driver.rxAccepts, Driver.rxAccepts, h.sxr]

/-- An RX apply on both. -/
theorem rxSet (h : Twin driver silent) :
    Twin (driver.rxSet params slot ch tune).1 (silent.rxSet params slot ch tune).1 where
  sxr := by rw [Driver.rxSet_sxrLastHz, Driver.rxSet_sxrLastHz, h.rxAccepts]
  trim := by rw [Driver.rxSet_rxDcTrimHz, Driver.rxSet_rxDcTrimHz, h.rxAccepts, h.trim]
  wanted other := by rw [Driver.rxSet_rxCh, Driver.rxSet_rxCh, h.wanted]
  off other := by rw [Driver.rxSet_txS]; exact h.off other

/-- A TX apply on one of them. -/
theorem txSet (h : Twin driver silent) {tx : TxCh} :
    Twin (driver.txSet params slot tx tune).1 silent := by
  obtain ⟨hsxr, htrim, hwanted⟩ := driver.txSet_rx params slot tx tune
  exact ⟨hsxr.trans h.sxr, htrim.trans h.trim, fun other => (hwanted other).trans (h.wanted other),
    h.off⟩

/-- A wanted copy on both. -/
theorem rxWant (h : Twin driver silent) :
    Twin (driver.rxWant slot ch) (silent.rxWant slot ch) := by
  refine ⟨h.sxr, h.trim, fun other => ?_, fun other => ?_⟩
  · obtain rfl | hne := eq_or_ne other slot
    · simp [Driver.rxWant]
    · simpa [Driver.rxWant, Driver.put_board_of_ne _ _ hne] using h.wanted other
  · obtain rfl | hne := eq_or_ne other slot
    · simpa [Driver.rxWant] using h.off other
    · simpa [Driver.rxWant, Driver.put_board_of_ne _ _ hne] using h.off other

/-- The MCU runs on both. -/
theorem calibrated (h : Twin driver silent) {bwMhz : Nat} {left : Lms} :
    Twin (driver.calibrated bwMhz left) (silent.calibrated bwMhz left) := by
  refine ⟨rfl, h.trim, fun other => ?_, fun other => ?_⟩
  · obtain rfl | hne := eq_or_ne other .primary
    · simpa [Driver.calibrated] using h.wanted .primary
    · simpa only [Driver.calibrated, Driver.put_board_of_ne _ _ hne] using h.wanted other
  · obtain rfl | hne := eq_or_ne other .primary
    · simpa [Driver.calibrated] using h.off .primary
    · simpa only [Driver.calibrated, Driver.put_board_of_ne _ _ hne] using h.off other

/-- A filter calibration on both. -/
theorem lpfCal (h : Twin driver silent) {bwMhz : Nat} {left : Lms} {succeeds : Bool} :
    Twin (driver.lpfCal params bwMhz left succeeds tune)
      (silent.lpfCal params bwMhz left succeeds tune) := by
  unfold Driver.lpfCal
  split
  · rw [h.wanted .primary]
    exact h.calibrated.rxSet
  · exact h.calibrated

/-- A reset on both. -/
theorem resetSm (h : Twin driver silent) : Twin driver.resetSm silent.resetSm where
  sxr := h.sxr
  trim := h.trim
  wanted slot := congrArg (fun ch : RxCh => { ch with enable := .rfOff }) (h.wanted slot)
  off := h.off

/-- The two histories from the probe. -/
theorem after (events : List Event) :
    Twin (Driver.after params events) (Driver.after params (silence events)) := by
  have hrun : ∀ events (driver silent : Driver), Twin driver silent →
      Twin (events.foldl (Driver.step params) driver)
        ((silence events).foldl (Driver.step params) silent) := by
    intro events
    induction events with
    | nil => exact fun _ _ h => h
    | cons event rest ih =>
        intro driver silent h
        cases event with
        | txSet slot tx tune =>
            -- the silent board does not see this apply
            refine ih _ _ ?_
            dsimp only [Driver.step]
            split
            · exact h.txSet
            · exact h
        | rxSet slot ch tune => exact ih _ _ h.rxSet
        | rxWant slot ch => exact ih _ _ h.rxWant
        | lpfCal bwMhz left succeeds tune => exact ih _ _ h.lpfCal
        | reset => exact ih _ _ h.resetSm
  refine hrun events .probed .probed ⟨rfl, rfl, fun _ => rfl, fun slot => ?_⟩
  match slot with
  | 0 => rfl
  | 1 => rfl

end Twin

/-! ## The apply of a new session -/

namespace Driver

variable {driver : Driver} {slot : Slot} {tune : Tune}

/-- The latches after an RX apply that succeeds. -/
theorem rxSet_fe (h : driver.rxAccepts ch tune) :
    ((driver.rxSet params slot ch tune).1.board slot).fe =
      store (driver.board slot).fe (rxWrites (driver.board slot).txS ch) := by
  rw [rxSet_eq, if_pos h, put_board_self, rxWrites, store_append]

/-- An apply that succeeds has something to show, and one that is refused has not. -/
theorem rxStaging_refused (h : driver.rxAccepts ch tune = false) :
    driver.rxStaging params slot ch tune = none := by
  simp [rxStaging, h]

/-- Neither the reset nor an RX apply takes the transmitter's applied channel. -/
theorem after_newSession_txS (earlier : List Event) (later : List RxApply) :
    ((after params (earlier ++ newSession later)).board slot).txS =
      ((after params earlier).board slot).txS := by
  -- the reset marks the wanted copy only, and an RX apply writes no TX channel
  have hrx : ∀ (later : List RxApply) (driver : Driver),
      (((later.map RxApply.event).foldl (step params) driver).board slot).txS =
        (driver.board slot).txS := by
    intro later
    induction later with
    | nil => exact fun _ => rfl
    | cons apply rest ih => exact fun driver => (ih _).trans (rxSet_txS params driver _ _ _ slot)
  rw [after, List.foldl_append, newSession, List.foldl_cons, hrx]
  rfl

end Driver

/-- On a board and its silent twin an RX apply comes to the same exactly if it is refused, or the
transmitter releases the board and the bits the apply leaves alone agree. -/
theorem rxStaging_eq_iff {driver silent : Driver} {slot : Slot} {tune : Tune}
    (h : Twin driver silent) :
    driver.rxStaging params slot ch tune = silent.rxStaging params slot ch tune ↔
      driver.rxAccepts ch tune = false ∨
        releases (driver.board slot).txS ch ∧
          ∀ bit ∈ stagedBits, bit ∉ driven (rxWrites none ch) →
            (driver.board slot).fe bit = (silent.board slot).fe bit := by
  have hsilent : releases (silent.board slot).txS ch := h.releases
  cases haccept : driver.rxAccepts ch tune with
  | false =>
      have haccept' := h.rxAccepts.symm.trans haccept
      rw [Driver.rxStaging_refused haccept, Driver.rxStaging_refused haccept']
      exact iff_of_true rfl (Or.inl rfl)
  | true =>
      have haccept' := h.rxAccepts.symm.trans haccept
      simp only [Driver.rxStaging, Driver.rxSet_snd, haccept, haccept', if_true,
        Driver.rxSet_fe haccept, Driver.rxSet_fe haccept', ← h.trim, Option.some.injEq,
        RxStaging.mk.injEq, Bool.true_eq_false, false_or]
      obtain ⟨hlna', hpga', hpath', hwrites'⟩ :=
        rxStaging_congr_owner params (dcTrim ch driver.cache.rxDcTrimHz) hsilent
      -- port and parking show the owner, and only the bits that are not driven are left
      constructor
      · rintro ⟨hport, hlatches, -, -, -, -, hparking⟩
        have hreleases : releases (driver.board slot).txS ch :=
          releases_iff.mpr ⟨hport.trans (portStaging_of_releases hsilent),
            hparking.trans (paParking_of_releases hsilent)⟩
        obtain ⟨-, -, -, hwrites⟩ := rxStaging_congr_owner params none hreleases
        rw [hwrites, hwrites', map_store_eq_iff] at hlatches
        exact ⟨hreleases, hlatches⟩
      · rintro ⟨hreleases, hbits⟩
        obtain ⟨hlna, hpga, hpath, hwrites⟩ :=
          rxStaging_congr_owner params (dcTrim ch driver.cache.rxDcTrimHz) hreleases
        refine ⟨?_, ?_, hlna.trans hlna'.symm, hpga.trans hpga'.symm, ?_, hpath.trans hpath'.symm,
          ?_⟩
        · rw [portStaging_of_releases hreleases, portStaging_of_releases hsilent]
        · rw [hwrites, hwrites', map_store_eq_iff]
          exact hbits
        · rw [chipLoopback_of_releases hreleases, chipLoopback_of_releases hsilent]
        · rw [paParking_of_releases hreleases, paParking_of_releases hsilent]

/-- The RX apply owes nothing to the transmitter of earlier sessions: it is refused, or the TX
channel applied last releases the board and the bits that the apply leaves alone stand as the RX
applies put them. -/
def BoundaryFree (params : Params) (earlier : List Event) (later : List RxApply) (slot : Slot)
    (ch : RxCh) (tune : Tune) : Prop :=
  let events := earlier ++ newSession later
  (Driver.after params events).rxAccepts ch tune = false ∨
    releases ((Driver.after params earlier).board slot).txS ch ∧
      ∀ bit ∈ stagedBits, bit ∉ driven (rxWrites none ch) →
        ((Driver.after params events).board slot).fe bit =
          ((Driver.after params (silence events)).board slot).fe bit

/-- After a session reset and RX applies only, an RX apply comes to what it comes to on boards
whose TX was never enabled exactly if it owes nothing to the earlier transmitter. -/
theorem independent_iff_released (params : Params) (earlier : List Event) (later : List RxApply)
    (slot : Slot) (ch : RxCh) (tune : Tune) :
    (Driver.after params (earlier ++ newSession later)).rxStaging params slot ch tune =
        (Driver.after params (silence (earlier ++ newSession later))).rxStaging params slot ch
          tune ↔
      BoundaryFree params earlier later slot ch tune := by
  rw [rxStaging_eq_iff (Twin.after (earlier ++ newSession later)),
    Driver.after_newSession_txS earlier later]
  exact Iff.rfl

/-- A client transmits at 2.4 GHz and is gone without switching TX off; after the reset the next
client receives at gain -20. The port is not staged, no attenuator is in, and the amplifiers are
not parked. -/
theorem port_stays_owned :
    let transmits : TxCh := ⟨2400000000, 20, .smaA, false, .rfOn⟩
    let receives : RxCh := ⟨2400000000, -20, 20, 0, 0, .smaA, false, .auto, .rfOn⟩
    let events := [.txSet 0 transmits .locked] ++ newSession []
    (Driver.after .standard events).rxStaging .standard 0 receives .locked ≠
      (Driver.after .standard (silence events)).rxStaging .standard 0 receives .locked := by
  decide

end RfnmDriver.Lime
