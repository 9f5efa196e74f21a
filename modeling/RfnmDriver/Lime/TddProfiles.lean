import RfnmDriver.Daughterboard.HalfProfiles
import RfnmDriver.Lime.SessionBoundary

/-!
# TDD on the Lime boards

The applies of `rfnm_lime_m.c` with their half-profiles. An RX apply in TDD writes the port and the
amplifiers itself, unless TX is in plain RF_ON, which keeps the port, or its path is LOOPBACK,
which leaves the second power amplifier as the last TX apply put it.
-/

namespace RfnmDriver.Lime

open Daughterboard LatchBit RegisterFile

/-- The driver with the profiles of its boards. -/
structure TddDriver where
  driver : Driver
  profiles : Slot → Profiles LatchBit

/-- One apply. -/
inductive TddEvent
  | txSet (slot : Slot) (ch : TxCh) (tune : Tune)
  | rxSet (slot : Slot) (ch : RxCh) (tune : Tune)

def TddEvent.slot : TddEvent → Slot
  | .txSet slot _ _ | .rxSet slot _ _ => slot

def TxCh.tdd (ch : TxCh) : Bool := ch.enable = .rfOnTdd

def RxCh.tdd (ch : RxCh) : Bool := ch.enable = .rfOnTdd

namespace TddDriver

variable (params : Params) (tdd : TddDriver) (slot : Slot)

/-- The RX channel of the board is applied in TDD. -/
def rxTdd : Bool := (tdd.driver.board slot).rxS.tdd

/-- Its TX channel is applied in TDD. -/
def txTdd : Bool := (tdd.driver.board slot).txS.any TxCh.tdd

/-- An apply in TDD that succeeds. -/
def snaps : TddEvent → Bool
  | .txSet slot ch tune => (tdd.driver.txSet params slot ch tune).2 && ch.tdd
  | .rxSet slot ch tune => (tdd.driver.rxSet params slot ch tune).2 && ch.tdd

/-- `rfnm_tx_ch_set`, with the profile it takes. -/
def txSet (ch : TxCh) (tune : Tune) : TddDriver :=
  let driver := (tdd.driver.txSet params slot ch tune).1
  let taken := (tdd.profiles slot).snapTx (driver.board slot).fe (tdd.rxTdd slot)
  { driver := driver
    profiles :=
      if tdd.snaps params (.txSet slot ch tune) then Function.update tdd.profiles slot taken
      else tdd.profiles }

/-- `rfnm_rx_ch_set`, with the profile it takes. -/
def rxSet (ch : RxCh) (tune : Tune) : TddDriver :=
  let driver := (tdd.driver.rxSet params slot ch tune).1
  let taken := (tdd.profiles slot).snapRx (driver.board slot).fe (tdd.txTdd slot)
  { driver := driver
    profiles :=
      if tdd.snaps params (.rxSet slot ch tune) then Function.update tdd.profiles slot taken
      else tdd.profiles }

/-- A TX apply reaches only a board with a TX channel. -/
def offers : TddEvent → Bool
  | .txSet slot _ _ => (tdd.driver.board slot).txS.isSome
  | .rxSet .. => true

/-- One apply. -/
def set : TddEvent → TddDriver
  | .txSet slot ch tune => tdd.txSet params slot ch tune
  | .rxSet slot ch tune => tdd.rxSet params slot ch tune

def next (event : TddEvent) : Option TddDriver :=
  if tdd.offers event then some (tdd.set params event) else none

/-- With both boards bound. -/
def probed : TddDriver := ⟨.probed, fun _ => .blank⟩

end TddDriver

/-! ## Demands -/

/-- The amplifiers of the receiver front end. -/
def lnaBits : List LatchBit := [g1l, g2l, g2pl1, g2pl2]

/-- The bits that put the power amplifiers in the chain. The loopback goes around them. -/
def paBits (path : RfPath) : List LatchBit :=
  if path = .loopback then paSupplies else paSupplies ++ [tl1i, tl1o, tl2i, tl2o]

/-- The port at transmit. -/
def transmitPort (path : RfPath) : Demand LatchBit :=
  if path = .loopback then [(antT, true), (ao1, true), (ao2, false)] else lime0AntTx

/-- What a TX channel demands: the port at transmit, and the amplifiers as its power says. -/
def txDemand (params : Params) (ch : TxCh) : Demand LatchBit :=
  transmitPort ch.path ++ (txChainWrites params ch).1.filter fun write => write.1 ∈ paBits ch.path

/-- What an RX channel demands: no power amplifier, the port as a receiver alone would stage it,
and the amplifier of its filter. -/
def rxDemand (ch : RxCh) : Demand LatchBit :=
  [(paS1, true), (paS2, true)] ++ (portStaging none ch).writes ++
    (filterWrites ch).filter fun write => write.1 ∈ lnaBits

namespace TddDriver

variable (params : Params) (slot : Slot) (tdd : TddDriver)

/-- The profiles of a board, and what its channels in TDD demand. -/
def duplex : Duplex LatchBit where
  profiles := tdd.profiles slot
  tx := ((tdd.driver.board slot).txS.filter TxCh.tdd).map (txDemand params)
  rx := if tdd.rxTdd slot then some (rxDemand (tdd.driver.board slot).rxS) else none

/-- An RX apply finds in the latches that it does not write what its channel demands. -/
def Finds (ch : RxCh) : Prop :=
  ∀ want ∈ rxDemand ch, want.1 ∉ driven (rxWrites (tdd.driver.board slot).txS ch) →
    (tdd.driver.board slot).fe want.1 = want.2

/-- While the TX channel is in TDD, an RX apply in TDD finds in the latches what it does not write
itself, and a TX apply finds an RX profile that meets the demands. -/
def Spared (event : TddEvent) : Prop :=
  event.slot = slot → tdd.snaps params event = true →
    match event with
    | .txSet .. => tdd.rxTdd slot = true →
        Meets (tdd.profiles slot).rx (rxDemand (tdd.driver.board slot).rxS)
    | .rxSet _ ch _ => tdd.txTdd slot = true → tdd.Finds slot ch

/-- An RX apply in TDD finds in the latches what it does not write itself. -/
def Settled (event : TddEvent) : Prop :=
  event.slot = slot → tdd.snaps params event = true →
    match event with
    | .txSet .. => True
    | .rxSet _ ch _ => tdd.Finds slot ch

/-- What an apply is for the profiles of a board. -/
def duplexEvent (event : TddEvent) : DuplexEvent LatchBit :=
  let following := tdd.set params event
  let fe := (following.driver.board slot).fe
  if event.slot = slot ∧ tdd.snaps params event = true then
    match event with
    | .txSet _ ch _ => .tx fe (txDemand params ch)
    | .rxSet _ ch _ => .rx fe (rxDemand ch)
  else .rest (following.duplex params slot).tx (following.duplex params slot).rx

end TddDriver

/-! ## What the applies write -/

/-- The chain is written in one way or another. -/
theorem txChainWrites_eq (params : Params) (ch : TxCh) :
    ∃ pa1 pa2 t24 t12 t6, (txChainWrites params ch).1 = txChain pa1 pa2 t24 t12 t6 := by
  unfold txChainWrites lime0TxForce lime0TxPower
  split
  · exact ⟨_, _, _, _, _, rfl⟩
  · split
    · exact ⟨_, _, _, _, _, rfl⟩
    · exact ⟨_, _, _, _, _, rfl⟩

/-- The bits of the chain. -/
theorem driven_txChain (pa1 pa2 t24 t12 t6 : Bool) :
    driven (txChain pa1 pa2 t24 t12 t6) =
      [tl1i, tl1o, paS1, tl2i, tl2o, paS2, t24i, t24o, t12i, t12o, t6i, t6o] := rfl

/-- The bits of the low-pass filter. -/
theorem driven_txLpf (freq : Nat) : driven (lime0TxLpf freq) = [tfa, tfb1, tfb2] := by
  unfold lime0TxLpf
  split_ifs <;> rfl

/-- The bits of the notch. -/
theorem driven_fmNotch (en : Bool) : driven (lime0FmNotch en) = [fa2, fa3] := by
  cases en <;> rfl

/-- The filters of the bank. -/
def filters : List (List Srb) :=
  [lime0Filter0To70, lime0Filter30To60, lime0Filter60To120, lime0Filter120To250,
    lime0Filter250To480, lime0Filter480To1000, lime0Filter1166To1229, lime0Filter1574To1605,
    lime0Filter1805To2200, lime0Filter2300To2690, lime0Filter950To4000]

/-- One of the filters, and the notch again in the FM band. -/
def InBank (writes : List Srb) : Prop :=
  ∃ filter ∈ filters, ∃ last ∈ [[], lime0FmNotch false], writes = filter ++ last

theorem InBank.plain {filter : List Srb} (h : filter ∈ filters) : InBank filter :=
  ⟨filter, h, [], .head _, (List.append_nil _).symm⟩

/-- An apply writes the notch and one of the filters. -/
theorem filterWrites_eq (ch : RxCh) :
    ∃ first bank, InBank bank ∧ filterWrites ch = lime0FmNotch first ++ bank := by
  refine ⟨_, _, ?_, rfl⟩
  have hauto : (if ch.fmNotch = .auto then lime0FmNotch false else []) ∈
      [[], lime0FmNotch false] :=
    iteInduction (fun _ => .tail _ (.head _)) fun _ => .head _
  refine iteInduction (fun _ => .plain (by decide)) fun _ => ?_
  refine iteInduction (fun _ => .plain (by decide)) fun _ => ?_
  refine iteInduction (fun _ => ⟨lime0Filter60To120, by decide, _, hauto, rfl⟩) fun _ => ?_
  refine iteInduction (fun _ => ⟨lime0Filter120To250, by decide, _, ?_, rfl⟩) fun _ => ?_
  · exact iteInduction (fun _ => hauto) fun _ => .head _
  refine iteInduction (fun _ => .plain (by decide)) fun _ => ?_
  refine iteInduction (fun _ => .plain (by decide)) fun _ => ?_
  refine iteInduction (fun _ => .plain (by decide)) fun _ => ?_
  refine iteInduction (fun _ => .plain (by decide)) fun _ => ?_
  refine iteInduction (fun _ => .plain (by decide)) fun _ => ?_
  exact iteInduction (fun _ => .plain (by decide)) fun _ => .plain (by decide)

/-- The filter bank and its amplifiers are on the second latch. -/
theorem filterWrites_latch (ch : RxCh) :
    ∀ register ∈ driven (filterWrites ch), register.latch = 2 := by
  obtain ⟨first, bank, ⟨filter, hfilter, last, hlast, rfl⟩, heq⟩ := filterWrites_eq ch
  have hfilters : ∀ filter ∈ filters, ∀ register ∈ driven filter, register.latch = 2 := by decide
  have hlasts : ∀ last ∈ [[], lime0FmNotch false], ∀ register ∈ driven last,
      register.latch = 2 := by decide
  intro register hregister
  rw [heq, driven_append, driven_append, driven_fmNotch] at hregister
  rcases List.mem_append.mp hregister with hfirst | hrest
  · rcases List.mem_pair.mp hfirst with rfl | rfl <;> rfl
  · rcases List.mem_append.mp hrest with hmem | hmem
    · exact hfilters filter hfilter register hmem
    · exact hlasts last hlast register hmem

theorem bandWrites_latch (owner : Option TxCh) (ch : RxCh) :
    ∀ register ∈ driven (bandWrites owner ch), register.latch = 2 := by
  unfold bandWrites
  split
  · exact nofun
  · intro register hregister
    rw [driven_append] at hregister
    rcases List.mem_append.mp hregister with hfilter | hlrim
    · exact filterWrites_latch ch register hfilter
    · split at hlrim
      · cases hlrim
      · obtain rfl := List.mem_singleton.mp hlrim
        rfl

/-- A filter switches one amplifier. -/
theorem filterWrites_lna (ch : RxCh) :
    ∃ write, (filterWrites ch).filter (fun write => write.1 ∈ lnaBits) = [write] := by
  obtain ⟨first, bank, ⟨filter, hfilter, last, hlast, rfl⟩, heq⟩ := filterWrites_eq ch
  have hfilters : ∀ filter ∈ filters,
      (filter.filter fun write => write.1 ∈ lnaBits).length = 1 := by decide
  have hlasts : ∀ last ∈ [[], lime0FmNotch false],
      (last.filter fun write => write.1 ∈ lnaBits) = [] := by decide
  have hfirst : (lime0FmNotch first).filter (fun write => write.1 ∈ lnaBits) = [] := by
    cases first <;> rfl
  rw [heq, List.filter_append, List.filter_append, hfirst, hlasts last hlast, List.append_nil]
  exact List.length_eq_one_iff.mp (hfilters filter hfilter)

/-- The antenna port is on the first latch, but for the bias. -/
theorem staging_latch (staging : PortStaging) :
    ∀ register ∈ driven staging.writes, register.latch = 1 ∧ register ≠ antBias := by
  cases staging <;> decide

/-- The power amplifiers are on the third. -/
theorem parking_latch (parking : PaParking) :
    ∀ register ∈ driven parking.writes, register.latch = 3 := by
  cases parking <;> decide

/-- The bits an RX apply writes for the bias. -/
def biasWrites (owner : Option TxCh) (ch : RxCh) : List Srb :=
  if chipLoopback owner ch then [] else setBiasT ch.biasTee

theorem biasWrites_bit (owner : Option TxCh) (ch : RxCh) :
    ∀ register ∈ driven (biasWrites owner ch), register = antBias := by
  unfold biasWrites
  split
  · exact nofun
  · exact fun register => List.mem_singleton.mp

section Rx

variable {owner : Option TxCh} {ch : RxCh} {register : LatchBit}

theorem not_band (h : register.latch ≠ 2) : register ∉ driven (bandWrites owner ch) :=
  fun hmem => h (bandWrites_latch owner ch register hmem)

theorem not_staging (h : register.latch ≠ 1) {staging : PortStaging} :
    register ∉ driven staging.writes :=
  fun hmem => h (staging_latch staging register hmem).1

theorem not_parking (h : register.latch ≠ 3) {parking : PaParking} :
    register ∉ driven parking.writes :=
  fun hmem => h (parking_latch parking register hmem)

theorem not_bias (h : register ≠ antBias) : register ∉ driven (biasWrites owner ch) :=
  fun hmem => h (biasWrites_bit owner ch register hmem)

theorem ne_antBias (h : register.latch ≠ 1) : register ≠ antBias := fun heq => h (heq ▸ rfl)

/-- An RX apply writes the band, the port, the amplifiers and the bias. -/
theorem rxWrites_eq (owner : Option TxCh) (ch : RxCh) :
    rxWrites owner ch = bandWrites owner ch ++ ((portStaging owner ch).writes ++
      ((paParking owner ch).writes ++ biasWrites owner ch)) :=
  congrArg _ (List.append_assoc _ _ _)

/-- Of the first latch it writes the port, apart from the bias. -/
theorem rxWrites_first (h : register.latch = 1) (hbias : register ≠ antBias) :
    (register ∈ driven (rxWrites owner ch) ↔ register ∈ driven (portStaging owner ch).writes) ∧
      ∀ fe : Fe, store fe (rxWrites owner ch) register =
        store fe (portStaging owner ch).writes register := by
  rw [rxWrites_eq]
  refine middle_decides (not_band (by omega)) fun hmem => ?_
  rw [driven_append, List.mem_append] at hmem
  exact hmem.elim (not_parking (by omega)) (not_bias hbias)

/-- Of the second it writes the band. -/
theorem rxWrites_second (h : register.latch = 2) :
    (register ∈ driven (rxWrites owner ch) ↔ register ∈ driven (bandWrites owner ch)) ∧
      ∀ fe : Fe, store fe (rxWrites owner ch) register =
        store fe (bandWrites owner ch) register := by
  rw [rxWrites_eq]
  have hfirst : register ∉ driven ([] : List Srb) := List.not_mem_nil
  refine middle_decides hfirst fun hmem => ?_
  simp only [driven_append, List.mem_append] at hmem
  rcases hmem with hport | hpa | hbias
  · exact not_staging (by omega) hport
  · exact not_parking (by omega) hpa
  · exact not_bias (ne_antBias (by omega)) hbias

/-- Of the third it writes the amplifiers. -/
theorem rxWrites_third (h : register.latch = 3) :
    (register ∈ driven (rxWrites owner ch) ↔ register ∈ driven (paParking owner ch).writes) ∧
      ∀ fe : Fe, store fe (rxWrites owner ch) register =
        store fe (paParking owner ch).writes register := by
  rw [rxWrites_eq, ← List.append_assoc]
  refine middle_decides (fun hmem => ?_) (not_bias (ne_antBias (by omega)))
  rw [driven_append, List.mem_append] at hmem
  exact hmem.elim (not_band (by omega)) (not_staging (by omega))

/-- The amplifiers are parked or left alone. -/
theorem parking_meets (parking : PaParking) (fe : Fe) :
    ∀ want ∈ [(paS1, true), (paS2, true)], want.1 ∈ driven parking.writes →
      store fe parking.writes want.1 = want.2 := by
  intro want hwant hdriven
  rcases List.mem_pair.mp hwant with rfl | rfl
  · cases parking with
    | full => rfl
    | supplyOnly => rfl
    | untouched => cases hdriven
  · cases parking with
    | full => rfl
    | supplyOnly => exact absurd hdriven (by decide)
    | untouched => cases hdriven

/-- Staging writes each bit once. -/
theorem staging_meets (staging : PortStaging) (fe : Fe) :
    Meets (store fe staging.writes) staging.writes := by
  refine meets_store_of_nodup ?_
  cases staging <;> decide

/-- Where TX is not in plain RF_ON, the port is staged as for a receiver alone. -/
theorem portStaging_of_not_live (h : rfLive owner = false) :
    portStaging owner ch = portStaging none ch := by
  unfold portStaging
  rw [h]
  rfl

/-- The amplifier of the filter is switched where the band is written. -/
theorem band_meets (owner : Option TxCh) (ch : RxCh) (fe : Fe) :
    ∀ want ∈ (filterWrites ch).filter (fun write => write.1 ∈ lnaBits),
      want.1 ∈ driven (bandWrites owner ch) →
        store fe (bandWrites owner ch) want.1 = want.2 := by
  intro want hwant hdriven
  obtain ⟨only, honly⟩ := filterWrites_lna ch
  have hsame : ∀ write ∈ filterWrites ch, write.1 ∈ lnaBits → write = only := by
    intro write hwrite hlna
    have hmem : write ∈ [only] := honly ▸ List.mem_filter.mpr ⟨hwrite, decide_eq_true hlna⟩
    exact List.mem_singleton.mp hmem
  obtain ⟨hfilter, hlna⟩ := List.mem_filter.mp hwant
  have hlna := of_decide_eq_true hlna
  unfold bandWrites at hdriven ⊢
  cases hloop : chipLoopback owner ch with
  | true =>
      rw [hloop] at hdriven
      cases hdriven
  | false =>
      rw [if_neg Bool.false_ne_true]
      refine store_eq_of_mem (List.mem_append_left _ hfilter) fun write hwrite hregister => ?_
      rcases List.mem_append.mp hwrite with hmem | hlrim
      · have hwriteLna : write.1 ∈ lnaBits := hregister ▸ hlna
        rw [hsame write hmem hwriteLna, hsame want hfilter hlna]
      · split at hlrim
        · cases hlrim
        · obtain rfl := List.mem_singleton.mp hlrim
          have hlnas : ∀ bit ∈ lnaBits, lrim ≠ bit := by decide
          exact absurd hregister (hlnas want.1 hlna)

/-- What an RX apply writes of the bits that are demanded has the value that is demanded. -/
theorem rx_drives (owner : Option TxCh) (ch : RxCh) (fe : Fe) :
    ∀ want ∈ rxDemand ch, want.1 ∈ driven (rxWrites owner ch) →
      store fe (rxWrites owner ch) want.1 = want.2 := by
  intro want hwant hdriven
  simp only [rxDemand, List.mem_append] at hwant
  rcases hwant with (hpa | hport) | hlna
  · have hlatch : want.1.latch = 3 := by
      rcases List.mem_pair.mp hpa with rfl | rfl <;> rfl
    rw [(rxWrites_third hlatch).1] at hdriven
    rw [(rxWrites_third hlatch).2]
    exact parking_meets _ fe want hpa hdriven
  · obtain ⟨hlatch, hbias⟩ := staging_latch _ want.1 (List.mem_map_of_mem hport)
    rw [(rxWrites_first hlatch hbias).1] at hdriven
    rw [(rxWrites_first hlatch hbias).2]
    cases hlive : rfLive owner with
    | true =>
        -- TX owns the port, and nothing of it is written
        have howned : portStaging owner ch = .txOwned := if_pos hlive
        rw [howned] at hdriven
        cases hdriven
    | false =>
        rw [portStaging_of_not_live hlive]
        exact staging_meets _ fe want hport
  · have hlatch := filterWrites_latch ch want.1
      (List.mem_map_of_mem (List.mem_filter.mp hlna).1)
    rw [(rxWrites_second hlatch).1] at hdriven
    rw [(rxWrites_second hlatch).2]
    exact band_meets owner ch fe want hlna hdriven

/-- Where TX is not in plain RF_ON and the path is none through the transmitter, an RX apply in TDD
writes all that is demanded. -/
theorem rx_driven (hlive : rfLive owner = false) (hpath : ch.path ≠ .loopback)
    (htdd : ch.tdd = true) : ∀ want ∈ rxDemand ch, want.1 ∈ driven (rxWrites owner ch) := by
  intro want hwant
  rw [rxWrites_eq]
  simp only [driven_append, List.mem_append]
  simp only [rxDemand, List.mem_append] at hwant
  rcases hwant with (hpa | hport) | hlna
  · have hparking : paParking owner ch = .full := by
      have henable : ch.enable = .rfOnTdd := of_decide_eq_true htdd
      simp [paParking, hpath, henable]
    rw [hparking]
    refine .inr (.inr (.inl ?_))
    rcases List.mem_pair.mp hpa with rfl | rfl <;> decide
  · rw [portStaging_of_not_live hlive]
    exact .inr (.inl (List.mem_map_of_mem hport))
  · have hloop : chipLoopback owner ch = false := by simp [chipLoopback, hpath]
    unfold bandWrites
    rw [hloop, if_neg Bool.false_ne_true, driven_append]
    exact .inl (List.mem_append_left _ (List.mem_map_of_mem (List.mem_filter.mp hlna).1))

end Rx

/-! ## What a TX apply leaves -/

/-- The port and the amplifiers of the receiver, as a TX apply switches them. -/
def portSwitch (path : RfPath) : List Srb :=
  if path ≠ .loopback then lime0AntTx ++ lime0DisableAllLna else lime0Loopback

theorem txWrites_eq (params : Params) (ch : TxCh) :
    txWrites params ch = lime0TxBand (2350 ≤ mhz ch.freq) ++ ((txChainWrites params ch).1 ++
      (lime0TxLpf (mhz ch.freq) ++ (portSwitch ch.path ++ setBiasT ch.biasTee))) := by
  simp only [txWrites, portSwitch, List.append_assoc]

/-- The chain, the low-pass filter and the band are on the third latch. -/
theorem chain_latch (params : Params) (ch : TxCh) :
    ∀ register ∈ driven (lime0TxBand (2350 ≤ mhz ch.freq) ++ ((txChainWrites params ch).1 ++
      lime0TxLpf (mhz ch.freq))), register.latch = 3 := by
  obtain ⟨pa1, pa2, t24, t12, t6, hchain⟩ := txChainWrites_eq params ch
  have hband : driven (lime0TxBand (2350 ≤ mhz ch.freq)) = [tfi] := rfl
  rw [driven_append, driven_append, hband, hchain, driven_txChain, driven_txLpf]
  decide

/-- The port is switched to transmit. -/
theorem port_meets (path : RfPath) (fe : Fe) :
    Meets (store fe (portSwitch path)) (transmitPort path) := by
  by_cases hpath : path = .loopback
  · have hport : ∀ want ∈ transmitPort .loopback, want ∈ portSwitch .loopback := by decide
    subst hpath
    exact fun want hwant => meets_store_of_nodup (by decide) want (hport want hwant)
  · unfold transmitPort portSwitch
    rw [if_neg hpath, if_pos hpath]
    exact fun want hwant => meets_store_of_nodup (by decide) want (List.mem_append_left _ hwant)

/-- A TX apply leaves what its channel demands. -/
theorem tx_meets (params : Params) (ch : TxCh) (fe : Fe) :
    Meets (store fe (txWrites params ch)) (txDemand params ch) := by
  intro want hwant
  rw [txWrites_eq]
  rcases List.mem_append.mp hwant with hport | hpa
  · have hbits : ∀ path, ∀ write ∈ transmitPort path, write.1.latch = 1 ∧ write.1 ≠ antBias := by
      intro path
      cases path <;> decide
    obtain ⟨hlatch, hne⟩ := hbits ch.path want hport
    rw [← List.append_assoc (txChainWrites params ch).1, ← List.append_assoc]
    rw [(middle_decides (fun hmem => ?_) fun hmem => hne (List.mem_singleton.mp hmem)).2]
    · exact port_meets ch.path fe want hport
    · have := chain_latch params ch want.1 hmem
      omega
  · -- after the chain only the loopback writes bits of it, and none of the supplies
    obtain ⟨hmem, hbit⟩ := List.mem_filter.mp hpa
    have hbit := of_decide_eq_true hbit
    have hbits : ∀ path, ∀ bit ∈ paBits path, bit ≠ tfi ∧ bit ∉ [tfa, tfb1, tfb2] ∧
        bit ∉ driven (portSwitch path) ∧ bit ≠ antBias := by
      intro path
      cases path <;> decide
    obtain ⟨hband, hlpf, hswitch, hbias⟩ := hbits ch.path want.1 hbit
    obtain ⟨pa1, pa2, t24, t12, t6, hchain⟩ := txChainWrites_eq params ch
    rw [hchain] at hmem ⊢
    rw [(middle_decides (fun hfirst => hband (List.mem_singleton.mp hfirst)) fun hrest => ?_).2]
    · exact meets_store_of_nodup (by rw [driven_txChain]; decide) want hmem
    · simp only [driven_append, driven_txLpf, List.mem_append] at hrest
      rcases hrest with hfilter | hport | hlast
      · exact hlpf hfilter
      · exact hswitch hport
      · exact hbias (List.mem_singleton.mp hlast)

/-! ## What an apply is for the profiles -/

namespace Driver

variable (params : Params) (driver : Driver) (slot : Slot)

/-- The channels after a TX apply. -/
theorem txSet_channels (ch : TxCh) (tune : Tune) :
    let set := driver.txSet params slot ch tune
    (set.1.board slot).rxS = (driver.board slot).rxS ∧
      (set.1.board slot).txS = (if set.2 then some ch else (driver.board slot).txS) ∧
      ∀ other, other ≠ slot → set.1.board other = driver.board other := by
  dsimp only
  rw [txSet_eq]
  by_cases hoff : ch.enable = .rfOff
  · simp only [hoff, if_true]
    exact ⟨by simp, by simp, fun other hother => put_board_of_ne _ _ hother _ _⟩
  · cases htuned : (driver.txTuned slot ch tune).2 <;>
      simp only [hoff, htuned, if_true, if_false, Bool.false_eq_true] <;>
      exact ⟨by simp, by simp, fun other hother => put_board_of_ne _ _ hother _ _⟩

/-- The latches after a successful TX apply of a channel that is on. -/
theorem txSet_fe {ch : TxCh} {tune : Tune} (hon : ch.enable ≠ .rfOff)
    (hsucceeds : (driver.txSet params slot ch tune).2 = true) :
    ((driver.txSet params slot ch tune).1.board slot).fe =
      store (driver.board slot).fe (txWrites params ch) := by
  rw [txSet_eq] at hsucceeds ⊢
  dsimp only at hsucceeds ⊢
  rw [if_neg hon] at hsucceeds ⊢
  split_ifs with htuned
  · rw [put_board_self]
  · rw [if_neg htuned] at hsucceeds
    cases hsucceeds

/-- The channels after an RX apply. -/
theorem rxSet_channels (ch : RxCh) (tune : Tune) :
    let set := driver.rxSet params slot ch tune
    (set.1.board slot).rxS = (if set.2 then ch else (driver.board slot).rxS) ∧
      ∀ other, other ≠ slot → set.1.board other = driver.board other := by
  dsimp only
  rw [rxSet_eq]
  cases haccepts : driver.rxAccepts ch tune <;>
    simp only [if_true, if_false, Bool.false_eq_true] <;>
    exact ⟨by simp, fun other hother => put_board_of_ne _ _ hother _ _⟩

end Driver

namespace TddDriver

variable {params : Params} {slot : Slot} {tdd : TddDriver} {event : TddEvent}

theorem duplex_rx_eq : (tdd.duplex params slot).rx =
    if tdd.rxTdd slot then some (rxDemand (tdd.driver.board slot).rxS) else none := rfl

theorem duplex_rx_isSome : (tdd.duplex params slot).rx.isSome = tdd.rxTdd slot := by
  rw [duplex_rx_eq]
  cases tdd.rxTdd slot <;> rfl

theorem duplex_tx_isSome : (tdd.duplex params slot).tx.isSome = tdd.txTdd slot := by
  rw [duplex, txTdd, Option.isSome_map, Option.isSome_filter]

/-- The profiles see of a board its own profiles and its applied channels. -/
theorem duplex_congr {other : TddDriver} (hprofiles : other.profiles slot = tdd.profiles slot)
    (htxS : (other.driver.board slot).txS = (tdd.driver.board slot).txS)
    (hrxS : (other.driver.board slot).rxS = (tdd.driver.board slot).rxS) :
    other.duplex params slot = tdd.duplex params slot := by
  unfold duplex rxTdd
  rw [hprofiles, htxS, hrxS]

theorem duplex_rx_congr {other : TddDriver}
    (h : (other.driver.board slot).rxS = (tdd.driver.board slot).rxS) :
    (other.duplex params slot).rx = (tdd.duplex params slot).rx := by
  unfold duplex rxTdd
  rw [h]

/-- An apply of the other board. -/
theorem duplex_other (h : slot ≠ event.slot) :
    (tdd.set params event).duplex params slot = tdd.duplex params slot := by
  cases event with
  | txSet place ch tune =>
      have hboard := (tdd.driver.txSet_channels params place ch tune).2.2 slot h
      refine duplex_congr ?_ (congrArg Board.txS hboard) (congrArg Board.rxS hboard)
      show (if _ then _ else _ : Slot → Profiles LatchBit) slot = _
      split
      · exact Function.update_of_ne h _ _
      · rfl
  | rxSet place ch tune =>
      have hboard := (tdd.driver.rxSet_channels params place ch tune).2 slot h
      refine duplex_congr ?_ (congrArg Board.txS hboard) (congrArg Board.rxS hboard)
      show (if _ then _ else _ : Slot → Profiles LatchBit) slot = _
      split
      · exact Function.update_of_ne h _ _
      · rfl

theorem snaps_txSet {place : Slot} {ch : TxCh} {tune : Tune}
    (h : tdd.snaps params (.txSet place ch tune) = true) :
    (tdd.driver.txSet params place ch tune).2 = true ∧ ch.tdd = true :=
  Bool.and_eq_true _ _ |>.mp h

theorem snaps_rxSet {place : Slot} {ch : RxCh} {tune : Tune}
    (h : tdd.snaps params (.rxSet place ch tune) = true) :
    (tdd.driver.rxSet params place ch tune).2 = true ∧ ch.tdd = true :=
  Bool.and_eq_true _ _ |>.mp h

/-- An apply that takes no profile leaves them, and adds to no demand. -/
theorem duplex_rest (h : tdd.snaps params event = false) :
    let following := (tdd.set params event).duplex params event.slot
    let duplex := tdd.duplex params event.slot
    following.profiles = duplex.profiles ∧ (following.tx = duplex.tx ∨ following.tx = none) ∧
      (following.rx = duplex.rx ∨ following.rx = none) := by
  cases event with
  | txSet slot ch tune =>
      obtain ⟨hrxS, htxS, -⟩ := tdd.driver.txSet_channels params slot ch tune
      have hprofiles : (tdd.txSet params slot ch tune).profiles = tdd.profiles := by
        simp [txSet, h]
      refine ⟨congrFun hprofiles slot, ?_, .inl (duplex_rx_congr hrxS)⟩
      · have h : ((tdd.driver.txSet params slot ch tune).2 && ch.tdd) = false := h
        simp only [duplex, set, TddEvent.slot, txSet, htxS]
        cases hsucceeds : (tdd.driver.txSet params slot ch tune).2 with
        | false => exact .inl rfl
        | true =>
            rw [hsucceeds, Bool.true_and] at h
            exact .inr (by simp [h])
  | rxSet slot ch tune =>
      obtain ⟨hrxS, -⟩ := tdd.driver.rxSet_channels params slot ch tune
      have htxS := tdd.driver.rxSet_txS params slot ch tune slot
      have hprofiles : (tdd.rxSet params slot ch tune).profiles = tdd.profiles := by
        simp [rxSet, h]
      refine ⟨congrFun hprofiles slot, .inl ?_, ?_⟩
      · simp only [duplex, set, TddEvent.slot, rxSet, htxS]
      · have h : ((tdd.driver.rxSet params slot ch tune).2 && ch.tdd) = false := h
        simp only [duplex, set, TddEvent.slot, rxSet, rxTdd, hrxS]
        cases hsucceeds : (tdd.driver.rxSet params slot ch tune).2 with
        | false => exact .inl rfl
        | true =>
            rw [hsucceeds, Bool.true_and] at h
            exact .inr (by simp [h])

/-- A TX apply that takes a profile. -/
theorem txSet_of_tdd {ch : TxCh} {tune : Tune}
    (h : tdd.snaps params (.txSet slot ch tune) = true) :
    let fe := store (tdd.driver.board slot).fe (txWrites params ch)
    ((tdd.txSet params slot ch tune).driver.board slot).fe = fe ∧
      (tdd.txSet params slot ch tune).duplex params slot =
        (tdd.duplex params slot).step (.tx fe (txDemand params ch)) := by
  obtain ⟨hsucceeds, htdd⟩ := snaps_txSet h
  obtain ⟨hrxS, htxS, -⟩ := tdd.driver.txSet_channels params slot ch tune
  have hon : ch.enable ≠ .rfOff := by
    rw [show ch.enable = .rfOnTdd from of_decide_eq_true htdd]
    nofun
  have hfe := tdd.driver.txSet_fe params slot hon hsucceeds
  rw [hsucceeds, if_pos rfl] at htxS
  refine ⟨hfe, Duplex.ext ?_ ?_ (duplex_rx_congr hrxS)⟩
  · simp only [Duplex.step, duplex_rx_isSome]
    simp [duplex, txSet, h, hfe]
  · simp [duplex, txSet, Duplex.step, htxS, htdd]

/-- An RX apply that takes a profile. -/
theorem rxSet_of_tdd {ch : RxCh} {tune : Tune}
    (h : tdd.snaps params (.rxSet slot ch tune) = true) :
    let board := tdd.driver.board slot
    let fe := store board.fe (rxWrites board.txS ch)
    ((tdd.rxSet params slot ch tune).driver.board slot).fe = fe ∧
      (tdd.rxSet params slot ch tune).duplex params slot =
        (tdd.duplex params slot).step (.rx fe (rxDemand ch)) := by
  obtain ⟨hsucceeds, htdd⟩ := snaps_rxSet h
  obtain ⟨hrxS, -⟩ := tdd.driver.rxSet_channels params slot ch tune
  have htxS := tdd.driver.rxSet_txS params slot ch tune slot
  have haccepts : tdd.driver.rxAccepts ch tune = true := by
    rw [← hsucceeds, Driver.rxSet_snd]
  have hfe : ((tdd.driver.rxSet params slot ch tune).1.board slot).fe = _ :=
    Driver.rxSet_fe haccepts
  rw [hsucceeds, if_pos rfl] at hrxS
  refine ⟨hfe, Duplex.ext ?_ ?_ ?_⟩
  · simp only [Duplex.step, duplex_tx_isSome]
    simp [duplex, rxSet, h, hfe]
  · simp only [duplex, rxSet, Duplex.step, htxS]
  · simp [duplex, rxSet, rxTdd, Duplex.step, hrxS, htdd]

/-- The applies of a board do to its profiles and demands what `Duplex` says. -/
theorem refines (params : Params) (slot : Slot) :
    Refines (next params) (duplex params slot) (duplexEvent params slot) := by
  intro tdd event following hnext
  obtain ⟨-, rfl⟩ := StepSystem.of_guard hnext
  unfold duplexEvent
  by_cases hslot : event.slot = slot
  · subst hslot
    cases hsnaps : tdd.snaps params event with
    | false =>
        obtain ⟨hprofiles, htx, hrx⟩ := duplex_rest hsnaps
        simp only [Bool.false_eq_true, and_false, if_false]
        refine ⟨Duplex.step_rest hprofiles, htx, fun demand hdemand => ?_⟩
        rcases hrx with hsame | hnone
        · exact ⟨demand, hsame ▸ hdemand, List.Subset.refl _⟩
        · exact absurd (hnone.symm.trans hdemand) nofun
    | true =>
        simp only [and_self, if_true]
        cases event with
        | txSet slot ch tune =>
            obtain ⟨hfe, hstep⟩ := txSet_of_tdd hsnaps
            simp only [set, TddEvent.slot, hfe]
            exact ⟨hstep, tx_meets params ch _⟩
        | rxSet slot ch tune =>
            obtain ⟨hfe, hstep⟩ := rxSet_of_tdd hsnaps
            simp only [set, TddEvent.slot, hfe]
            exact ⟨hstep, trivial⟩
  · have hother : (tdd.set params event).duplex params slot = tdd.duplex params slot :=
      duplex_other fun heq => hslot heq.symm
    simp only [hslot, false_and, if_false, hother]
    exact ⟨rfl, .inl rfl, fun demand hdemand => ⟨demand, hdemand, List.Subset.refl _⟩⟩

/-- The image an RX apply in TDD leaves meets the demand where it finds what it does not write. -/
theorem meets_rxSet_iff {ch : RxCh} {tune : Tune}
    (h : tdd.snaps params (.rxSet slot ch tune) = true) :
    Meets ((tdd.rxSet params slot ch tune).driver.board slot).fe (rxDemand ch) ↔
      tdd.Finds slot ch := by
  rw [(rxSet_of_tdd h).1]
  exact meets_store_iff (rx_drives _ ch _)

/-- An apply is spared as the profiles see it. -/
theorem spared_iff (params : Params) (slot : Slot) (tdd : TddDriver) (event : TddEvent) :
    (tdd.duplex params slot).Spared (tdd.duplexEvent params slot event) ↔
      tdd.Spared params slot event := by
  unfold duplexEvent Spared
  by_cases hslot : event.slot = slot
  · cases hsnaps : tdd.snaps params event with
    | false => simp [Duplex.Spared]
    | true =>
        subst hslot
        simp only [and_self, if_true, true_imp_iff]
        cases event with
        | txSet slot ch tune =>
            show (∀ rx, (tdd.duplex params slot).rx = some rx → Meets (tdd.profiles slot).rx rx) ↔
              (tdd.rxTdd slot = true → _)
            rw [duplex_rx_eq]
            cases tdd.rxTdd slot <;> simp [TddEvent.slot]
        | rxSet slot ch tune =>
            show ((tdd.duplex params slot).tx.isSome = true → _) ↔ (tdd.txTdd slot = true → _)
            rw [duplex_tx_isSome]
            exact imp_congr_right fun _ => meets_rxSet_iff hsnaps
  · simp [hslot, Duplex.Spared]

/-- An apply is clean as the profiles see it. -/
theorem clean_iff (params : Params) (slot : Slot) (tdd : TddDriver) (event : TddEvent) :
    (tdd.duplexEvent params slot event).Clean ↔ tdd.Settled params slot event := by
  unfold duplexEvent Settled
  by_cases hslot : event.slot = slot
  · cases hsnaps : tdd.snaps params event with
    | false => simp [DuplexEvent.Clean]
    | true =>
        subst hslot
        simp only [and_self, if_true, true_imp_iff]
        cases event with
        | txSet slot ch tune => exact Iff.rfl
        | rxSet slot ch tune => exact meets_rxSet_iff hsnaps
  · simp [hslot, DuplexEvent.Clean]

/-- Where TX is not in plain RF_ON and the path is none through the transmitter, an RX apply in TDD
writes all that is demanded. -/
theorem settled_of_not_live {ch : RxCh} (tune : Tune)
    (hlive : rfLive (tdd.driver.board slot).txS = false) (hpath : ch.path ≠ .loopback) :
    tdd.Settled params slot (.rxSet slot ch tune) :=
  fun _ hsnaps want hwant hnot =>
    absurd (rx_driven hlive hpath (snaps_rxSet hsnaps).2 want hwant) hnot

/-- The first state, in which no channel is applied. -/
theorem probed_kept (params : Params) (slot : Slot) :
    CleanlyKept (duplex params slot) probed := by
  refine ⟨⟨fun demand hdemand => ?_, fun _ hsome => ?_⟩, fun demand hdemand => ?_⟩
  · have htx : (probed.duplex params slot).tx = none := by
      show ((Board.probed slot).txS.filter TxCh.tdd).map _ = none
      unfold Board.probed
      dsimp only
      split <;> rfl
    exact absurd (htx.symm.trans hdemand) nofun
  · cases hsome
  · cases hdemand

end TddDriver

end RfnmDriver.Lime
