import RfnmDriver.Library.BitField
import RfnmDriver.Lime.Board

/-!
# The synthesizer tune of the Lime driver

`rfnm_lime_sx_candidates`, `rfnm_lime_sx_predict`, `rfnm_lime_sx_learn`, `rfnm_lime_fast_sx` and
`rfnm_lime_tune_sx` of `rfnm_lime_m.c`. A tune picks a VCO and a divider, computes the words of the
SDM, starts at a predicted code of the capacitor bank and walks to the code the comparator accepts;
if that fails LimeSuite searches in full. The answers of the comparator and the full search are
parameters.
-/

namespace RfnmDriver.Lime

/-- The oscillators of a synthesizer, in the order of `SEL_VCO`. -/
inductive Vco
  | vcol
  | vcom
  | vcoh
  deriving DecidableEq, Repr

namespace Vco

/-- `rfnm_lime_vco_min`. -/
def minHz : Vco → Nat
  | vcol => 3800000000
  | vcom => 4961000000
  | vcoh => 6306000000

/-- `rfnm_lime_vco_max`. -/
def maxHz : Vco → Nat
  | vcol => 5222000000
  | vcom => 6754000000
  | vcoh => 7714000000

def sel : Vco → Nat
  | vcol => 0
  | vcom => 1
  | vcoh => 2

/-- The oscillator of a value of `SEL_VCO`. -/
def ofSel? : Nat → Option Vco
  | 0 => some vcol
  | 1 => some vcom
  | 2 => some vcoh
  | _ => none

/-- `pref`. -/
def preference : List Vco := [vcoh, vcol, vcom]

def InBand (vco : Vco) (hz : Nat) : Prop := vco.minHz ≤ hz ∧ hz ≤ vco.maxHz

instance (vco : Vco) (hz : Nat) : Decidable (vco.InBand hz) :=
  inferInstanceAs (Decidable (_ ∧ _))

end Vco

/-! ## Candidates -/

/-- `struct rfnm_lime_sx_cand` with `ok` set. -/
structure SxCand where
  vcoHz : Nat
  divLoch : Nat
  deriving DecidableEq, Repr

/-- The VCO frequency of a divider, a product of 64 bits. -/
def sxVcoHz (loHz divLoch : Nat) : Nat := 2 ^ (divLoch + 1) * loHz % 2 ^ 64

/-- The inner loop of `rfnm_lime_sx_candidates`. -/
def considerDiv (loHz divLoch : Nat) (cand : Vco → Option SxCand) : Vco → Option SxCand :=
  fun vco =>
    if cand vco = none ∧ vco.InBand (sxVcoHz loHz divLoch) then
      some ⟨sxVcoHz loHz divLoch, divLoch⟩
    else cand vco

/-- The outer loop, over the dividers below a bound from the highest. -/
def scanDivs (loHz : Nat) : Nat → (Vco → Option SxCand) → Vco → Option SxCand
  | 0, cand => cand
  | divLoch + 1, cand => scanDivs loHz divLoch (considerDiv loHz divLoch cand)

/-- `rfnm_lime_sx_candidates`. The value 7 of the divider is not allowed. -/
def sxCandidates (loHz : Nat) : Vco → Option SxCand := scanDivs loHz 7 fun _ => none

/-- `vco_khz`. -/
def SxCand.vcoKhz (cand : SxCand) : Nat := cand.vcoHz / 1000 % 2 ^ 32

/-! ## Anchors -/

/-- `RFNM_LIME_SX_ANCHORS`. -/
def sxAnchorsMax : Nat := 16

/-- `RFNM_LIME_SX_EXTRAP_KHZ`. -/
def sxExtrapKhz : Nat := 100000

/-- `RFNM_LIME_SX_LONE_KHZ`. -/
def sxLoneKhz : Nat := 30000

/-- `RFNM_LIME_SX_MERGE_KHZ`. -/
def sxMergeKhz : Nat := 8000

/-- `struct rfnm_lime_sx_anchor`: a VCO frequency and the code the full search found for it. -/
structure SxAnchor where
  vcoKhz : Nat
  csw : BitVec 8
  deriving DecidableEq, Repr

/-- The distance `d` of an anchor. -/
def SxAnchor.dist (anchor : SxAnchor) (vcoKhz : Nat) : Nat :=
  if vcoKhz < anchor.vcoKhz then anchor.vcoKhz - vcoKhz else vcoKhz - anchor.vcoKhz

/-- `rfnm_lime_sx_xdom`. -/
def sxXdom (vcoKhz : Nat) : Nat := 1000000000000000000 / (vcoKhz * vcoKhz)

/-- The anchors `a[i1 - 1]` and `a[i1]` that the loop over `i1` stops at. -/
def sxBracket (vcoKhz : Nat) (low high : SxAnchor) : List SxAnchor → SxAnchor × SxAnchor
  | [] => (low, high)
  | next :: rest =>
      if high.vcoKhz < vcoKhz then sxBracket vcoKhz high next rest else (low, high)

/-- `rfnm_lime_sx_predict`; -1 is no prediction. -/
def sxPredict (vcoKhz : Nat) : List SxAnchor → Int
  | [] => -1
  | [only] => if only.dist vcoKhz ≤ sxLoneKhz then only.csw.toNat else -1
  | first :: second :: rest =>
      if vcoKhz + sxExtrapKhz < first.vcoKhz ∨
          ((second :: rest).getLastD second).vcoKhz + sxExtrapKhz < vcoKhz then -1
      else
        let (low, high) := sxBracket vcoKhz first second rest
        let x : Int := sxXdom vcoKhz
        let x0 : Int := sxXdom low.vcoKhz
        let x1 : Int := sxXdom high.vcoKhz
        if x0 = x1 then high.csw.toNat
        else
          let csw := low.csw.toNat + ((high.csw.toNat - low.csw.toNat) * (x - x0)).tdiv (x1 - x0)
          if csw < 0 then 0 else if 255 < csw then 255 else csw

/-- The first of the nearest anchors: its distance and its index. -/
def sxVictim (vcoKhz : Nat) (anchors : List SxAnchor) : Nat × Option Nat :=
  anchors.zipIdx.foldl (fun best entry =>
    if entry.1.dist vcoKhz < best.1 then (entry.1.dist vcoKhz, some entry.2) else best)
    (2 ^ 32 - 1, none)

/-- `rfnm_lime_sx_learn`. -/
def sxLearn (vcoKhz : Nat) (csw : BitVec 8) (anchors : List SxAnchor) : List SxAnchor :=
  let kept := match sxVictim vcoKhz anchors with
    | (dist, some victim) =>
        if dist ≤ sxMergeKhz ∨ anchors.length = sxAnchorsMax then anchors.eraseIdx victim
        else anchors
    | (_, none) => anchors
  kept.takeWhile (·.vcoKhz < vcoKhz) ++ ⟨vcoKhz, csw⟩ :: kept.dropWhile (·.vcoKhz < vcoKhz)

/-! ## Words and registers -/

/-- `LMS_REF_FREQ`, the clock the probe gives the chip. -/
def lmsRefFreq : Nat := 51200000

/-- `thr_hz`, above which the VCO is halved before the SDM. -/
def sxThrHz : Nat := 5500000000

/-- `divider`. -/
def sxDivider (refclk vcoHz : Nat) : Nat := refclk * 2 ^ (if sxThrHz < vcoHz then 1 else 0)

/-- `integer` as divided. -/
def sxQuotient (refclk vcoHz : Nat) : BitVec 16 :=
  BitVec.ofNat 16 (vcoHz / sxDivider refclk vcoHz)

/-- `integer` as written. -/
def sxInteger (refclk vcoHz : Nat) : BitVec 16 := sxQuotient refclk vcoHz - 4

/-- `frac`. -/
def sxFrac (refclk vcoHz : Nat) : BitVec 32 :=
  BitVec.ofNat 32
    ((vcoHz - (sxQuotient refclk vcoHz).toNat * sxDivider refclk vcoHz) * 2 ^ 20 % 2 ^ 64 /
      sxDivider refclk vcoHz)

/-- The registers of a synthesizer that a tune writes, and the field `DIV_LOCH`. -/
structure SxRegs where
  reg011c : BitVec 16
  reg011d : BitVec 16
  reg011e : BitVec 16
  reg0121 : BitVec 16
  divLoch : Nat
  deriving DecidableEq, Repr

namespace SxRegs

variable (regs : SxRegs)

/-- `EN_DIV2_DIVPROG`. -/
def enDiv2 : Bool := regs.reg011c.getLsbD 10

/-- `INT_SDM`. -/
def intSdm : BitVec 10 := BitField.read 4 10 regs.reg011e

/-- `FRAC_SDM`. -/
def fracSdm : BitVec 20 := BitField.read 0 4 regs.reg011e ++ regs.reg011d

/-- `CSW_VCO`. -/
def cswVco : BitVec 8 := BitField.read 3 8 regs.reg0121

/-- `SEL_VCO`. -/
def selVco : BitVec 2 := BitField.read 1 2 regs.reg0121

/-- The write of `CSW_VCO`. -/
def setCswVco (csw : Int) : SxRegs :=
  { regs with reg0121 := BitField.write 3 8 regs.reg0121 (BitVec.ofInt 16 csw) }

/-- The writes of `rfnm_lime_fast_sx` ahead of its walk. -/
def program (refclk : Nat) (cand : SxCand) (vco : Vco) (csw : Int) : SxRegs where
  reg011c :=
    regs.reg011c &&& ~~~(1#16 <<< 10 ||| 1 <<< 9 ||| 1 <<< 2 ||| 1 <<< 1) |||
      if sxThrHz < cand.vcoHz then 1 <<< 10 else 0
  reg011d := (sxFrac refclk cand.vcoHz).setWidth 16
  reg011e :=
    BitField.write 0 14 regs.reg011e
      (sxInteger refclk cand.vcoHz <<< 4 ||| (sxFrac refclk cand.vcoHz >>> 16).setWidth 16)
  reg0121 :=
    BitField.write 1 10 regs.reg0121 (BitVec.ofInt 16 csw <<< 2 ||| BitVec.ofNat 16 vco.sel)
  divLoch := cand.divLoch

/-- The VCO frequency the words stand for, in parts of 2^20 to the hertz. -/
def scaledVco (refclk : Nat) : Nat :=
  refclk * (if regs.enDiv2 then 2 else 1) * ((regs.intSdm.toNat + 4) * 2 ^ 20 + regs.fracSdm.toNat)

/-- The synthesizer is programmed to a LO frequency. -/
structure TunedTo (refclk loHz : Nat) : Prop where
  band : ∃ vco : Vco, regs.selVco.toNat = vco.sel ∧ vco.InBand (sxVcoHz loHz regs.divLoch)
  divLoch : regs.divLoch < 7
  below : regs.scaledVco refclk ≤ sxVcoHz loHz regs.divLoch * 2 ^ 20
  near : sxVcoHz loHz regs.divLoch * 2 ^ 20 ≤
    regs.scaledVco refclk + sxDivider refclk (sxVcoHz loHz regs.divLoch)

end SxRegs

/-! ## Walk -/

/-- `RFNM_LIME_SX_WALK_MAX`. -/
def sxWalkMax : Nat := 10

/-- What a walk leaves: the registers, the codes it programmed, and the step at which it found the
lock. -/
structure SxWalk where
  regs : SxRegs
  codes : List Int
  locked : Option Nat
  deriving DecidableEq, Repr

/-- A walk that goes on after a code. -/
def SxWalk.after (code : Int) (walk : SxWalk) : SxWalk :=
  { walk with codes := code :: walk.codes }

/-- The loop of `rfnm_lime_fast_sx`. `cmpho` is what the comparator answers at a step to the
registers as they then are. -/
def sxWalk (cmpho : Nat → SxRegs → Nat) : Nat → Nat → Int → Int → SxRegs → SxWalk
  | 0, _, _, _, regs => ⟨regs, [], none⟩
  | left + 1, steps, dir, csw, regs =>
      let cmphl := cmpho steps regs
      if cmphl = 2 then ⟨regs, [], some steps⟩
      else if cmphl % 2 = 1 then
        if 0 < dir ∨ csw = 0 then ⟨regs, [], none⟩
        else (sxWalk cmpho left (steps + 1) (-1) (csw - 1) (regs.setCswVco (csw - 1))).after
          (csw - 1)
      else
        if dir < 0 ∨ csw = 255 then ⟨regs, [], none⟩
        else (sxWalk cmpho left (steps + 1) 1 (csw + 1) (regs.setCswVco (csw + 1))).after (csw + 1)

/-- `rfnm_lime_fast_sx`. -/
def fastSx (refclk : Nat) (cmpho : Nat → SxRegs → Nat) (cand : SxCand) (vco : Vco) (csw : Int)
    (regs : SxRegs) : SxWalk :=
  if refclk = 0 then ⟨regs, [], none⟩
  else (sxWalk cmpho (sxWalkMax + 1) 0 0 csw (regs.program refclk cand vco csw)).after csw

/-! ## Tune -/

/-- `sx_last_mode`, but for the skip of a tune that is not needed. -/
inductive SxMode
  | fast
  | walked
  | full
  | fullAfterFast
  deriving DecidableEq, Repr

/-- What a tune reads and writes: the file-level variables and the two synthesizers of its chip,
of which the transmitter's is that of `true`. -/
structure SxTuner where
  cache : Cache
  anchors : Bool → Vco → List SxAnchor
  mode : SxMode
  regs : Bool → SxRegs

/-- What a tune meets: the clock of the chip, its comparator, and the full search of LimeSuite with
the registers that leaves. -/
structure SxChip where
  refclk : Nat
  cmpho : Nat → SxRegs → Nat
  fullSearch : Bool → Nat → SxRegs → SxRegs × Bool

namespace Cache

/-- `sx_last_hz`. -/
def sxLastHz (cache : Cache) : Bool → Nat
  | true => cache.sxtLastHz
  | false => cache.sxrLastHz

def setSxLastHz (cache : Cache) (isTx : Bool) (freqHz : Nat) : Cache :=
  if isTx then { cache with sxtLastHz := freqHz } else { cache with sxrLastHz := freqHz }

end Cache

namespace SxTuner

variable (tuner : SxTuner)

/-- The variables after a tune that succeeded. -/
def remember (isTx : Bool) (freqHz : Nat) : SxTuner :=
  let cache := tuner.cache.setSxLastHz isTx freqHz
  { tuner with cache := if isTx then cache else Radio.rxStageCacheDrop cache }

/-- The candidate a fast tune starts from, with its oscillator and the predicted code. -/
def predicted (isTx : Bool) (freqHz : Nat) : Option (Vco × SxCand × Int) :=
  Vco.preference.findSome? fun vco =>
    (sxCandidates freqHz vco).bind fun cand =>
      let csw := sxPredict cand.vcoKhz (tuner.anchors isTx vco)
      if 0 ≤ csw then some (vco, cand, csw) else none

/-- What a full search teaches. -/
def learn (isTx : Bool) (freqHz : Nat) : SxTuner :=
  let found := tuner.regs isTx
  match Vco.ofSel? found.selVco.toNat with
  | some vco =>
      match sxCandidates freqHz vco with
      | some cand =>
          let anchors := Function.update (tuner.anchors isTx) vco
            (sxLearn cand.vcoKhz found.cswVco (tuner.anchors isTx vco))
          { tuner with anchors := Function.update tuner.anchors isTx anchors }
      | none => tuner
  | none => tuner

/-- `rfnm_lime_tune_sx` from the full search on. -/
def fullTune (chip : SxChip) (isTx : Bool) (freqHz : Nat) (mode : SxMode) : SxTuner × Bool :=
  let found := chip.fullSearch isTx freqHz (tuner.regs isTx)
  let searched := { tuner with regs := Function.update tuner.regs isTx found.1, mode }
  if found.2 then ((searched.remember isTx freqHz).learn isTx freqHz, true)
  else ({ searched with cache := searched.cache.setSxLastHz isTx 0 }, false)

/-- `rfnm_lime_tune_sx`. -/
def tuneSx (chip : SxChip) (isTx : Bool) (freqHz : Nat) : SxTuner × Bool :=
  match tuner.predicted isTx freqHz with
  | some (vco, cand, csw) =>
      let walk := fastSx chip.refclk chip.cmpho cand vco csw (tuner.regs isTx)
      let walked := { tuner with regs := Function.update tuner.regs isTx walk.regs }
      match walk.locked with
      | some steps =>
          ({ walked.remember isTx freqHz with mode := if steps = 0 then .fast else .walked }, true)
      | none => walked.fullTune chip isTx freqHz .fullAfterFast
  | none => tuner.fullTune chip isTx freqHz .full

end SxTuner

end RfnmDriver.Lime
