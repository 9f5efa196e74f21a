import RfnmDriver.Library.RegisterFile
import RfnmDriver.Yucca.Board

/-!
# The front end of the Yucca board

The latches of `rfnm_fe_yucca0.c`: each `yucca0_*` function is the list of bits it writes, in its
order, and `Fe` is what `fe.latch_val` holds.
-/

namespace RfnmDriver.Yucca

/-- The bits of `rfnm_fe_yucca0.h`. -/
inductive LatchBit
  | txTlo
  | paEn
  | txTli
  | antALnaEnb
  | antALnaByp
  | antBLnaByp
  | antBLnaEnb
  | mtTrx
  | ffAntB
  | ffAntT
  | ffAntA
  deriving DecidableEq, Repr

/-- `fe.latch_val`. -/
abbrev Fe := LatchBit → Bool

/-- The arguments of an `rfnm_fe_srb`. -/
abbrev Srb := LatchBit × Bool

open LatchBit

/-- `YUCCA0_PA_GAIN_THRESHOLD`. -/
def paGainThreshold : Int := 20

/-- `YUCCA0_LNA_GAIN_THRESHOLD`. -/
def lnaGainThreshold : Int := 20

def yucca0DisableAllPa : List Srb := [(paEn, false)]

def yucca0DisableAllLna : List Srb := [(antALnaByp, true), (antBLnaByp, true)]

def yucca0TxOn (path : RfPath) (pa : Bool) : List Srb :=
  (ffAntT, decide (path = .smaA)) ::
    if pa then
      [(ffAntA, true), (ffAntB, false), (txTli, false), (txTlo, true), (mtTrx, false),
        (paEn, true)]
    else
      [(paEn, false), (ffAntA, true), (ffAntB, false), (txTli, true), (txTlo, false),
        (mtTrx, false)]

def yucca0TxOff : List Srb :=
  [(paEn, false), (ffAntA, false), (ffAntB, true), (mtTrx, true)]

def yucca0RxAntAOn (lna : Bool) : List Srb :=
  [(ffAntA, false), (antALnaEnb, false), (antALnaByp, !lna), (mtTrx, true)]

def yucca0RxAntBOn (lna : Bool) : List Srb :=
  [(ffAntB, true), (antBLnaByp, !lna), (antBLnaEnb, false), (mtTrx, true)]

def yucca0RxAntAOff : List Srb :=
  [(mtTrx, false), (antALnaEnb, true), (ffAntA, true), (antALnaByp, false)]

def yucca0RxAntBOff : List Srb :=
  [(ffAntB, false), (antBLnaEnb, true), (antBLnaByp, false), (mtTrx, false)]

/-- The antenna of a lane is switched on. -/
def rxAntOn (lane : Lane) (lna : Bool) : List Srb :=
  if lane = .rx1 then yucca0RxAntAOn lna else yucca0RxAntBOn lna

/-- The antenna of a lane is switched off. -/
def rxAntOff (lane : Lane) : List Srb :=
  if lane = .rx1 then yucca0RxAntAOff else yucca0RxAntBOff

/-- `yucca_fail_safe`, for the front end. -/
def failSafeWrites : List Srb := yucca0DisableAllPa ++ yucca0DisableAllLna

/-- The bits an RX apply of a lane that is on writes. -/
def rxOnWrites (txS : Option TxCh) (lane : Lane) (ch : RxCh) : List Srb :=
  rxAntOn lane (decide (lnaGainThreshold ≤ ch.gain)) ++
    if txS.all (fun tx => tx.enable = .rfOff) || ch.enable = .rfOnTdd then yucca0DisableAllPa
    else []

/-- The bits an RX apply of a lane that is off writes, before the chip follows. -/
def rxOffWrites (wanted : Wanted) (lane : Lane) : List Srb :=
  rxAntOff lane ++ if wanted.computeTarget.path = .none then failSafeWrites else []

end RfnmDriver.Yucca
