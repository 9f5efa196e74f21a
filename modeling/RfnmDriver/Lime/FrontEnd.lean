import RfnmDriver.Library.RegisterFile

/-!
# The front end of the Lime board

The latches of `rfnm_fe_lime0.c` that an apply writes: the antenna port, the RX filter bank and
the TX chain. Each `lime0_*` function is the list of bits it writes, in its order, and `Fe` is what
`fe.latch_val` holds. A bit is named by the latch, the shift register behind it and the output that
`rfnm_fe_lime0.h` composes its number of, which is what `rfnm_fe_srb` takes apart again.
-/

namespace RfnmDriver.Lime

/-- `RFNM_LATCHn | RFNM_LATCH_SEQn | RFNM_LATCH_Qn`. -/
structure LatchBit where
  latch : Nat
  seq : Nat
  q : Nat
  deriving DecidableEq, Repr

/-- `fe.latch_val`. -/
abbrev Fe := LatchBit → Bool

/-- The arguments of an `rfnm_fe_srb`. -/
abbrev Srb := LatchBit × Bool

namespace LatchBit

def antBias : LatchBit := ⟨1, 1, 0⟩
def antT : LatchBit := ⟨1, 1, 1⟩
def antE : LatchBit := ⟨1, 1, 2⟩
def antA : LatchBit := ⟨1, 1, 3⟩
def ai1 : LatchBit := ⟨1, 1, 4⟩
def ai2 : LatchBit := ⟨1, 1, 5⟩
def ao2 : LatchBit := ⟨1, 1, 6⟩
def ao1 : LatchBit := ⟨1, 1, 7⟩

def fa1 : LatchBit := ⟨2, 1, 3⟩
def fa3 : LatchBit := ⟨2, 1, 4⟩
def fa2 : LatchBit := ⟨2, 1, 5⟩
def fa5 : LatchBit := ⟨2, 1, 6⟩
def fa4 : LatchBit := ⟨2, 1, 7⟩
def g2pl1 : LatchBit := ⟨2, 2, 0⟩
def fa7 : LatchBit := ⟨2, 2, 1⟩
def fa6 : LatchBit := ⟨2, 2, 2⟩
def fa8 : LatchBit := ⟨2, 2, 3⟩
def g1l : LatchBit := ⟨2, 2, 4⟩
def g2l : LatchBit := ⟨2, 2, 5⟩
def lrim : LatchBit := ⟨2, 2, 6⟩
def g2pl2 : LatchBit := ⟨2, 2, 7⟩

def t12o : LatchBit := ⟨3, 1, 0⟩
def t12i : LatchBit := ⟨3, 1, 1⟩
def t24o : LatchBit := ⟨3, 1, 2⟩
def t24i : LatchBit := ⟨3, 1, 3⟩
def tfb2 : LatchBit := ⟨3, 1, 4⟩
def tfb1 : LatchBit := ⟨3, 1, 5⟩
def tfa : LatchBit := ⟨3, 1, 6⟩
def tfi : LatchBit := ⟨3, 1, 7⟩
def paS2 : LatchBit := ⟨3, 2, 0⟩
def tl2i : LatchBit := ⟨3, 2, 1⟩
def tl1o : LatchBit := ⟨3, 2, 2⟩
def tl2o : LatchBit := ⟨3, 2, 3⟩
def t6i : LatchBit := ⟨3, 2, 4⟩
def tl1i : LatchBit := ⟨3, 2, 5⟩
def t6o : LatchBit := ⟨3, 2, 6⟩
def paS1 : LatchBit := ⟨3, 2, 7⟩

end LatchBit

open LatchBit

/-- The whole of latch 1, which switches the antenna port. -/
def antPort : List LatchBit := [antBias, antT, antE, antA, ai1, ai2, ao2, ao1]

/-- The supplies of the two power amplifiers. -/
def paSupplies : List LatchBit := [paS1, paS2]

/-! ## RX -/

def lime0DisableAllPa : List Srb := [(paS1, true)]

def lime0DisableAllLna : List Srb :=
  [(g1l, false), (g2l, false), (g2pl1, false), (g2pl2, false)]

def lime0FmNotch (en : Bool) : List Srb :=
  if en then [(fa2, false), (fa3, true)] else [(fa2, true), (fa3, false)]

/-- The filters up to 60 MHz, which bypass the first amplifier. -/
def lowFilter (fa5v fa6v fa7v : Bool) : List Srb :=
  [(fa1, false), (fa4, false), (fa5, fa5v), (fa6, fa6v), (fa7, fa7v), (g1l, false)]

def lime0Filter0To70 : List Srb := lowFilter true false false
def lime0Filter30To60 : List Srb := lowFilter false false true

/-- The filters from 60 MHz to 1 GHz. -/
def midFilter (fa5v fa6v fa7v : Bool) : List Srb :=
  [(fa1, false), (fa4, true), (fa5, fa5v), (fa6, fa6v), (fa7, fa7v), (fa8, true), (g2l, true)]

def lime0Filter60To120 : List Srb := midFilter true false false
def lime0Filter120To250 : List Srb := midFilter true true false
def lime0Filter250To480 : List Srb := midFilter false true true
def lime0Filter480To1000 : List Srb := midFilter false false true

/-- The filters above 1 GHz, with the amplifier each powers. -/
def highFilter (fa2v fa3v fa4v fa5v fa6v fa7v : Bool) (amplifier : LatchBit) : List Srb :=
  [(fa1, true), (fa2, fa2v), (fa3, fa3v), (fa4, fa4v), (fa5, fa5v), (fa6, fa6v), (fa7, fa7v),
    (fa8, false), (amplifier, true)]

def lime0Filter950To4000 : List Srb := highFilter true false false false false false g2l
def lime0Filter1805To2200 : List Srb := highFilter true true false false false true g2l
def lime0Filter2300To2690 : List Srb := highFilter false true false false true true g2l
def lime0Filter1574To1605 : List Srb := highFilter false false false true true false g2pl1
def lime0Filter1166To1229 : List Srb := highFilter false false true false true false g2pl2

/-- The antenna attenuator switches are the termination. -/
def lime0RxTerminated : List Srb :=
  [(antA, false), (ai1, true), (ai2, true), (ao1, false), (ao2, true), (antE, false),
    (antT, false)]

def lime0AntEmbed : List Srb := [(ao1, false), (ao2, true), (antE, true)]

def lime0AntThrough : List Srb := [(antA, false), (ao1, false), (ao2, false)]

def lime0AntAttn12 : List Srb :=
  [(antA, true), (ai1, true), (ai2, true), (ao1, false), (ao2, true), (antE, false)]

def lime0AntAttn24 : List Srb :=
  [(antA, true), (ai1, false), (ai2, true), (ao1, true), (ao2, true)]

/-- `rfnm_lime_set_bias_t`. -/
def setBiasT (on : Bool) : List Srb := [(antBias, !on)]

/-! ## TX -/

def lime0AntTx : List Srb := [(antT, false), (ai1, false), (ai2, false), (antA, true)]

def lime0Loopback : List Srb :=
  [(t24i, false), (t24o, true), (t12i, true), (t12o, false), (t6i, true), (t6o, false),
    (tl1i, true), (tl1o, false), (tl2i, true), (tl2o, false), (antT, true), (ao1, true),
    (ao2, false)]

def lime0TxBand (high : Bool) : List Srb := [(tfi, high)]

def lime0TxLpf (freq : Nat) : List Srb :=
  let switch := fun a b1 b2 => [(tfa, a), (tfb1, b1), (tfb2, b2)]
  if freq < 50 then switch false true false
  else if freq < 105 then switch false true true
  else if freq < 200 then switch false false true
  else if freq < 400 then switch true false false
  else if freq < 700 then switch false false false
  else if freq < 1600 then switch true true true
  else if freq < 4000 then switch true false true
  else switch true true false

/-- An amplifier is switched in, with its supply, or out. -/
def paStage (input output supply : LatchBit) (engaged : Bool) : List Srb :=
  [(input, !engaged), (output, engaged), (supply, !engaged)]

/-- An attenuator is switched in or out. -/
def padStage (input output : LatchBit) (engaged : Bool) : List Srb :=
  [(input, !engaged), (output, engaged)]

/-- The five elements of the TX chain. -/
def txChain (pa1 pa2 t24 t12 t6 : Bool) : List Srb :=
  paStage tl1i tl1o paS1 pa1 ++ paStage tl2i tl2o paS2 pa2 ++ padStage t24i t24o t24 ++
    padStage t12i t12o t12 ++ padStage t6i t6o t6

/-- `lime0_tx_power`, in hundredths of a dB: the amplifiers lift the level to the target and the
attenuators bring it down. The table of levels it walks is overwritten with 0 before it is used. -/
def lime0TxPower (target : Int) : List Srb :=
  let target := target * 100
  let pa1 : Bool := 0 < target
  let level : Int := if pa1 then 2000 else 0
  let pa2 : Bool := level < target
  let level := if pa2 then level + 2000 else level
  let t24 : Bool := target < level - 2400
  let level := if t24 then level - 2400 else level
  let t12 : Bool := target < level - 1200
  let level := if t12 then level - 1200 else level
  let t6 : Bool := target < level - 600
  txChain pa1 pa2 t24 t12 t6

/-- `lime0_tx_force`: the mask says which elements are in. -/
def lime0TxForce (mask : Nat) : List Srb :=
  txChain (mask.testBit 0) (mask.testBit 1) (mask.testBit 2) (mask.testBit 3) (mask.testBit 4)

end RfnmDriver.Lime
