import Mathlib.Data.List.ProdSigma
import RfnmDriver.Daughterboard.LatchShadow
import RfnmDriver.Granita.Board
import RfnmDriver.Library.RegisterFile

/-!
# The RX front end of the Granita board

The latch bits of `rfnm_fe_granita0.c` that an RX apply on the antenna of its own port writes. Each
bit is there twice, once for each receiver, and so is each function: a function that differs between
the receivers keeps both bodies. `place` is where `rfnm_fe_granita0.h` puts a bit.
-/

namespace RfnmDriver.Granita

open RegisterFile

/-- The bits of a receiver: its antenna port, its filter bank and its part of the down-converter. -/
inductive LaneBit
  | ant
  | antT
  | antI1
  | antI2
  | antO1
  | antO2
  | f1
  | f2
  | f3
  | f4
  | f5
  | f6
  | f7
  | f8
  | f9
  | g1ul
  | g2l
  | g2pl1
  | g2pl2
  | g3l
  | fcI
  | fcT
  | fcFi1
  | fcFi2
  | fcFo1
  | fcFo2
  deriving DecidableEq, Repr

/-- A bit of a receiver. -/
abbrev LatchBit := Lane × LaneBit

/-- `fe.latch_val`. -/
abbrev Fe := LatchBit → Bool

/-- The arguments of an `rfnm_fe_srb`. -/
abbrev Srb := LatchBit × Bool

theorem Lane.eq_a_or_b (lane : Lane) : lane = .a ∨ lane = .b := by
  revert lane
  decide

/-- The same bits, of one receiver. -/
def onLane (lane : Lane) (bits : List (LaneBit × Bool)) : List Srb :=
  bits.map fun bit => ((lane, bit.1), bit.2)

open LaneBit

/-! ## Filters -/

/-- `granita0_fa_fm_notch` and `granita0_fb_fm_notch`. -/
def fmNotch (en : Bool) : List (LaneBit × Bool) := [(f8, en), (f9, !en)]

def filter_0_70 : List (LaneBit × Bool) :=
  [(f1, true), (f2, true), (f3, true), (f4, true), (f5, false), (f6, false), (f7, false)]

def filter_140_225 : List (LaneBit × Bool) :=
  [(f1, true), (f2, true), (f3, true), (f4, true), (f5, true), (f6, false), (f7, true)]

def filter_0_1000 : List (LaneBit × Bool) :=
  [(f1, true), (f2, true), (f3, true), (f4, false), (f5, true), (f6, true), (f7, true)]

def filter_420_700 : List (LaneBit × Bool) :=
  [(f1, true), (f2, true), (f3, true), (f4, false), (f5, false), (f6, true), (f7, false)]

def filter_700_1000 : List (LaneBit × Bool) :=
  [(f1, true), (f2, true), (f3, false), (g1ul, true)]

def filter_950_3000 : List (LaneBit × Bool) :=
  [(f1, true), (f2, false), (f5, true), (f6, false), (f7, false), (f8, false), (f9, false),
    (g2l, true)]

def filter_1805_2200 : List (LaneBit × Bool) :=
  [(f1, true), (f2, false), (f5, true), (f6, true), (f7, false), (f8, true), (f9, false),
    (g2l, true)]

def filter_2300_2690 : List (LaneBit × Bool) :=
  [(f1, true), (f2, false), (f5, false), (f6, true), (f7, true), (f8, true), (f9, false),
    (g2l, true)]

def filter_1574_1605 : List (LaneBit × Bool) :=
  [(f1, true), (f2, false), (f3, true), (f4, false), (f5, false), (f6, false), (f7, true),
    (f8, false), (f9, false), (g2pl1, true), (g2l, true)]

def filter_1166_1229 : List (LaneBit × Bool) :=
  [(f1, true), (f2, false), (f3, false), (f4, true), (f5, false), (f6, false), (f7, true),
    (f8, false), (f9, false), (g2pl2, true), (g2l, true)]

def filter_5150_7125 : List (LaneBit × Bool) :=
  [(f1, false), (g3l, false), (f2, true), (f3, false), (f6, false), (f7, true)]

def filter_4900_5850 : List (LaneBit × Bool) :=
  [(f1, false), (g3l, false), (f2, true), (f3, false), (f6, true), (f7, false)]

def filter_4400_5000 : List (LaneBit × Bool) :=
  [(f1, false), (g3l, false), (f2, true), (f3, true), (f4, false), (f5, true)]

def filter_3200_4200 : List (LaneBit × Bool) :=
  [(f1, false), (g3l, false), (f2, false), (f3, true), (f4, true), (f5, true)]

def filter_3000_5000 : List (LaneBit × Bool) :=
  [(f1, false), (g3l, false), (f2, false), (f3, false), (f4, true), (f5, false)]

/-- The bank that `granita0_fa` and `granita0_fb` choose for a frequency in MHz. The notch is off
whatever is wanted. -/
def filters (freq : Nat) : List (LaneBit × Bool) :=
  fmNotch false ++
    if freq < 600 then
      if freq < 70 then filter_0_70
      else if 140 ≤ freq ∧ freq ≤ 225 then filter_140_225
      else if 420 ≤ freq then filter_420_700
      else filter_0_1000
    else if freq < 1000 then filter_700_1000
    else if freq < 3000 then
      if 1166 ≤ freq ∧ freq ≤ 1229 then filter_1166_1229
      else if 1574 ≤ freq ∧ freq ≤ 1605 then filter_1574_1605
      else if 1805 ≤ freq ∧ freq ≤ 2200 then filter_1805_2200
      else if 2300 ≤ freq ∧ freq ≤ 2690 then filter_2300_2690
      else filter_950_3000
    else if freq < 5000 then
      if 3200 ≤ freq ∧ freq ≤ 4200 then filter_3200_4200
      else if 4400 ≤ freq ∧ freq ≤ 5000 then filter_4400_5000
      else filter_3000_5000
    else if freq < 5850 then filter_4900_5850
    else filter_5150_7125

def granita0Fa (freq : Nat) : List Srb := onLane .a (filters freq)

def granita0Fb (freq : Nat) : List Srb := onLane .b (filters freq)

/-! ## Antenna ports -/

def granita0AntAThrough : List Srb := onLane .a [(ant, false), (antT, true)]

def granita0AntAAttn12 : List Srb :=
  onLane .a [(ant, true), (antI1, true), (antI2, true), (antO1, false), (antO2, true),
    (antT, false)]

def granita0AntAAttn24 : List Srb :=
  onLane .a [(ant, true), (antI1, false), (antI2, true), (antO1, true), (antO2, true),
    (antT, false)]

def granita0AntBThrough : List Srb := onLane .b [(ant, true), (antT, false)]

def granita0AntBAttn12 : List Srb :=
  onLane .b [(ant, false), (antI1, false), (antI2, true), (antO1, true), (antO2, true),
    (antT, true)]

def granita0AntBAttn24 : List Srb :=
  onLane .b [(ant, false), (antI1, true), (antI2, true), (antO1, false), (antO2, true),
    (antT, true)]

/-- The attenuator of the port for a gain. -/
def antWrites (lane : Lane) (gain : Int) : List Srb :=
  if gain < -12 then if lane = .a then granita0AntAAttn24 else granita0AntBAttn24
  else if gain < 0 then if lane = .a then granita0AntAAttn12 else granita0AntBAttn12
  else if lane = .a then granita0AntAThrough else granita0AntBThrough

/-! ## Down-converter -/

def granita0RffcRxA : List Srb := onLane .a [(fcI, true), (fcT, true)]

def granita0RffcRxB : List Srb := onLane .b [(fcI, false), (fcT, true)]

/-- The filters around the down-converter, each of a receiver. -/
def rffc_1166_1229 : List (LaneBit × Bool) :=
  [(fcFo1, false), (fcFo2, true), (fcFi1, true), (fcFi2, true)]

def rffc_1574_1605 : List (LaneBit × Bool) :=
  [(fcFo1, true), (fcFo2, true), (fcFi1, false), (fcFi2, true)]

def rffc_1574_1576 : List (LaneBit × Bool) :=
  [(fcFo1, true), (fcFo2, false), (fcFi1, false), (fcFi2, false)]

def granita0RffcRxA_1166_1229 : List Srb := onLane .a rffc_1166_1229

def granita0RffcRxA_1574_1605 : List Srb := onLane .a rffc_1574_1605

def granita0RffcRxA_1574_1576 : List Srb := onLane .a rffc_1574_1576

def granita0RffcRxB_1166_1229 : List Srb := onLane .b rffc_1166_1229

/-- The source writes the bits of the other receiver. -/
def granita0RffcRxB_1574_1605 : List Srb := onLane .a rffc_1574_1605

def granita0RffcRxB_1574_1576 : List Srb := onLane .b rffc_1574_1576

/-- The filter of the middle bandwidth is chosen. -/
def WideNavBand (lpf : Int) : Prop := lpf ≠ 0 ∧ 2 < lpf ∧ lpf ≤ 30

instance (lpf : Int) : Decidable (WideNavBand lpf) := inferInstanceAs (Decidable (_ ∧ _))

/-- What an apply below 600 MHz writes for the down-converter. -/
def rffcWrites (lane : Lane) (lpf : Int) : List Srb :=
  if lane = .a then
    granita0RffcRxA ++
      if lpf ≠ 0 ∧ lpf ≤ 2 then granita0RffcRxA_1574_1576
      else if lpf ≠ 0 ∧ lpf ≤ 30 then granita0RffcRxA_1574_1605
      else granita0RffcRxA_1166_1229
  else
    granita0RffcRxB ++
      if lpf ≠ 0 ∧ lpf ≤ 2 then granita0RffcRxB_1574_1576
      else if lpf ≠ 0 ∧ lpf ≤ 30 then granita0RffcRxB_1574_1605
      else granita0RffcRxB_1166_1229

/-! ## RX applies -/

def mhz (freq : Nat) : Nat := freq / 1000000

/-- Below it the band is moved by the down-converter. -/
def rffcFreq : Nat := 600000000

/-- The bits that `rfnm_rx_ch_set` writes for a receiver on the antenna of its port. -/
def rxWrites (lane : Lane) (ch : RxCh) : List Srb :=
  antWrites lane ch.gain ++ ((if lane = .a then granita0Fa (mhz ch.freq)
    else granita0Fb (mhz ch.freq)) ++
    if ch.freq < rffcFreq then rffcWrites lane ch.rficLpfBw else [])

/-! ## Places -/

/-- The latch, the shift register and the output of a bit. -/
def place (bit : LatchBit) : Nat × Nat × Nat :=
  if bit.1 = .a then
    match bit.2 with
    | ant => (1, 2, 6)
    | antT => (1, 2, 7)
    | antI1 => (1, 2, 4)
    | antI2 => (1, 2, 5)
    | antO1 => (1, 2, 3)
    | antO2 => (1, 2, 2)
    | f1 => (2, 1, 1)
    | f2 => (2, 1, 3)
    | f3 => (2, 1, 6)
    | f4 => (2, 1, 2)
    | f5 => (2, 1, 0)
    | f6 => (2, 2, 2)
    | f7 => (2, 2, 1)
    | f8 => (2, 2, 4)
    | f9 => (2, 2, 6)
    | g1ul => (2, 2, 5)
    | g2l => (2, 2, 3)
    | g2pl1 => (2, 1, 4)
    | g2pl2 => (2, 1, 5)
    | g3l => (2, 1, 7)
    | fcI => (5, 1, 7)
    | fcT => (5, 2, 6)
    | fcFi1 => (5, 2, 3)
    | fcFi2 => (5, 2, 2)
    | fcFo1 => (5, 2, 1)
    | fcFo2 => (5, 2, 4)
  else
    match bit.2 with
    | ant => (1, 1, 3)
    | antT => (1, 1, 1)
    | antI1 => (1, 1, 0)
    | antI2 => (1, 1, 2)
    | antO1 => (1, 1, 5)
    | antO2 => (1, 1, 4)
    | f1 => (3, 2, 1)
    | f2 => (3, 1, 7)
    | f3 => (3, 1, 6)
    | f4 => (3, 1, 4)
    | f5 => (3, 1, 5)
    | f6 => (3, 2, 5)
    | f7 => (3, 2, 3)
    | f8 => (3, 2, 4)
    | f9 => (3, 1, 1)
    | g1ul => (3, 2, 6)
    | g2l => (3, 1, 3)
    | g2pl1 => (3, 2, 2)
    | g2pl2 => (3, 2, 7)
    | g3l => (3, 2, 0)
    | fcI => (5, 2, 5)
    | fcT => (5, 1, 6)
    | fcFi1 => (5, 1, 3)
    | fcFi2 => (5, 1, 2)
    | fcFo1 => (5, 1, 5)
    | fcFo2 => (5, 1, 4)

/-- The number that `rfnm_fe_srb` gets. -/
def bitCode (bit : LatchBit) : BitVec 32 :=
  BitVec.ofNat 32
    ((place bit).1 * 2 ^ 28 + (place bit).2.1 * 2 ^ 24 + (place bit).2.2 * 2 ^ 16)

/-- Every bit is an output the board has. -/
theorem wired_bitCode (bit : LatchBit) : Daughterboard.granita0.Wired (bitCode bit) := by
  obtain ⟨lane, name⟩ := bit
  obtain rfl | rfl := lane.eq_a_or_b <;> cases name <;> decide

def laneBits : List LaneBit :=
  [ant, antT, antI1, antI2, antO1, antO2, f1, f2, f3, f4, f5, f6, f7, f8, f9, g1ul, g2l, g2pl1,
    g2pl2, g3l, fcI, fcT, fcFi1, fcFi2, fcFo1, fcFo2]

theorem mem_laneBits (name : LaneBit) : name ∈ laneBits := by
  cases name <;> decide

/-- No output is the place of two bits. -/
theorem place_injective {bit other : LatchBit} (h : place bit = place other) : bit = other := by
  have hplaces : (([Lane.a, Lane.b].product laneBits).map place).Nodup := by decide +kernel
  have hlanes : ∀ lane : Lane, lane ∈ [Lane.a, Lane.b] := by decide
  have hmem : ∀ bit : LatchBit, bit ∈ [Lane.a, Lane.b].product laneBits := fun bit =>
    List.mem_product.mpr ⟨hlanes bit.1, mem_laneBits bit.2⟩
  exact List.inj_on_of_nodup_map hplaces (hmem bit) (hmem other) h

end RfnmDriver.Granita
