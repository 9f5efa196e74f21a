import Mathlib.Data.List.GetD
import Mathlib.Logic.Function.Basic
import RfnmDriver.Library.ShiftRegister

/-!
# The three wires of the down-converter

`rfnm_rffc_write_reg` of `rfnm_granita_rffc.c` and the pin writes it makes. The converter takes a
bit of the data line at every rising clock while `RFNM_RFFC_SS` is low, and takes a frame of
twenty-five bits over when that rises: a bit that says nothing, a low one for a write, seven of the
register and sixteen of its value. `gpioAll_writeReg` is what comes of it.
-/

namespace RfnmDriver.Granita.Rffc

open ShiftRegister

/-- The pins of the converter: `RFNM_RFFC_SS`, `RFNM_RFFC_RST`, `RFNM_RFFC_CLK` and
`RFNM_RFFC_DATA`. -/
inductive Pin
  | ss
  | rst
  | clk
  | data
  deriving DecidableEq, Repr

open Pin

/-- An `rfnm_gpio_set` or `rfnm_gpio_clear`. -/
abbrev PinWrite := Pin × Bool

/-- `rfnm_rffc_shift_bit`. -/
def shiftBit (val : BitVec 32) (size : Nat) : List PinWrite :=
  (List.range size).flatMap fun i =>
    [(clk, false), (data, val.getLsbD (size - 1 - i)), (clk, true)]

/-- `rfnm_rffc_write_reg`. -/
def writeReg (reg : BitVec 8) (val : BitVec 16) : List PinWrite :=
  [(clk, false), (clk, true), (ss, false)] ++ shiftBit ((reg &&& 0x7F#8).setWidth 32) 9 ++
    shiftBit (val.setWidth 32) 16 ++ [(ss, true), (clk, false), (clk, true)]

/-- The converter behind its pins. -/
@[ext] structure Chip where
  level : Pin → Bool
  /-- The bits since `ss` fell, from the last. -/
  frame : List Bool
  registers : Nat → BitVec 16

namespace Chip

/-- The registers with the frame taken over. -/
def taken (chip : Chip) : Nat → BitVec 16 :=
  let word := BitVec.ofBoolListLE chip.frame
  if chip.frame.length = 25 ∧ word.getLsbD 23 = false then
    Function.update chip.registers (word.extractLsb' 16 7).toNat (word.setWidth 16)
  else chip.registers

/-- A write to a pin. While `rst` is low the registers are those of a converter in reset. -/
def gpio (reset : Nat → BitVec 16) (chip : Chip) (write : PinWrite) : Chip :=
  let level := Function.update chip.level write.1 write.2
  { level := level
    frame :=
      if level ss then chip.frame
      else if chip.level ss then []
      else if level clk && !chip.level clk then chip.level data :: chip.frame
      else chip.frame
    registers :=
      if !level rst then reset
      else if level ss && !chip.level ss then chip.taken
      else chip.registers }

/-- The writes in order. -/
def gpioAll (reset : Nat → BitVec 16) (chip : Chip) (writes : List PinWrite) : Chip :=
  writes.foldl (gpio reset) chip

/-- The converter runs and is not selected. -/
structure Ready (chip : Chip) : Prop where
  running : chip.level rst = true
  unselected : chip.level ss = true

variable (reset : Nat → BitVec 16) {chip : Chip}

theorem gpioAll_append (first rest : List PinWrite) :
    chip.gpioAll reset (first ++ rest) = (chip.gpioAll reset first).gpioAll reset rest :=
  List.foldl_append

/-! ## Words -/

/-- A selected converter takes the bit in. -/
theorem gpioAll_bit (hrst : chip.level rst = true) (hss : chip.level ss = false) (bit : Bool) :
    let clocked := chip.gpioAll reset [(clk, false), (data, bit), (clk, true)]
    clocked.level rst = true ∧ clocked.level ss = false ∧ clocked.frame = bit :: chip.frame ∧
      clocked.registers = chip.registers := by
  simp [gpioAll, gpio, Function.update, hrst, hss]

/-- And one bit after the other. -/
theorem gpioAll_bits (bits : List Bool) (hrst : chip.level rst = true)
    (hss : chip.level ss = false) :
    let clocked := chip.gpioAll reset
      (bits.flatMap fun bit => [(clk, false), (data, bit), (clk, true)])
    clocked.level rst = true ∧ clocked.level ss = false ∧
      clocked.frame = bits.reverse ++ chip.frame ∧ clocked.registers = chip.registers := by
  induction bits generalizing chip with
  | nil => exact ⟨hrst, hss, rfl, rfl⟩
  | cons bit rest ih =>
      obtain ⟨hrstBit, hssBit, hframeBit, hregsBit⟩ := gpioAll_bit reset hrst hss bit
      obtain ⟨hrstRest, hssRest, hframe, hregs⟩ := ih hrstBit hssBit
      rw [List.flatMap_cons, gpioAll_append]
      refine ⟨hrstRest, hssRest, hframe.trans ?_, hregs.trans hregsBit⟩
      rw [hframeBit, List.reverse_cons, List.append_assoc]
      rfl

/-- A word goes out from its most significant bit. -/
theorem shiftBit_eq (val : BitVec 32) (size : Nat) :
    shiftBit val size =
      (lowBits size val).reverse.flatMap fun bit => [(clk, false), (data, bit), (clk, true)] := by
  have hreverse : (lowBits size val).reverse =
      (List.range size).map fun i => val.getLsbD (size - 1 - i) := by
    rw [lowBits, ← List.map_reverse, List.range_eq_range', List.reverse_range',
      ← List.range_eq_range', List.map_map, Nat.zero_add]
    rfl
  rw [hreverse, List.flatMap_map]
  rfl

/-- The bits of a word that is shifted in. -/
theorem gpioAll_shiftBit (val : BitVec 32) (size : Nat) (hrst : chip.level rst = true)
    (hss : chip.level ss = false) :
    let clocked := chip.gpioAll reset (shiftBit val size)
    clocked.level rst = true ∧ clocked.level ss = false ∧
      clocked.frame = lowBits size val ++ chip.frame ∧ clocked.registers = chip.registers := by
  have hbits := gpioAll_bits reset (lowBits size val).reverse hrst hss
  rw [List.reverse_reverse] at hbits
  rw [shiftBit_eq]
  exact hbits

/-! ## Frames -/

/-- The selection of a frame. -/
theorem gpioAll_select (hrst : chip.level rst = true) :
    let selected := chip.gpioAll reset [(clk, false), (clk, true), (ss, false)]
    selected.level rst = true ∧ selected.level ss = false ∧
      (chip.level ss = true → selected.frame = [] ∧ selected.registers = chip.registers) := by
  cases hss : chip.level ss with
  | false => simp [gpioAll, gpio, Function.update, hrst, hss]
  | true => simp [gpioAll, gpio, Function.update, hrst, hss]

/-- The end of a frame. -/
theorem gpioAll_release (hrst : chip.level rst = true) (hss : chip.level ss = false) :
    let released := chip.gpioAll reset [(ss, true), (clk, false), (clk, true)]
    released.Ready ∧ released.registers = chip.taken := by
  refine ⟨⟨?_, ?_⟩, ?_⟩
  all_goals simp [gpioAll, gpio, Function.update, hrst, hss, taken]

/-- A bit of a word that is widened before it goes out. -/
theorem getD_lowBits {width : Nat} (word : BitVec width) {count i : Nat} (hi : i < count)
    (hwide : i < 32) : (lowBits count (word.setWidth 32)).getD i false = word.getLsbD i := by
  rw [lowBits, List.getD_eq_getElem _ _ (by simpa using hi), List.getElem_map,
    List.getElem_range, BitVec.getLsbD_setWidth, decide_eq_true hwide, Bool.true_and]

/-- A frame that `rfnm_rffc_write_reg` has clocked in writes the register. -/
theorem taken_of_frame {reg : BitVec 8} {val : BitVec 16} (hreg : reg.toNat < 128)
    (hframe : chip.frame =
      lowBits 16 (val.setWidth 32) ++ lowBits 9 ((reg &&& 0x7F#8).setWidth 32)) :
    chip.taken = Function.update chip.registers reg.toNat val := by
  have hlength : chip.frame.length = 25 := by
    rw [hframe, List.length_append]
    simp [lowBits]
  have hlow : ∀ i, i < 16 → (BitVec.ofBoolListLE chip.frame).getLsbD i = val.getLsbD i := by
    intro i hi
    rw [BitVec.getLsbD_ofBoolListLE, hframe, List.getD_append _ _ _ _ (by simpa [lowBits] using hi)]
    exact getD_lowBits val hi (by omega)
  have hhigh : ∀ i, i < 8 → (BitVec.ofBoolListLE chip.frame).getLsbD (16 + i) =
      (reg &&& 0x7F#8).getLsbD i := by
    intro i hi
    have hlength : (lowBits 16 (val.setWidth 32)).length = 16 := by simp [lowBits]
    rw [BitVec.getLsbD_ofBoolListLE, hframe, List.getD_append_right _ _ _ _ (by omega), hlength,
      Nat.add_sub_cancel_left]
    exact getD_lowBits _ (by omega) (by omega)
  have hvalue : (BitVec.ofBoolListLE chip.frame).setWidth 16 = val := by
    ext i hi
    rw [BitVec.getElem_setWidth, hlow i hi, BitVec.getLsbD_eq_getElem hi]
  have hregister : ((BitVec.ofBoolListLE chip.frame).extractLsb' 16 7).toNat = reg.toNat := by
    have hmask : ∀ i < 7, (0x7F#8).getLsbD i = true := by decide
    have hseven : (BitVec.ofBoolListLE chip.frame).extractLsb' 16 7 = reg.setWidth 7 := by
      ext i hi
      rw [BitVec.getElem_extractLsb', hhigh i (by omega), BitVec.getElem_setWidth,
        BitVec.getLsbD_and]
      rw [hmask i hi, Bool.and_true]
    rw [hseven, BitVec.toNat_setWidth]
    exact Nat.mod_eq_of_lt hreg
  have hwrite : (BitVec.ofBoolListLE chip.frame).getLsbD 23 = false := by
    rw [hhigh 7 (by omega), BitVec.getLsbD_and]
    exact Bool.and_false _
  unfold taken
  rw [if_pos ⟨hlength, hwrite⟩, hregister, hvalue]

/-- Whatever has been on the wires, a written register leaves the converter ready; and where it was
ready before, the register has its value and the others are as they were. -/
theorem gpioAll_writeReg {reg : BitVec 8} (val : BitVec 16) (hreg : reg.toNat < 128)
    (hrst : chip.level rst = true) :
    let written := chip.gpioAll reset (writeReg reg val)
    written.Ready ∧
      (chip.Ready → written.registers = Function.update chip.registers reg.toNat val) := by
  dsimp only
  rw [writeReg, gpioAll_append, gpioAll_append, gpioAll_append]
  obtain ⟨hrstSelected, hssSelected, hselected⟩ := gpioAll_select reset hrst
  obtain ⟨hrstReg, hssReg, hframeReg, hregsReg⟩ :=
    gpioAll_shiftBit reset ((reg &&& 0x7F#8).setWidth 32) 9 hrstSelected hssSelected
  obtain ⟨hrstVal, hssVal, hframeVal, hregsVal⟩ :=
    gpioAll_shiftBit reset (val.setWidth 32) 16 hrstReg hssReg
  obtain ⟨hready, hreleased⟩ := gpioAll_release reset hrstVal hssVal
  refine ⟨hready, fun hbefore => ?_⟩
  obtain ⟨hempty, hsame⟩ := hselected hbefore.unselected
  rw [hempty, List.append_nil] at hframeReg
  rw [hframeReg] at hframeVal
  rw [hreleased, taken_of_frame hreg hframeVal, hregsVal, hregsReg, hsame]

end Chip

end RfnmDriver.Granita.Rffc
