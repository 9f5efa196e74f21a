import Mathlib.Algebra.Group.Nat.Defs
import RfnmDriver.Granita.FrontEnd
import RfnmDriver.Granita.ThreeWire
import RfnmDriver.Library.StepSystem

/-!
# The down-converters of two boards

`rfnm_rffc_init`, `rfnm_rffc_set_freq` and `rfnm_rffc_deinit` of `rfnm_granita_rffc.c`, as an RX
apply uses them, down to the pins. Every write goes out of `rffc2071_regs`, of which there is one
for both daughterboards. `always_converts` says that the boards do not disturb each other: each
converter is on the frequency that the last apply of its own board asks for.
-/

namespace RfnmDriver.Granita.Rffc

open StepSystem

/-- `RFNM_RFFC2071_REF_FREQ`. -/
def refFreq : Nat := 30720000

/-- `RFNM_RFFC2071_LO_MAX`. -/
def loMax : Nat := 5400000000

/-- `RFNM_RFFC2071_REGS_NUM`. -/
def regsNum : Nat := 31

/-- `rffc2071_regs` as it is written down. -/
def rffc2071Regs : List (BitVec 16) :=
  [0xbefa, 0x4064, 0x9055, 0x2d02, 0xacbf, 0xacbf, 0x0028, 0x0028, 0xff00, 0x8A20, 0x0202, 0xFE00,
    0x1a94, 0xd89d, 0x8900, 0x1e84, 0x89d8, 0x9d00, 0x2A80, 0x0000, 0x0000, 0x0000, 0x0000, 0x4900,
    0x0281, 0xf00f, 0x0000, 0x0000, 0xc840, 0x1000, 0x0005]

/-! ## Dividers -/

/-- The quotient of two numbers as a `double`, as its mantissa and the places behind the point. -/
def doubleDiv (num den : Nat) : Nat × Nat :=
  let places := 52 - Nat.log2 (num / den)
  ((2 * (num * 2 ^ places) + den) / (2 * den), places)

/-- The numbers `rfnm_rffc_freq_calc` computes. -/
structure Dividers where
  nLo : BitVec 8
  fbkdiv : BitVec 8
  n : BitVec 8
  nummsb : BitVec 16
  numlsb : BitVec 8
  deriving DecidableEq, Repr

/-- `n_lo` of `rfnm_rffc_freq_calc`. -/
def nLo (lo : Nat) : BitVec 8 := BitVec.ofNat 8 (Nat.log2 (loMax / lo))

/-- `fvco`, with an eight-bit `lodiv`. -/
def fvco (lo : Nat) : Nat := (1#8 <<< (nLo lo).toNat).toNat * lo % 2 ^ 64

/-- `fbkdiv`. -/
def fbkdiv (lo : Nat) : BitVec 8 := if 3200000000 < fvco lo then 4#8 else 2#8

/-- The computation of `rfnm_rffc_freq_calc`. -/
def dividers (lo : Nat) : Dividers :=
  let nDiv := doubleDiv (fvco lo) ((fbkdiv lo).toNat * refFreq)
  let fraction := nDiv.1 % 2 ^ nDiv.2
  { nLo := nLo lo
    fbkdiv := fbkdiv lo
    n := BitVec.ofNat 8 (nDiv.1 / 2 ^ nDiv.2)
    nummsb := BitVec.ofNat 16 (fraction * 2 ^ 16 / 2 ^ nDiv.2)
    numlsb := BitVec.ofNat 8 (fraction * 2 ^ 16 % 2 ^ nDiv.2 * 2 ^ 8 / 2 ^ nDiv.2) }

/-- What is put into `P1_FREQ1` and `P2_FREQ1`. -/
def Dividers.freq1 (d : Dividers) : BitVec 16 :=
  BitVec.ofNat 16 ((d.n.toNat <<< 7) + (d.nLo.toNat <<< 4) + ((d.fbkdiv.toNat >>> 1) <<< 2))

/-! ## Edits of the registers -/

/-- A register of `rffc2071_regs`, and what is made of it before it is written out. -/
abbrev Edit := Nat × (BitVec 16 → BitVec 16)

/-- `rfnm_rffc_init` behind the reset. -/
def initEdits : List Edit :=
  (List.range regsNum).map (fun i => (i, id)) ++
    [(0x15, fun v => v ||| (1#16 <<< 15 + 1#16 <<< 13)),
      (0x16, fun v => v ||| (1#16 <<< 1 + 1#16 <<< 0))]

/-- `rfnm_rffc_disable`. -/
def disable : Edit := (0x15, fun v => v &&& ~~~(1#16 <<< 14))

/-- `rfnm_rffc_enable`. -/
def enable : Edit := (0x15, fun v => v ||| 1#16 <<< 14)

/-- The register writes of `rfnm_rffc_freq_calc`. -/
def freqEdits (d : Dividers) : List Edit :=
  [(0x00, fun v => (v &&& ~~~7#16) ||| if d.fbkdiv = 4#8 then 3#16 else 2#16),
    (0x0C, fun v => (v &&& ~~~(0x3fff#16 <<< 2)) ||| d.freq1),
    (0x0D, fun _ => d.nummsb),
    (0x0E, fun _ => d.numlsb.setWidth 16 <<< 8),
    (0x0F, fun v => (v &&& ~~~(0x3fff#16 <<< 2)) ||| d.freq1),
    (0x10, fun _ => d.nummsb),
    (0x11, fun _ => d.numlsb.setWidth 16 <<< 8),
    (0x09, fun _ => 1#16 <<< 3)]

/-- `rfnm_rffc_set_freq`. -/
def setFreq (lo : Nat) : List Edit := disable :: freqEdits (dividers lo) ++ [enable]

/-- The edit in `rffc2071_regs`. -/
def store (shadow : Nat → BitVec 16) (edit : Edit) : Nat → BitVec 16 :=
  Function.update shadow edit.1 (edit.2 (shadow edit.1))

/-! ## Boards -/

/-- A daughterboard, by its `dgb_id`. -/
inductive Socket
  | primary
  | secondary
  deriving DecidableEq, Repr

/-- The converters of the boards, and what the driver keeps for them. -/
structure Boards where
  /-- `rffc2071_regs`. -/
  shadow : Nat → BitVec 16
  chip : Socket → Chip
  /-- The last RX apply of a board. -/
  asked : Socket → Option RxCh

namespace Boards

variable (reset : Nat → BitVec 16) (socket : Socket)

/-- An edit, and the write of the register. -/
def perform (st : Boards) (edit : Edit) : Boards :=
  let val := edit.2 (st.shadow edit.1)
  { st with
    shadow := store st.shadow edit
    chip := Function.update st.chip socket
      ((st.chip socket).gpioAll reset (writeReg (BitVec.ofNat 8 edit.1) val)) }

/-- A write to the reset pin. -/
def resetPin (st : Boards) (val : Bool) : Boards :=
  { st with chip := Function.update st.chip socket ((st.chip socket).gpio reset (.rst, val)) }

/-- What `rfnm_rx_ch_set` does with the converter. -/
def apply (st : Boards) (ch : RxCh) : Boards :=
  let served :=
    if ch.freq < rffcFreq then
      (initEdits ++ setFreq (Board.chipFreq ch - ch.freq)).foldl (perform reset socket)
        (st.resetPin reset socket true)
    else st.resetPin reset socket false
  { served with asked := Function.update st.asked socket (some ch) }

/-- An RX apply of one of the boards. -/
def next (st : Boards) (event : Socket × RxCh) : Option Boards :=
  some (st.apply reset event.1 event.2)

/-- The module is loaded, with converters as they are. -/
def loaded (chip : Socket → Chip) : Boards :=
  ⟨fun reg => rffc2071Regs.getD reg 0#16, chip, fun _ => none⟩

end Boards

/-! ## What a converter is to be -/

/-- The synthesizer of a path is on a frequency, but for less than a step of its fraction. -/
def OnFrequency (lo : Nat) (freq1 freq2 freq3 : BitVec 16) : Prop :=
  let n := freq1.toNat / 2 ^ 7
  let lodiv := 2 ^ (freq1.toNat / 2 ^ 4 % 2 ^ 3)
  let prescaler := 2 ^ (freq1.toNat / 2 ^ 2 % 2 ^ 2)
  let num := (n * 2 ^ 16 + freq2.toNat) * 2 ^ 8 + freq3.toNat / 2 ^ 8
  refFreq * prescaler * num ≤ lo * lodiv * 2 ^ 24 ∧
    lo * lodiv * 2 ^ 24 < refFreq * prescaler * (num + 1)

/-- The bits of a register that a tuning, or the setup before it, writes. -/
def tuned : Nat → BitVec 16
  | 0x00 => 7#16
  | 0x0C | 0x0F => 0x3fff#16 <<< 2
  | 0x09 | 0x0D | 0x0E | 0x10 | 0x11 => 0xffff#16
  | 0x15 => 0xe000#16
  | 0x16 => 3#16
  | _ => 0#16

/-- All other bits are those of `rffc2071_regs`. -/
def Fixed (registers : Nat → BitVec 16) : Prop :=
  ∀ reg, registers reg &&& ~~~tuned reg = rffc2071Regs.getD reg 0#16 &&& ~~~tuned reg

/-- The registers of a converter that is on a frequency. -/
structure Converts (lo : Nat) (registers : Nat → BitVec 16) : Prop where
  /-- Enabled, in both modes, by the wires. -/
  enabled : registers 0x15 = 0xe000#16
  path1 : OnFrequency lo (registers 0x0C) (registers 0x0D) (registers 0x0E)
  path2 : OnFrequency lo (registers 0x0F) (registers 0x10) (registers 0x11)
  /-- The leakage of the charge pump is that of the prescaler. -/
  pump : registers 0x00 &&& 7#16 =
    if (registers 0x0C).toNat / 2 ^ 2 % 2 ^ 2 = 2 then 3#16 else 2#16
  fixed : ∀ reg < regsNum, registers reg &&& ~~~tuned reg =
    rffc2071Regs.getD reg 0#16 &&& ~~~tuned reg

/-! ## The dividers hit the frequency -/

/-- The oscillator runs in the upper half of its range. -/
theorem fvco_bounds {lo : Nat} (hlow : 100000000 ≤ lo) (hhigh : lo ≤ loMax) :
    (nLo lo).toNat < 6 ∧ fvco lo = lo * 2 ^ (nLo lo).toNat ∧
      2700000000 < fvco lo ∧ fvco lo ≤ loMax := by
  have hlo : lo ≠ 0 := by omega
  have hquotient : loMax / lo ≠ 0 := (Nat.div_pos hhigh (by omega)).ne'
  have hlog : Nat.log2 (loMax / lo) < 6 := by
    rw [Nat.log2_lt hquotient]
    exact (Nat.div_lt_iff_lt_mul (by omega)).mpr (by unfold loMax; omega)
  have hnLo : (nLo lo).toNat = Nat.log2 (loMax / lo) := by
    rw [nLo, BitVec.toNat_ofNat]
    exact Nat.mod_eq_of_lt (by omega)
  have hbelow : 2 ^ Nat.log2 (loMax / lo) * lo ≤ loMax :=
    (Nat.le_div_iff_mul_le (by omega)).mp (Nat.log2_self_le hquotient)
  have habove : loMax < 2 ^ (Nat.log2 (loMax / lo) + 1) * lo :=
    (Nat.div_lt_iff_lt_mul (by omega)).mp Nat.lt_log2_self
  have hlodiv : (1#8 <<< (nLo lo).toNat).toNat = 2 ^ (nLo lo).toNat := by
    have hshift : ∀ i < 6, (1#8 <<< i).toNat = 2 ^ i := by decide
    exact hshift _ (hnLo ▸ hlog)
  rw [← hnLo] at hbelow habove hlog
  have hfvco : fvco lo = lo * 2 ^ (nLo lo).toNat := by
    rw [fvco, hlodiv, Nat.mul_comm lo]
    exact Nat.mod_eq_of_lt (Nat.lt_of_le_of_lt hbelow (by decide))
  rw [Nat.pow_succ, Nat.mul_right_comm, Nat.mul_comm _ lo, ← hfvco] at habove
  rw [Nat.mul_comm, ← hfvco] at hbelow
  unfold loMax at hbelow habove ⊢
  exact ⟨hlog, hfvco, by omega, hbelow⟩

/-- The roundings of the quotient do not get into its first twenty-four binary places: what is
divided by leaves thirds and powers of five only, and 1875 of them are far more than a unit in the
last place. -/
theorem num_of_mantissa (num : Nat) {den places mantissa : Nat}
    (hden : den = 2 * refFreq ∨ den = 4 * refFreq) (hplaces : places = 47 ∨ places = 48)
    (hmantissa : mantissa = (2 * (num * 2 ^ places) + den) / (2 * den)) :
    (mantissa / 2 ^ places * 2 ^ 16 + mantissa % 2 ^ places * 2 ^ 16 / 2 ^ places) * 2 ^ 8 +
        mantissa % 2 ^ places * 2 ^ 16 % 2 ^ places * 2 ^ 8 / 2 ^ places = num * 2 ^ 24 / den ∧
      mantissa % 2 ^ places * 2 ^ 16 / 2 ^ places < 2 ^ 16 ∧
      mantissa % 2 ^ places * 2 ^ 16 % 2 ^ places * 2 ^ 8 / 2 ^ places < 2 ^ 8 := by
  unfold refFreq at hden
  have hnum : mantissa / 2 ^ (places - 24) = num * 2 ^ 24 / den := by
    obtain rfl | rfl := hden
    · have hplain : num * 2 ^ 24 / (2 * 30720000) = num * 512 / 1875 := by omega
      obtain rfl | rfl := hplaces
      · omega
      · omega
    · have hplain : num * 2 ^ 24 / (4 * 30720000) = num * 256 / 1875 := by omega
      obtain rfl | rfl := hplaces
      · omega
      · omega
  rw [← hnum]
  obtain rfl | rfl := hplaces
  · omega
  · omega

/-- There are two prescalers. -/
theorem fbkdiv_cases (lo : Nat) : (fbkdiv lo).toNat = 2 ∨ (fbkdiv lo).toNat = 4 := by
  unfold fbkdiv
  split
  · exact .inr rfl
  · exact .inl rfl

/-- The whole quotient and its fraction of twenty-four bits. -/
theorem dividers_num {lo : Nat} (hlow : 100000000 ≤ lo) (hhigh : lo ≤ loMax) :
    ((dividers lo).n.toNat * 2 ^ 16 + (dividers lo).nummsb.toNat) * 2 ^ 8 +
        (dividers lo).numlsb.toNat =
      fvco lo * 2 ^ 24 / ((fbkdiv lo).toNat * refFreq) ∧ (dividers lo).n.toNat < 64 := by
  obtain ⟨-, -, hfvcoLow, hfvcoHigh⟩ := fvco_bounds hlow hhigh
  unfold loMax at hfvcoHigh
  have hden : (fbkdiv lo).toNat * refFreq = 2 * refFreq ∨
      (fbkdiv lo).toNat * refFreq = 4 * refFreq :=
    (fbkdiv_cases lo).imp (congrArg (· * refFreq)) (congrArg (· * refFreq))
  have hwhole : 16 ≤ fvco lo / ((fbkdiv lo).toNat * refFreq) ∧
      fvco lo / ((fbkdiv lo).toNat * refFreq) < 64 := by
    unfold fbkdiv refFreq
    split
    · rw [show (4#8).toNat = 4 from rfl]
      omega
    · rw [show (2#8).toNat = 2 from rfl]
      omega
  generalize hdenominator : (fbkdiv lo).toNat * refFreq = den at hden hwhole
  have hplaces : 52 - Nat.log2 (fvco lo / den) = 47 ∨ 52 - Nat.log2 (fvco lo / den) = 48 := by
    have hlow : 4 ≤ Nat.log2 (fvco lo / den) := (Nat.le_log2 (by omega)).mpr hwhole.1
    have hhigh : Nat.log2 (fvco lo / den) < 6 := (Nat.log2_lt (by omega)).mpr hwhole.2
    omega
  obtain ⟨hnum, hmsb, hlsb⟩ := num_of_mantissa (fvco lo) hden hplaces rfl
  have hbound : fvco lo * 2 ^ 24 / den < 64 * 2 ^ 24 := by
    have hden : 0 < den := by
      obtain rfl | rfl := hden
      · decide
      · decide
    rw [Nat.div_lt_iff_lt_mul hden, Nat.mul_right_comm]
    exact Nat.mul_lt_mul_of_pos_right ((Nat.div_lt_iff_lt_mul hden).mp hwhole.2) (by decide)
  unfold dividers
  rw [hdenominator]
  dsimp only [doubleDiv]
  rw [BitVec.toNat_ofNat, BitVec.toNat_ofNat, BitVec.toNat_ofNat, Nat.mod_eq_of_lt hmsb,
    Nat.mod_eq_of_lt hlsb]
  rw [← hnum] at hbound ⊢
  have hwhole : ∀ n msb lsb, (n * 2 ^ 16 + msb) * 2 ^ 8 + lsb < 64 * 2 ^ 24 → n < 64 := by
    intro n msb lsb hsum
    omega
  have hn := hwhole _ _ _ hbound
  rw [Nat.mod_eq_of_lt (Nat.lt_trans hn (by decide))]
  exact ⟨rfl, hn⟩

/-- The fields of the first frequency register. -/
theorem freq1_fields {lo : Nat} (hlow : 100000000 ≤ lo) (hhigh : lo ≤ loMax) :
    (dividers lo).freq1.toNat / 2 ^ 7 = (dividers lo).n.toNat ∧
      (dividers lo).freq1.toNat / 2 ^ 4 % 2 ^ 3 = (nLo lo).toNat ∧
      (dividers lo).freq1.toNat / 2 ^ 2 % 2 ^ 2 = (fbkdiv lo).toNat / 2 := by
  have hn := (dividers_num hlow hhigh).2
  have hnLo := (fvco_bounds hlow hhigh).1
  have hfbkdiv := fbkdiv_cases lo
  have hfreq1 : (dividers lo).freq1.toNat = (dividers lo).n.toNat * 2 ^ 7 +
      (nLo lo).toNat * 2 ^ 4 + (fbkdiv lo).toNat / 2 * 2 ^ 2 := by
    have hfields : (dividers lo).nLo = nLo lo ∧ (dividers lo).fbkdiv = fbkdiv lo := ⟨rfl, rfl⟩
    rw [Dividers.freq1, hfields.1, hfields.2, BitVec.toNat_ofNat, Nat.shiftLeft_eq,
      Nat.shiftLeft_eq, Nat.shiftLeft_eq, Nat.shiftRight_eq_div_pow]
    exact Nat.mod_eq_of_lt (by omega)
  omega

/-- A path with these numbers is on the frequency. -/
theorem onFrequency_dividers {lo : Nat} (hlow : 100000000 ≤ lo) (hhigh : lo ≤ loMax) :
    OnFrequency lo (dividers lo).freq1 (dividers lo).nummsb
      ((dividers lo).numlsb.setWidth 16 <<< 8) := by
  obtain ⟨hnum, -⟩ := dividers_num hlow hhigh
  obtain ⟨-, hfvco, -, -⟩ := fvco_bounds hlow hhigh
  obtain ⟨hn, hlodiv, hfield⟩ := freq1_fields hlow hhigh
  have hfreq3 : ((dividers lo).numlsb.setWidth 16 <<< 8).toNat / 2 ^ 8 =
      (dividers lo).numlsb.toNat := by
    rw [BitVec.toNat_shiftLeft, BitVec.toNat_setWidth, Nat.shiftLeft_eq]
    omega
  have hprescaler : 2 ^ ((fbkdiv lo).toNat / 2) = (fbkdiv lo).toNat := by
    obtain htwo | hfour := fbkdiv_cases lo
    · rw [htwo]
      rfl
    · rw [hfour]
      rfl
  have hpositive : 0 < (fbkdiv lo).toNat * refFreq := by
    obtain htwo | hfour := fbkdiv_cases lo
    · rw [htwo]
      decide
    · rw [hfour]
      decide
  unfold OnFrequency
  rw [hfreq3, hn, hlodiv, hfield, hprescaler]
  dsimp only
  rw [hnum, ← hfvco, Nat.mul_comm refFreq]
  exact ⟨Nat.mul_div_le .., Nat.lt_mul_div_succ _ hpositive⟩

/-- There are no registers beyond the last. -/
theorem Converts.congr {lo : Nat} {registers other : Nat → BitVec 16} (h : Converts lo registers)
    (hsame : ∀ reg < regsNum, other reg = registers reg) : Converts lo other := by
  have hreg : ∀ reg, reg < 0x16 → other reg = registers reg := fun reg hreg =>
    hsame reg (Nat.lt_trans hreg (by decide))
  refine ⟨?_, ?_, ?_, ?_, fun reg hbelow => ?_⟩
  · rw [hreg 0x15 (by decide)]
    exact h.enabled
  · rw [hreg 0x0C (by decide), hreg 0x0D (by decide), hreg 0x0E (by decide)]
    exact h.path1
  · rw [hreg 0x0F (by decide), hreg 0x10 (by decide), hreg 0x11 (by decide)]
    exact h.path2
  · rw [hreg 0x00 (by decide), hreg 0x0C (by decide)]
    exact h.pump
  · rw [hsame reg hbelow]
    exact h.fixed reg hbelow

/-! ## The edits -/

/-- The edit leaves all bits but the tuned ones. -/
def Edit.Keeps (edit : Edit) : Prop :=
  ∀ v, edit.2 v &&& ~~~tuned edit.1 = v &&& ~~~tuned edit.1

theorem Fixed.store {shadow : Nat → BitVec 16} (h : Fixed shadow) {edit : Edit}
    (hkeeps : edit.Keeps) : Fixed (store shadow edit) := by
  intro reg
  unfold Rffc.store
  by_cases hreg : reg = edit.1
  · rw [hreg, Function.update_self, hkeeps]
    exact h edit.1
  · rw [Function.update_of_ne hreg]
    exact h reg

theorem Fixed.foldl {edits : List Edit} (hkeeps : ∀ edit ∈ edits, edit.Keeps) :
    ∀ {shadow : Nat → BitVec 16}, Fixed shadow → Fixed (edits.foldl Rffc.store shadow) := by
  induction edits with
  | nil => exact fun h => h
  | cons edit rest ih =>
      intro shadow h
      exact ih (fun other hother => hkeeps other (List.mem_cons_of_mem _ hother))
        (h.store (hkeeps edit List.mem_cons_self))

/-- Bits set within a mask. -/
theorem or_keeps {v x m : BitVec 16} (h : x &&& ~~~m = 0#16) :
    (v ||| x) &&& ~~~m = v &&& ~~~m := by
  rw [BitVec.and_comm, BitVec.and_or_distrib_left, BitVec.and_comm _ x, h, BitVec.or_zero,
    BitVec.and_comm]

/-- Bits cleared within a mask. -/
theorem and_keeps {v x m : BitVec 16} (h : x &&& ~~~m = 0#16) :
    (v &&& ~~~x) &&& ~~~m = v &&& ~~~m := by
  ext i hi
  have hbit := congrArg (fun w => w[i]) h
  simp only [BitVec.getElem_and, BitVec.getElem_not, BitVec.getElem_zero] at hbit ⊢
  rw [Bool.and_assoc]
  congr 1
  cases hx : x[i] with
  | false => rfl
  | true =>
      rw [hx, Bool.true_and] at hbit
      rw [hbit]
      rfl

/-- A field that is replaced. -/
theorem keeps_replace {reg : Nat} {x y : BitVec 16} (hx : x &&& ~~~tuned reg = 0#16)
    (hy : y &&& ~~~tuned reg = 0#16) : Edit.Keeps (reg, fun v => (v &&& ~~~x) ||| y) :=
  fun _ => (or_keeps hy).trans (and_keeps hx)

/-- A register that is written as a whole. -/
theorem keeps_whole {reg : Nat} {f : BitVec 16 → BitVec 16} (h : ~~~tuned reg = 0#16) :
    Edit.Keeps (reg, f) := by
  intro v
  show f v &&& ~~~tuned reg = v &&& ~~~tuned reg
  rw [h, BitVec.and_zero, BitVec.and_zero]

/-- `freq1` leaves the low bits of the registers. -/
theorem freq1_low (d : Dividers) : d.freq1 &&& ~~~(0x3fff#16 <<< 2) = 0#16 := by
  have hmask : ~~~(0x3fff#16 <<< 2) = 3#16 := rfl
  rw [hmask]
  apply BitVec.eq_of_toNat_eq
  rw [BitVec.toNat_and, Dividers.freq1, BitVec.toNat_ofNat, Nat.shiftLeft_eq, Nat.shiftLeft_eq,
    Nat.shiftLeft_eq]
  refine (Nat.and_two_pow_sub_one_eq_mod _ 2).trans ?_
  show _ = 0
  omega

/-- The driver edits nothing but the tuned bits. -/
theorem edits_keep (lo : Nat) : ∀ edit ∈ initEdits ++ setFreq lo, edit.Keeps := by
  intro edit hedit
  simp only [initEdits, setFreq, freqEdits, disable, enable, List.mem_append, List.mem_map,
    List.mem_cons, List.not_mem_nil, or_false, List.cons_append, List.nil_append] at hedit
  obtain (⟨i, -, rfl⟩ | rfl | rfl) | rfl | rfl | rfl | rfl | rfl | rfl | rfl | rfl | rfl | rfl :=
    hedit
  · exact fun v => rfl
  · exact fun v => or_keeps rfl
  · exact fun v => or_keeps rfl
  · exact fun v => and_keeps rfl
  · refine keeps_replace rfl ?_
    split
    · rfl
    · rfl
  · exact keeps_replace rfl (freq1_low _)
  · exact keeps_whole rfl
  · exact keeps_whole rfl
  · exact keeps_replace rfl (freq1_low _)
  · exact keeps_whole rfl
  · exact keeps_whole rfl
  · exact keeps_whole rfl
  · exact fun v => or_keeps rfl

/-- Registers that are written as they are. -/
theorem foldl_same (shadow : Nat → BitVec 16) (regs : List Nat) :
    (regs.map fun i => ((i, id) : Edit)).foldl store shadow = shadow := by
  induction regs with
  | nil => rfl
  | cons reg rest ih =>
      have hsame : store shadow (reg, id) = shadow := Function.update_eq_self ..
      rw [List.map_cons, List.foldl_cons, hsame, ih]

/-- Bits set, cleared and set again are all there is of a register without others. -/
theorem set_eq {v x y : BitVec 16} (h : v &&& ~~~(x ||| y) = 0#16) :
    ((v ||| x) &&& ~~~y) ||| y = x ||| y := by
  ext i hi
  have hbit := congrArg (fun w => w[i]) h
  simp only [BitVec.getElem_and, BitVec.getElem_or, BitVec.getElem_not, BitVec.getElem_zero]
    at hbit ⊢
  revert hbit
  cases v[i] <;> cases x[i] <;> cases y[i] <;> decide

/-- A field that has been replaced. -/
theorem replaced_and {v x m : BitVec 16} : ((v &&& ~~~m) ||| x) &&& m = x &&& m := by
  ext i hi
  simp only [BitVec.getElem_and, BitVec.getElem_or, BitVec.getElem_not]
  cases m[i] <;> simp

/-- What the edits make of the registers. -/
theorem foldl_setFreq {shadow : Nat → BitVec 16} (h : Fixed shadow) {lo : Nat}
    (hlow : 100000000 ≤ lo) (hhigh : lo ≤ loMax) :
    Converts lo ((initEdits ++ setFreq lo).foldl store shadow) := by
  have hfixed := h.foldl (edits_keep lo)
  rw [initEdits, List.append_assoc, List.foldl_append, foldl_same] at hfixed ⊢
  have hfreq1 : ∀ reg, reg = 0x0C ∨ reg = 0x0F →
      (shadow reg &&& ~~~(0x3fff#16 <<< 2)) ||| (dividers lo).freq1 = (dividers lo).freq1 := by
    intro reg hreg
    have hzero : shadow reg &&& ~~~(0x3fff#16 <<< 2) = 0#16 := by
      obtain rfl | rfl := hreg
      · exact h 0x0C
      · exact h 0x0F
    rw [hzero, BitVec.zero_or]
  have hpath := onFrequency_dividers hlow hhigh
  refine ⟨?_, ?_, ?_, ?_, fun reg _ => hfixed reg⟩
  · exact set_eq (h 0x15)
  · have hfirst := hfreq1 0x0C (.inl rfl)
    rw [← hfirst] at hpath
    exact hpath
  · have hsecond := hfreq1 0x0F (.inr rfl)
    rw [← hsecond] at hpath
    exact hpath
  · have hpump :
        (((shadow 0x00 &&& ~~~7#16) ||| if (fbkdiv lo) = 4#8 then 3#16 else 2#16) &&& 7#16) =
          if (fbkdiv lo).toNat / 2 = 2 then 3#16 else 2#16 := by
      rw [replaced_and]
      unfold fbkdiv
      split
      · rfl
      · rfl
    rw [← (freq1_fields hlow hhigh).2.2, ← hfreq1 0x0C (.inl rfl)] at hpump
    exact hpump

/-- A register that is not edited. -/
theorem foldl_store_of_not_mem {edits : List Edit} {reg : Nat}
    (h : reg ∉ edits.map Prod.fst) (shadow : Nat → BitVec 16) :
    edits.foldl store shadow reg = shadow reg := by
  induction edits generalizing shadow with
  | nil => rfl
  | cons edit rest ih =>
      rw [List.map_cons, List.mem_cons, not_or] at h
      exact (ih h.2 _).trans (Function.update_of_ne h.1 ..)

/-! ## The edits on the wires -/

namespace Boards

variable (reset : Nat → BitVec 16) {socket other : Socket} {st : Boards} {edits : List Edit}
  {edit : Edit}

/-- An edit on the wires of a converter that runs. -/
theorem perform_chip (hreg : edit.1 < regsNum) (hrunning : (st.chip socket).level .rst = true) :
    let done := st.perform reset socket edit
    (done.chip socket).Ready ∧
      ((st.chip socket).Ready → (done.chip socket).registers =
        Function.update (st.chip socket).registers edit.1 (done.shadow edit.1)) := by
  unfold regsNum at hreg
  have haddress : (BitVec.ofNat 8 edit.1).toNat = edit.1 := by
    rw [BitVec.toNat_ofNat]
    omega
  have hwritten := Chip.gpioAll_writeReg reset (edit.2 (st.shadow edit.1))
    (by omega : (BitVec.ofNat 8 edit.1).toNat < 128) hrunning
  rw [haddress] at hwritten
  dsimp only [perform, store]
  rw [Function.update_self, Function.update_self]
  exact hwritten

theorem perform_other (h : other ≠ socket) :
    (st.perform reset socket edit).chip other = st.chip other :=
  Function.update_of_ne h ..

/-- The edits do to `rffc2071_regs` what they say, and nothing to another board. -/
theorem foldl_perform (socket : Socket) (edits : List Edit) (st : Boards) :
    (edits.foldl (perform reset socket) st).shadow = edits.foldl store st.shadow ∧
      (edits.foldl (perform reset socket) st).asked = st.asked ∧
      ∀ other ≠ socket, (edits.foldl (perform reset socket) st).chip other = st.chip other := by
  induction edits generalizing st with
  | nil => exact ⟨rfl, rfl, fun _ _ => rfl⟩
  | cons edit rest ih =>
      obtain ⟨hshadow, hasked, hchip⟩ := ih (st.perform reset socket edit)
      exact ⟨hshadow, hasked, fun other hne => (hchip other hne).trans (perform_other reset hne)⟩

/-- An edited register has in the converter what it has in `rffc2071_regs`. -/
theorem foldl_perform_ready (hregs : ∀ edit ∈ edits, edit.1 < regsNum)
    (hready : (st.chip socket).Ready) :
    let done := edits.foldl (perform reset socket) st
    (done.chip socket).Ready ∧ ∀ reg, (done.chip socket).registers reg =
      if reg ∈ edits.map Prod.fst then done.shadow reg else (st.chip socket).registers reg := by
  induction edits generalizing st with
  | nil => exact ⟨hready, fun reg => (if_neg List.not_mem_nil).symm⟩
  | cons edit rest ih =>
      obtain ⟨hafter, hregisters⟩ :=
        perform_chip reset (hregs edit List.mem_cons_self) hready.running
      obtain ⟨hdone, hrest⟩ :=
        ih (fun other hother => hregs other (List.mem_cons_of_mem _ hother)) hafter
      refine ⟨hdone, fun reg => (hrest reg).trans ?_⟩
      rw [List.map_cons]
      by_cases hlater : reg ∈ rest.map Prod.fst
      · exact (if_pos hlater).trans (if_pos (List.mem_cons_of_mem _ hlater)).symm
      · rw [if_neg hlater, hregisters hready]
        by_cases hreg : reg = edit.1
        · have hshadow := (foldl_perform reset socket rest
            (st.perform reset socket edit)).1
          rw [if_pos (hreg ▸ List.mem_cons_self), hreg, Function.update_self]
          exact ((congrFun hshadow edit.1).trans
            (foldl_store_of_not_mem (hreg ▸ hlater) _)).symm
        · rw [if_neg (List.not_mem_cons_of_ne_of_not_mem hreg hlater),
            Function.update_of_ne hreg]

/-- And so it is behind the first edit where the converter may have been disturbed before. -/
theorem foldl_perform_running (hregs : ∀ other ∈ edit :: edits, other.1 < regsNum)
    (hrunning : (st.chip socket).level .rst = true) :
    let done := (edit :: edits).foldl (perform reset socket) st
    ∀ reg ∈ edits.map Prod.fst, (done.chip socket).registers reg = done.shadow reg := by
  intro done reg hreg
  have hready := (perform_chip reset (hregs edit List.mem_cons_self) hrunning).1
  have hrest := (foldl_perform_ready reset
    (fun other hother => hregs other (List.mem_cons_of_mem _ hother)) hready).2 reg
  exact hrest.trans (if_pos hreg)

/-! ## Runs -/

/-- The registers of an apply, in order. -/
def edited : List Nat :=
  List.range regsNum ++ [0x15, 0x16, 0x15, 0x00, 0x0C, 0x0D, 0x0E, 0x0F, 0x10, 0x11, 0x09, 0x15]

theorem map_fst_edits (lo : Nat) : (initEdits ++ setFreq lo).map Prod.fst = edited := rfl

/-- All registers are written, the first of them twice. -/
theorem edited_all : (∀ reg ∈ edited, reg < regsNum) ∧ ∀ reg < regsNum, reg ∈ edited.tail := by
  decide

theorem resetPin_chip (val : Bool) : (st.resetPin reset socket val).chip socket =
    (st.chip socket).gpio reset (.rst, val) :=
  Function.update_self ..

theorem resetPin_other (h : other ≠ socket) (val : Bool) :
    (st.resetPin reset socket val).chip other = st.chip other :=
  Function.update_of_ne h ..

/-- An apply puts the converter of its board on its frequency, whatever was on the wires. -/
theorem apply_converts (h : Fixed st.shadow) {ch : RxCh} (hfreq : ch.freq < rffcFreq) :
    Converts (Board.chipFreq ch - ch.freq)
      (((st.apply reset socket ch).chip socket).registers) := by
  have hchip : Board.chipFreq ch = 1615000000 ∨ Board.chipFreq ch = 1198000000 := by
    unfold Board.chipFreq
    rw [if_pos (show ch.freq < 600000000 from hfreq)]
    split
    · exact .inl rfl
    · exact .inr rfl
  generalize hlo : Board.chipFreq ch - ch.freq = lo
  have hbounds : 100000000 ≤ lo ∧ lo ≤ loMax := by
    unfold rffcFreq at hfreq
    unfold loMax
    omega
  obtain ⟨edits, hedits⟩ : ∃ edits, initEdits ++ setFreq lo = (0, id) :: edits := ⟨_, rfl⟩
  have hregs : (0 : Nat) :: edits.map Prod.fst = edited := by
    rw [← map_fst_edits lo, hedits]
    rfl
  have hbelow : ∀ edit ∈ ((0, id) : Edit) :: edits, edit.1 < regsNum := fun edit hedit =>
    edited_all.1 _ (hregs ▸ List.mem_map_of_mem (f := Prod.fst) hedit)
  have hwritten : ∀ reg < regsNum, reg ∈ edits.map Prod.fst := fun reg hreg => by
    have hmem := edited_all.2 reg hreg
    rwa [← hregs] at hmem
  have hrunning : ((st.resetPin reset socket true).chip socket).level .rst = true := by
    rw [resetPin_chip]
    rfl
  have hregisters := foldl_perform_running reset hbelow hrunning
  have hshadow := (foldl_perform reset socket (initEdits ++ setFreq lo)
    (st.resetPin reset socket true)).1
  unfold apply
  rw [if_pos hfreq, hlo]
  refine (foldl_setFreq h hbounds.1 hbounds.2).congr fun reg hreg => ?_
  rw [← hedits] at hregisters
  exact (hregisters reg (hwritten reg hreg)).trans (congrFun hshadow reg)

/-- Applies leave the fixed bits of `rffc2071_regs`, and the other board. -/
theorem apply_kept (socket : Socket) (h : Fixed st.shadow) (ch : RxCh) :
    Fixed (st.apply reset socket ch).shadow ∧
      ∀ other ≠ socket, (st.apply reset socket ch).chip other = st.chip other := by
  unfold apply
  split
  · obtain ⟨hshadow, -, hchip⟩ := foldl_perform reset socket
      (initEdits ++ setFreq (Board.chipFreq ch - ch.freq)) (st.resetPin reset socket true)
    refine ⟨?_, fun other hne => (hchip other hne).trans (resetPin_other reset hne true)⟩
    have hkept : Fixed ((initEdits ++ setFreq (Board.chipFreq ch - ch.freq)).foldl
        (perform reset socket) (st.resetPin reset socket true)).shadow := by
      rw [hshadow]
      exact h.foldl (edits_keep _)
    exact hkept
  · exact ⟨h, fun other hne => resetPin_other reset hne false⟩

/-- In every run of applies on both boards, each converter is on the frequency that the last apply
of its own board asks for. -/
theorem always_converts (reset : Nat → BitVec 16) (chip : Socket → Chip)
    (events : List (Socket × RxCh)) :
    Always (next reset) (fun st => ∀ socket ch, st.asked socket = some ch → ch.freq < rffcFreq →
      Converts (Board.chipFreq ch - ch.freq) (st.chip socket).registers) (loaded chip) events := by
  have hproperty : ∀ st : Boards, (Fixed st.shadow ∧
      ∀ socket ch, st.asked socket = some ch → ch.freq < rffcFreq →
        Converts (Board.chipFreq ch - ch.freq) (st.chip socket).registers) →
      ∀ socket ch, st.asked socket = some ch → ch.freq < rffcFreq →
        Converts (Board.chipFreq ch - ch.freq) (st.chip socket).registers := fun _ => And.right
  refine (always_of_inductive (fun st event following hinv hnext => ?_)
    ⟨fun _ => rfl, nofun⟩).mono hproperty
  obtain rfl := Option.some.inj hnext
  obtain ⟨hfixed, hothers⟩ := apply_kept reset event.1 hinv.1 event.2
  refine ⟨hfixed, fun socket ch hasked hfreq => ?_⟩
  change Function.update st.asked event.1 (some event.2) socket = some ch at hasked
  by_cases hsocket : socket = event.1
  · rw [hsocket, Function.update_self] at hasked
    obtain rfl := Option.some.inj hasked
    rw [hsocket]
    exact apply_converts reset hinv.1 hfreq
  · rw [Function.update_of_ne hsocket] at hasked
    rw [hothers socket hsocket]
    exact hinv.2 socket ch hasked hfreq

end Boards

end RfnmDriver.Granita.Rffc
