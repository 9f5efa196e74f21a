import Mathlib.Logic.Function.Basic
import RfnmDriver.Library.ShiftRegister

/-!
# The pins of the front-end latches

Every latch of a daughterboard is a chain of shift registers behind an output register. One data
line feeds all chains, each chain has a shift clock of its own, and the output registers take their
chains over on a clock line that a demultiplexer pulls low while `LA_FE_CLK` is low.
`rfnm_fe_load_data_bit` and `rfnm_fe_manual_clock` of `rfnm_fe_generic.c` are here the pin writes
they make: `gpioAll_loadWord` and `gpioAll_manualClock` say what these do to the latches.
-/

namespace RfnmDriver.Daughterboard

open ShiftRegister

/-- The pins of `rfnm_fe_generic.c` that a latch sees. -/
inductive Pin
  | laFeClk
  | gpio4_22
  | gpio4_23
  | gpio4_31
  | gpio4_9
  | gpio4_0
  | gpio4_1
  | gpio4_2
  | gpio4_4
  | gpio4_5
  deriving DecidableEq, Repr

/-- An `rfnm_gpio_set` or `rfnm_gpio_clear`. -/
abbrev PinWrite := Pin × Bool

open Pin

/-- The shift clock of a latch, as `rfnm_fe_load_data_bit` drives it. The sixth has none. -/
def shiftClock : Nat → Option Pin
  | 1 => some gpio4_0
  | 2 => some gpio4_1
  | 3 => some gpio4_2
  | 4 => some gpio4_4
  | 5 => some gpio4_5
  | _ => none

/-- The address `rfnm_fe_manual_clock` sets: the levels of pins 22, 23 and 31. -/
def demuxAddress : Nat → Option (Bool × Bool × Bool)
  | 1 => some (false, false, false)
  | 2 => some (true, false, false)
  | 3 => some (false, true, false)
  | 4 => some (true, true, false)
  | 5 => some (false, false, true)
  | 6 => some (true, false, true)
  | 7 => some (true, true, true)
  | _ => none

/-- `rfnm_fe_load_data_bit`. -/
def loadDataBit (latch : Nat) (bit : Bool) : List PinWrite :=
  (gpio4_9, bit) :: match shiftClock latch with
    | some pin => [(pin, true), (pin, false)]
    | none => []

/-- `rfnm_fe_manual_clock`. -/
def manualClock (id : Nat) : List PinWrite :=
  (laFeClk, true) :: (match demuxAddress id with
    | some (low, middle, high) => [(gpio4_22, low), (gpio4_23, middle), (gpio4_31, high)]
    | none => []) ++ [(laFeClk, false), (laFeClk, true)]

/-- The latches of a board and the pins they hang on. -/
@[ext] structure Bank where
  level : Pin → Bool
  /-- The shift registers, from the near end. -/
  chain : Nat → List Bool
  outputs : Nat → List Bool

namespace Bank

variable (bank : Bank)

/-- The demultiplexer pulls the clock line of the latch low. No latch has the address of the
seventh. -/
def PulledLow (level : Pin → Bool) (id : Nat) : Prop :=
  level laFeClk = false ∧ id < 7 ∧
    demuxAddress id = some (level gpio4_22, level gpio4_23, level gpio4_31)

instance (level : Pin → Bool) (id : Nat) : Decidable (PulledLow level id) :=
  inferInstanceAs (Decidable (_ ∧ _))

/-- A write to a pin: a chain shifts when its clock rises, and a latch takes its chain over when
its clock line does. -/
def gpio (write : PinWrite) : Bank where
  level := Function.update bank.level write.1 write.2
  chain id :=
    if shiftClock id = some write.1 ∧ bank.level write.1 = false ∧ write.2 = true then
      clock (bank.chain id) (bank.level gpio4_9)
    else bank.chain id
  outputs id :=
    if PulledLow bank.level id ∧ ¬ PulledLow (Function.update bank.level write.1 write.2) id then
      bank.chain id
    else bank.outputs id

def gpioAll (writes : List PinWrite) : Bank := writes.foldl gpio bank

/-- The loop of `rfnm_fe_load_latch` over the bits of the word. -/
def loadWord (id registers : Nat) (word : BitVec 32) : Bank :=
  bank.gpioAll ((descending registers word).flatMap (loadDataBit id))

/-- The shift clocks are low. -/
def Rest : Prop := ∀ id pin, shiftClock id = some pin → bank.level pin = false

end Bank

/-! ## Single writes -/

/-- A shift clock neither clocks nor addresses the outputs, nor is it the data line. -/
theorem shiftClock_cases {id : Nat} {pin : Pin} (h : shiftClock id = some pin) :
    pin ≠ laFeClk ∧ pin ≠ gpio4_22 ∧ pin ≠ gpio4_23 ∧ pin ≠ gpio4_31 ∧ pin ≠ gpio4_9 := by
  unfold shiftClock at h
  split at h <;> cases h <;> decide

/-- The pins behind the clock lines of the output registers. -/
def outputPins : List Pin := [laFeClk, gpio4_22, gpio4_23, gpio4_31]

theorem shiftClock_ne {pin : Pin} (hpin : pin ∈ outputPins) (id : Nat) :
    shiftClock id ≠ some pin := by
  intro hshift
  obtain ⟨hclock, hlow, hmiddle, hhigh, -⟩ := shiftClock_cases hshift
  simp [outputPins, hclock, hlow, hmiddle, hhigh] at hpin

theorem shiftClock_injective {id other : Nat} {pin : Pin} (h : shiftClock id = some pin)
    (hother : shiftClock other = some pin) : id = other := by
  unfold shiftClock at h
  split at h <;> cases h <;> unfold shiftClock at hother <;> split at hother <;> first
    | rfl
    | cases hother

theorem demuxAddress_injective {id other : Nat} {address : Bool × Bool × Bool}
    (h : demuxAddress id = some address) (hother : demuxAddress other = some address) :
    id = other := by
  unfold demuxAddress at h
  split at h <;> cases h <;> unfold demuxAddress at hother <;> split at hother <;> first
    | rfl
    | cases hother

namespace Bank

variable {bank : Bank} {id : Nat} {write : PinWrite}

theorem gpioAll_append (first rest : List PinWrite) :
    bank.gpioAll (first ++ rest) = (bank.gpioAll first).gpioAll rest :=
  List.foldl_append

/-- Only a rising shift clock moves a chain. -/
theorem gpio_chain_of_not_shift (h : ∀ id, shiftClock id = some write.1 → write.2 = false) :
    (bank.gpio write).chain = bank.chain := by
  funext id
  refine if_neg fun hrises => ?_
  rw [h id hrises.1] at hrises
  exact Bool.false_ne_true hrises.2.2

/-- While `LA_FE_CLK` is high no clock line is low. -/
theorem not_pulledLow (h : bank.level laFeClk = true) : ¬ PulledLow bank.level id :=
  fun hlow => by rw [hlow.1] at h; cases h

/-- With the demultiplexer off, or with its pins left alone, no latch takes its chain over. -/
theorem gpio_outputs_of_high (h : bank.level laFeClk = true) :
    (bank.gpio write).outputs = bank.outputs :=
  funext fun _ => if_neg fun htaken => not_pulledLow h htaken.1

theorem gpio_outputs_of_other (h : write.1 ∉ outputPins) :
    (bank.gpio write).outputs = bank.outputs := by
  funext id
  refine if_neg fun htaken => htaken.2 ?_
  obtain ⟨hclock, hlow, hmiddle, hhigh⟩ : laFeClk ≠ write.1 ∧ gpio4_22 ≠ write.1 ∧
      gpio4_23 ≠ write.1 ∧ gpio4_31 ≠ write.1 := by
    simp only [outputPins, List.mem_cons, List.not_mem_nil, or_false, not_or] at h
    exact ⟨Ne.symm h.1, Ne.symm h.2.1, Ne.symm h.2.2.1, Ne.symm h.2.2.2⟩
  unfold PulledLow
  rw [Function.update_of_ne hclock, Function.update_of_ne hlow, Function.update_of_ne hmiddle,
    Function.update_of_ne hhigh]
  exact htaken.1

/-- `LA_FE_CLK` rises: the latch whose line was low takes its chain over. -/
theorem gpio_laFeClk_outputs :
    (bank.gpio (laFeClk, true)).outputs =
      fun id => if PulledLow bank.level id then bank.chain id else bank.outputs id := by
  funext id
  have hhigh : ¬ PulledLow (Function.update bank.level laFeClk true) id :=
    fun hlow => by
      have hclock := hlow.1
      rw [Function.update_self] at hclock
      cases hclock
  by_cases hlow : PulledLow bank.level id
  · exact (if_pos ⟨hlow, hhigh⟩).trans (if_pos hlow).symm
  · exact (if_neg fun htaken => hlow htaken.1).trans (if_neg hlow).symm

/-- The lengths of the registers are what the board has. -/
def Fits (bank : Bank) (registers : Nat → Nat) : Prop :=
  ∀ id, (bank.chain id).length = 8 * registers id ∧ (bank.outputs id).length = 8 * registers id

theorem Fits.gpioAll {registers : Nat → Nat} (h : bank.Fits registers) (writes : List PinWrite) :
    (bank.gpioAll writes).Fits registers := by
  induction writes generalizing bank with
  | nil => exact h
  | cons write rest ih =>
      apply ih
      intro id
      obtain ⟨hchain, houtputs⟩ := h id
      constructor
      · show (if _ then clock (bank.chain id) _ else bank.chain id).length = _
        split
        · rw [length_clock, hchain]
        · exact hchain
      · show (if _ then bank.chain id else bank.outputs id).length = _
        split
        · exact hchain
        · exact houtputs

/-! ## Loading -/

/-- A bit shifted in, with the clocks at rest before and after. -/
theorem gpioAll_loadDataBit (hrest : bank.Rest) {pin : Pin} (hpin : shiftClock id = some pin)
    (bit : Bool) :
    bank.gpioAll (loadDataBit id bit) =
      { bank with
        level := Function.update bank.level gpio4_9 bit
        chain := Function.update bank.chain id (clock (bank.chain id) bit) } := by
  have hdata : pin ≠ gpio4_9 := (shiftClock_cases hpin).2.2.2.2
  have hother : pin ∉ outputPins := fun hin => shiftClock_ne hin id hpin
  have hwrites : loadDataBit id bit = [(gpio4_9, bit), (pin, true), (pin, false)] := by
    rw [loadDataBit, hpin]
  let fed := bank.gpio (gpio4_9, bit)
  let raised := fed.gpio (pin, true)
  -- three writes: the data bit, the clock up, which shifts, and the clock down
  have hfedChain : fed.chain = bank.chain :=
    gpio_chain_of_not_shift fun other hshift =>
      absurd rfl (shiftClock_cases hshift).2.2.2.2
  have hfedPin : fed.level pin = false :=
    (Function.update_of_ne hdata _ _).trans (hrest id pin hpin)
  have hfedData : fed.level gpio4_9 = bit := by
    show Function.update bank.level gpio4_9 bit gpio4_9 = bit
    exact Function.update_self ..
  have hraisedChain : raised.chain =
      Function.update bank.chain id (clock (bank.chain id) bit) := by
    funext other
    obtain rfl | hne := eq_or_ne other id
    · rw [Function.update_self, ← hfedChain, ← hfedData]
      exact if_pos ⟨hpin, hfedPin, rfl⟩
    · rw [Function.update_of_ne hne, ← hfedChain]
      exact if_neg fun hrises => hne (shiftClock_injective hrises.1 hpin)
  have hchain : (raised.gpio (pin, false)).chain = raised.chain :=
    gpio_chain_of_not_shift fun _ _ => rfl
  have houtputs : (raised.gpio (pin, false)).outputs = bank.outputs := by
    rw [gpio_outputs_of_other hother, gpio_outputs_of_other hother,
      gpio_outputs_of_other (by decide : gpio4_9 ∉ outputPins)]
  have hlevel : (raised.gpio (pin, false)).level = Function.update bank.level gpio4_9 bit := by
    show Function.update (Function.update fed.level pin true) pin false = fed.level
    rw [Function.update_idem, ← hfedPin, Function.update_eq_self]
  rw [hwrites]
  exact Bank.ext hlevel (hchain.trans hraisedChain) houtputs

theorem Rest.update_data (h : bank.Rest) (bit : Bool) (chain outputs : Nat → List Bool) :
    Rest ⟨Function.update bank.level gpio4_9 bit, chain, outputs⟩ := fun id pin hpin =>
  (Function.update_of_ne (shiftClock_cases hpin).2.2.2.2 _ _).trans (h id pin hpin)

/-- A word shifted in: the bits are in the chain of the latch, and besides them only the data line
has changed. -/
theorem gpioAll_loadBits {pin : Pin} (hpin : shiftClock id = some pin) (bits : List Bool)
    (hrest : bank.Rest) :
    let loaded := bank.gpioAll (bits.flatMap (loadDataBit id))
    loaded.Rest ∧ loaded.chain = Function.update bank.chain id (clockAll (bank.chain id) bits) ∧
      loaded.outputs = bank.outputs ∧ loaded.level laFeClk = bank.level laFeClk := by
  induction bits generalizing bank with
  | nil => exact ⟨hrest, (Function.update_eq_self ..).symm, rfl, rfl⟩
  | cons bit rest ih =>
      dsimp only
      rw [List.flatMap_cons, gpioAll_append, gpioAll_loadDataBit hrest hpin]
      obtain ⟨hloaded, hchain, houtputs, hclock⟩ := ih (hrest.update_data bit _ _)
      refine ⟨hloaded, hchain.trans ?_, houtputs, hclock.trans ?_⟩
      · dsimp only
        rw [Function.update_idem, Function.update_self]
        rfl
      · have hne : laFeClk ≠ gpio4_9 := by decide
        exact Function.update_of_ne hne bit bank.level

/-! ## Clocking -/

theorem Rest.gpio (h : bank.Rest) {pin : Pin} (hpin : pin ∈ outputPins) (val : Bool) :
    (bank.gpio (pin, val)).Rest := fun id shift hshift => by
  have hne : shift ≠ pin := fun heq => shiftClock_ne hpin id (heq ▸ hshift)
  exact (Function.update_of_ne hne _ _).trans (h id shift hshift)

theorem gpio_chain_of_output {pin : Pin} (hpin : pin ∈ outputPins) (val : Bool) :
    (bank.gpio (pin, val)).chain = bank.chain :=
  gpio_chain_of_not_shift fun other hshift => absurd hshift (shiftClock_ne hpin other)

/-- The clock of a latch that has an address: the latch takes its chain over, and so does the one
whose line was left low. -/
theorem gpioAll_manualClock {address : Bool × Bool × Bool}
    (haddress : demuxAddress id = some address) (hrest : bank.Rest) :
    let clocked := bank.gpioAll (manualClock id)
    clocked.Rest ∧ clocked.chain = bank.chain ∧ clocked.level laFeClk = true ∧
      clocked.outputs = fun other =>
        if PulledLow bank.level other ∨ other = id ∧ id < 7 then bank.chain other
        else bank.outputs other := by
  obtain ⟨low, middle, high⟩ := address
  have hclockPin : laFeClk ∈ outputPins := by decide
  have hlowPin : gpio4_22 ∈ outputPins := by decide
  have hmiddlePin : gpio4_23 ∈ outputPins := by decide
  have hhighPin : gpio4_31 ∈ outputPins := by decide
  have hwrites : manualClock id = [(laFeClk, true), (gpio4_22, low), (gpio4_23, middle),
      (gpio4_31, high), (laFeClk, false), (laFeClk, true)] := by
    rw [manualClock, haddress]
    rfl
  let off := bank.gpio (laFeClk, true)
  let addressed := ((off.gpio (gpio4_22, low)).gpio (gpio4_23, middle)).gpio (gpio4_31, high)
  let lowered := addressed.gpio (laFeClk, false)
  have hrestAll : (lowered.gpio (laFeClk, true)).Rest :=
    (((((hrest.gpio hclockPin true).gpio hlowPin low).gpio hmiddlePin middle).gpio hhighPin
      high).gpio hclockPin false).gpio hclockPin true
  have hloweredChain : lowered.chain = bank.chain := by
    show (addressed.gpio _).chain = _
    rw [gpio_chain_of_output hclockPin, gpio_chain_of_output hhighPin,
      gpio_chain_of_output hmiddlePin, gpio_chain_of_output hlowPin,
      gpio_chain_of_output hclockPin]
  -- the address changes while the demultiplexer is off
  have hloweredOutputs : lowered.outputs = off.outputs := by
    have hhigh : addressed.level laFeClk = true := rfl
    show (addressed.gpio _).outputs = _
    rw [gpio_outputs_of_high hhigh, gpio_outputs_of_high rfl, gpio_outputs_of_high rfl,
      gpio_outputs_of_high rfl]
  have hselected : ∀ other, PulledLow lowered.level other ↔ other = id ∧ id < 7 := by
    intro other
    have hlevels : (lowered.level gpio4_22, lowered.level gpio4_23, lowered.level gpio4_31) =
        (low, middle, high) := rfl
    unfold PulledLow
    rw [hlevels]
    constructor
    · rintro ⟨-, hlatch, hother⟩
      have hsame := demuxAddress_injective hother haddress
      exact ⟨hsame, hsame ▸ hlatch⟩
    · rintro ⟨rfl, hlatch⟩
      exact ⟨rfl, hlatch, haddress⟩
  dsimp only
  rw [hwrites]
  refine ⟨hrestAll, (gpio_chain_of_output hclockPin true).trans hloweredChain, rfl, ?_⟩
  show (lowered.gpio (laFeClk, true)).outputs = _
  rw [gpio_laFeClk_outputs, hloweredChain, hloweredOutputs, gpio_laFeClk_outputs]
  funext other
  dsimp only
  by_cases hlow : PulledLow bank.level other
  · simp [hlow]
  · simp [hlow, hselected]

end Bank

end RfnmDriver.Daughterboard
