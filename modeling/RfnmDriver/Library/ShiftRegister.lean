import Mathlib.Data.List.Basic

/-!
# Shift registers

A chain of one-bit stages behind one data line: every clock takes a bit in at the near end and
loses the one at the far end. `clockAll_of_length` says what a chain holds once it has been filled,
and `clockAll_words` that a word clocked in from its most significant bit stands in the chain from
its least significant one.
-/

namespace ShiftRegister

/-- One clock with a bit on the data line. -/
def clock (chain : List Bool) (bit : Bool) : List Bool := (bit :: chain).dropLast

/-- The bits, one clock each. -/
def clockAll (chain bits : List Bool) : List Bool := bits.foldl clock chain

variable {chain bits : List Bool}

@[simp] theorem length_clock (bit : Bool) : (clock chain bit).length = chain.length := by
  simp [clock]

@[simp] theorem length_clockAll : (clockAll chain bits).length = chain.length := by
  induction bits generalizing chain with
  | nil => rfl
  | cons bit rest ih => exact ih.trans (length_clock bit)

/-- What entered last is nearest, and what the chain is too short for is lost. -/
theorem clockAll_eq_take : clockAll chain bits = (bits.reverse ++ chain).take chain.length := by
  induction bits generalizing chain with
  | nil => exact (List.take_length ..).symm
  | cons bit rest ih =>
      have hclock : clock chain bit = (bit :: chain).take chain.length := by
        rw [clock, List.dropLast_eq_take]
        rfl
      calc clockAll chain (bit :: rest)
          = clockAll (clock chain bit) rest := rfl
        _ = (rest.reverse ++ clock chain bit).take chain.length := by rw [ih, length_clock]
        _ = (rest.reverse ++ bit :: chain).take chain.length := by
            rw [hclock, List.take_append, List.take_append, List.take_take,
              Nat.min_eq_left (Nat.sub_le ..)]
        _ = ((bit :: rest).reverse ++ chain).take chain.length := by simp

/-- A chain that has been filled holds the bits, the last of them first. -/
theorem clockAll_of_length (h : bits.length = chain.length) :
    clockAll chain bits = bits.reverse := by
  rw [clockAll_eq_take, ← h, ← List.length_reverse, List.take_left]

/-- The bits of a word from the least significant. -/
def lowBits {width : Nat} (count : Nat) (word : BitVec width) : List Bool :=
  (List.range count).map word.getLsbD

/-- The registers of a chain from the last, and of each the outputs from the last. -/
def descending {width : Nat} (registers : Nat) (word : BitVec width) : List Bool :=
  (List.range registers).reverse.flatMap fun register =>
    (List.range 8).reverse.map fun output => word.getLsbD (8 * register + output)

theorem descending_eq {width : Nat} (registers : Nat) (word : BitVec width) :
    descending registers word = (lowBits (8 * registers) word).reverse := by
  induction registers with
  | zero => rfl
  | succ registers ih =>
      have hlow : lowBits (8 * (registers + 1)) word = lowBits (8 * registers) word ++
          (List.range 8).map fun output => word.getLsbD (8 * registers + output) := by
        rw [lowBits, lowBits, Nat.mul_succ, List.range_add, List.map_append, List.map_map]
        rfl
      have hregisters : List.range (registers + 1) = List.range registers ++ [registers] :=
        List.range_succ
      rw [hlow, List.reverse_append, ← ih, ← List.map_reverse, descending, hregisters,
        List.reverse_append]
      rfl

/-- A chain of 8-bit registers holds a word that was clocked into all of it. -/
theorem clockAll_words {width registers : Nat} (word : BitVec width)
    (h : chain.length = 8 * registers) :
    clockAll chain (descending registers word) = lowBits (8 * registers) word := by
  rw [descending_eq, clockAll_of_length (by simp [lowBits, h]), List.reverse_reverse]

end ShiftRegister
