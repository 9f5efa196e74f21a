import RfnmDriver.Daughterboard.LatchShadow
import RfnmDriver.Lime.Latches

/-!
# The Lime latches on their pins

`Latches` has a load of a latch as one step on its chain, and a clock as one step on its outputs.
With the clock line of the demultiplexer at rest this is what the pin writes of
`rfnm_fe_generic.c` come to: `round_refines`. The bit numbers of `rfnm_fe_lime0.h` name the latches
that `Latches` has.
-/

namespace RfnmDriver.Lime

open Daughterboard ShiftRegister

/-- The latches of a Lime board as `Latches` has them. -/
def ofPins (fe : FeLatches) : Latches where
  latch id :=
    ⟨fe.latchVal id, fe.latchValLastWritten id, fe.bank.chain id, fe.bank.outputs id⟩
  loadOrder := fe.loadOrder

/-- The pins as a round finds and leaves them. -/
structure AtRest (fe : FeLatches) : Prop where
  shift : fe.bank.Rest
  clock : fe.bank.level .laFeClk = true

/-- `RFNM_LATCHn | RFNM_LATCH_SEQn | RFNM_LATCH_Qn`. -/
def LatchBit.code (bit : LatchBit) : BitVec 32 :=
  BitVec.ofNat 32 (bit.latch * 2 ^ 28 + bit.seq * 2 ^ 24 + bit.q * 2 ^ 16)

variable {fe : FeLatches} {id : Nat}

/-- The number of a bit of the board is taken apart into its latch and its position. -/
theorem LatchBit.Wired.code {bit : LatchBit} (h : bit.Wired) :
    bitLatch bit.code = bit.latch ∧ bitPosition bit.code = bit.position ∧
      lime0.Wired bit.code := by
  have hall : ∀ latch ∈ [1, 2, 3], ∀ seq < 3, ∀ q < 8, 1 ≤ seq → seq ≤ numLatches latch →
      bitLatch (LatchBit.code ⟨latch, seq, q⟩) = latch ∧
        bitPosition (LatchBit.code ⟨latch, seq, q⟩) = LatchBit.position ⟨latch, seq, q⟩ ∧
        lime0.Wired (LatchBit.code ⟨latch, seq, q⟩) := by decide +kernel
  obtain ⟨hlatch, hpos, hseq, hq⟩ := h
  have hregisters : ∀ latch ∈ [1, 2, 3], numLatches latch < 3 := by decide
  exact hall bit.latch hlatch bit.seq (hseq.trans_lt (hregisters _ hlatch)) bit.q hq hpos hseq

/-- Two states of the latches that agree on each. -/
theorem latches_ext {latches other : Latches} (hlatch : ∀ id, latches.latch id = other.latch id)
    (horder : latches.loadOrder = other.loadOrder) : latches = other := by
  obtain ⟨latch, order⟩ := latches
  obtain ⟨otherLatch, otherOrder⟩ := other
  obtain rfl : latch = otherLatch := funext hlatch
  obtain rfl : order = otherOrder := horder
  rfl

theorem ofPins_srb {bit : LatchBit} (h : bit.Wired) (val : Bool) :
    ofPins (fe.srb bit.code val) = (ofPins fe).srb (bit, val) := by
  obtain ⟨hlatch, hposition, -⟩ := h.code
  unfold FeLatches.srb
  rw [hlatch, hposition]
  refine latches_ext (fun id => ?_) rfl
  obtain rfl | hne := eq_or_ne id bit.latch
  · simp [ofPins, Latches.srb, Latch.srb, BitField.setBit]
  · simp [ofPins, Latches.srb, Latches.update_latch_of_ne, hne]

/-- A load of the pins is a load of the latch. -/
theorem ofPins_loadLatch (h : AtRest fe) (hid : 1 ≤ id ∧ id ≤ 6) :
    AtRest (fe.loadLatch lime0.registers id) ∧
      ofPins (fe.loadLatch lime0.registers id) = (ofPins fe).loadLatch id := by
  unfold FeLatches.loadLatch Latches.loadLatch
  show _ ∧ ofPins _ = if fe.latchVal id = fe.latchValLastWritten id then ofPins fe
    else if fe.orderAt 0 ≠ 0 ∧ fe.orderAt (id - 1) = 0 then ofPins fe
    else (ofPins fe).update id fun latch => latch.load (numLatches id)
  split
  · exact ⟨h, rfl⟩
  · split
    · exact ⟨h, rfl⟩
    · by_cases hclocked : id ≤ 5
      · obtain ⟨pin, hpin⟩ := shiftClock_isSome id ⟨hid.1, hclocked⟩
        obtain ⟨hrest, hchain, houtputs, hclock⟩ := Bank.gpioAll_loadBits hpin
          (descending (lime0.registers id) (fe.latchVal id)) h.shift
        refine ⟨⟨hrest, hclock.trans h.clock⟩, latches_ext (fun other => ?_) rfl⟩
        have hkept : (fe.bank.loadWord id (lime0.registers id) (fe.latchVal id)).outputs other =
            fe.bank.outputs other := congrFun houtputs other
        have hfilled := congrFun hchain other
        obtain rfl | hne := eq_or_ne other id
        · rw [Function.update_self] at hfilled
          rw [Latches.update_latch_self, Latch.load]
          exact congrArg₂ (Latch.mk _ _) hfilled hkept
        · rw [Function.update_of_ne hne] at hfilled
          rw [Latches.update_latch_of_ne hne]
          exact congrArg₂ (Latch.mk _ _) hfilled hkept
      · -- the sixth latch has no registers
        obtain rfl : id = 6 := by omega
        exact ⟨h, (Latches.update_of_fixed rfl).symm⟩

@[simp] theorem clock_latchVal (fe : FeLatches) (id : Nat) :
    (fe.clock id).latchVal = fe.latchVal := rfl

variable (id) in
/-- A clock of the pins is a clock of the latch. -/
theorem ofPins_clock (h : AtRest fe) (hid : 1 ≤ id ∧ id ≤ 7) :
    AtRest (fe.clock id) ∧ ∀ other, (fe.clock id).bank.chain other = fe.bank.chain other ∧
      (fe.clock id).bank.outputs other =
        if other = id ∧ id < 7 then fe.bank.chain other else fe.bank.outputs other := by
  obtain ⟨address, haddress⟩ := demuxAddress_isSome id hid
  obtain ⟨hrest, hchain, hclock, houtputs⟩ := Bank.gpioAll_manualClock haddress h.shift
  refine ⟨⟨hrest, hclock⟩, fun other => ⟨congrFun hchain other, ?_⟩⟩
  refine (congrFun houtputs other).trans ?_
  simp [Bank.not_pulledLow h.clock]

/-- A round of the loop over the pins is one over the latches. -/
theorem ofPins_triggerLatch {entry : FeLatches × Bool} (h : AtRest entry.1)
    (hid : 1 ≤ id ∧ id ≤ 6) :
    AtRest (FeLatches.triggerLatch entry id).1 ∧
      ofPins (FeLatches.triggerLatch entry id).1 = (ofPins entry.1).triggerLatch id := by
  unfold FeLatches.triggerLatch Latches.triggerLatch
  show _ ∧ ofPins _ = if entry.1.latchValLastWritten id ≠ entry.1.latchVal id then
    (ofPins entry.1).update id Latch.trigger else ofPins entry.1
  dsimp only
  split
  · obtain ⟨hrest, hlatches⟩ := ofPins_clock id h (by omega)
    refine ⟨⟨hrest.shift, hrest.clock⟩, latches_ext (fun other => ?_) rfl⟩
    obtain ⟨hchain, houtputs⟩ := hlatches other
    obtain rfl | hne := eq_or_ne other id
    · rw [if_pos ⟨rfl, by omega⟩] at houtputs
      rw [Latches.update_latch_self, Latch.trigger]
      simp [ofPins, hchain, houtputs]
    · rw [if_neg fun hboth => hne hboth.1] at houtputs
      rw [Latches.update_latch_of_ne hne]
      simp [ofPins, hchain, houtputs, hne]
  · exact ⟨h, rfl⟩

theorem ofPins_loadLatches (h : AtRest fe) :
    AtRest (fe.loadLatches lime0.registers) ∧
      ofPins (fe.loadLatches lime0.registers) = (ofPins fe).loadLatches := by
  have hloads : ∀ ids : List Nat, (∀ id ∈ ids, 1 ≤ id ∧ id ≤ 6) → ∀ loading, AtRest loading →
      AtRest (ids.foldl (fun fe id => fe.loadLatch lime0.registers id) loading) ∧
        ofPins (ids.foldl (fun fe id => fe.loadLatch lime0.registers id) loading) =
          ids.foldl Latches.loadLatch (ofPins loading) := by
    intro ids hids
    induction ids with
    | nil => exact fun loading hloading => ⟨hloading, rfl⟩
    | cons id rest ih =>
        intro loading hloading
        obtain ⟨hloaded, hlatches⟩ := ofPins_loadLatch hloading (hids id List.mem_cons_self)
        rw [List.foldl_cons, List.foldl_cons, ← hlatches]
        exact ih (fun other hother => hids other (List.mem_cons_of_mem _ hother)) _ hloaded
  exact hloads FeLatches.six (by decide) fe h

theorem ofPins_triggerLatches (h : AtRest fe) (horder : Installable lime0.count fe.loadOrder) :
    AtRest fe.triggerLatches ∧ ofPins fe.triggerLatches = (ofPins fe).triggerLatches := by
  have hclocks : ∀ ids : List Nat, (∀ id ∈ ids, 1 ≤ id ∧ id ≤ 6) →
      ∀ entry : FeLatches × Bool, AtRest entry.1 →
      AtRest (ids.foldl FeLatches.triggerLatch entry).1 ∧
        ofPins (ids.foldl FeLatches.triggerLatch entry).1 =
          ids.foldl Latches.triggerLatch (ofPins entry.1) := by
    intro ids hids
    induction ids with
    | nil => exact fun entry hentry => ⟨hentry, rfl⟩
    | cons id rest ih =>
        intro entry hentry
        obtain ⟨hclocked, hlatches⟩ := ofPins_triggerLatch hentry (hids id List.mem_cons_self)
        rw [List.foldl_cons, List.foldl_cons, ← hlatches]
        exact ih (fun other hother => hids other (List.mem_cons_of_mem _ hother)) _ hclocked
  have hsix : ∀ id ∈ fe.triggered, 1 ≤ id ∧ id ≤ 6 := (horder.mem_clocked (by decide)).2
  obtain ⟨hrest, hlatches⟩ := hclocks fe.triggered hsix (fe, false) h
  have habstract : (ofPins fe).triggerLatches =
      fe.triggered.foldl Latches.triggerLatch (ofPins fe) := rfl
  rw [habstract, ← hlatches]
  unfold FeLatches.triggerLatches
  generalize fe.triggered.foldl FeLatches.triggerLatch (fe, false) = entry at hrest ⊢
  dsimp only
  split
  · obtain ⟨hlast, hnothing⟩ := ofPins_clock 7 hrest (by decide)
    refine ⟨hlast, latches_ext (fun id => ?_) rfl⟩
    obtain ⟨hchain, houtputs⟩ := hnothing id
    rw [if_neg fun hboth => absurd hboth.2 (by decide)] at houtputs
    exact congrArg₂ (Latch.mk _ _) hchain houtputs
  · exact ⟨hrest, rfl⟩

/-- A round on the pins of a Lime board is the round of `Latches`. -/
theorem round_refines (h : AtRest fe) (hfe : fe.Shadowed lime0) :
    AtRest (fe.round lime0.registers) ∧
      ofPins (fe.round lime0.registers) = (ofPins fe).loadLatches.triggerLatches := by
  obtain ⟨hloaded, hlatches⟩ := ofPins_loadLatches h
  have hkept : Installable lime0.count (fe.loadLatches lime0.registers).loadOrder := by
    rw [(FeLatches.loadLatches_loaded hfe).1.loadOrder]
    exact hfe.order
  rw [← hlatches]
  unfold FeLatches.round
  generalize fe.loadLatches lime0.registers = loaded at hloaded hkept ⊢
  exact ofPins_triggerLatches hloaded hkept

end RfnmDriver.Lime
