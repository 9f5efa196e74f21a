import Mathlib.Data.List.GetD
import Mathlib.Data.List.Perm.Basic
import RfnmDriver.Daughterboard.LatchPins
import RfnmDriver.Library.BitField
import RfnmDriver.Library.StepSystem

/-!
# The shadow of the front-end latches

`struct fe_s` of a daughterboard: the words the driver wants in the latches, the words it wrote
last, and the order it clocks them in. `rfnm_fe_load_latches` and `rfnm_fe_trigger_latches` leave
out a latch whose word was the last one written, each by a rule of its own. `Shadowed` is what keeps
this right over any run, in which a TDD arm or a session reset voids the record and another core may
then rewrite the latches: `round_shows_words`.
-/

namespace RfnmDriver.Daughterboard

open ShiftRegister StepSystem

/-- The latches a board has: `RFNM_*_NUM_LATCHES`, the shift registers of each, numbered from 1. -/
structure Fitting where
  count : Nat
  registers : Nat → Nat
  count_le : count ≤ 5
  registers_le : ∀ id, registers id ≤ 3
  unfitted : ∀ id, ¬ (1 ≤ id ∧ id ≤ count) → registers id = 0

/-- A table of shift registers, in which latch 0 has none and those after the last have none. -/
def NumLatches (count : Nat) (numLatches : List Nat) : Prop :=
  count ≤ 5 ∧ (∀ registers ∈ numLatches, registers ≤ 3) ∧
    ∀ id < numLatches.length, ¬ (1 ≤ id ∧ id ≤ count) → numLatches.getD id 0 = 0

instance (count : Nat) (numLatches : List Nat) : Decidable (NumLatches count numLatches) :=
  inferInstanceAs (Decidable (_ ∧ _))

theorem NumLatches.getD_le {count : Nat} {numLatches : List Nat} (h : NumLatches count numLatches)
    (id : Nat) : numLatches.getD id 0 ≤ 3 := by
  by_cases hid : id < numLatches.length
  · rw [List.getD_eq_getElem _ _ hid]
    exact h.2.1 _ (List.getElem_mem hid)
  · rw [List.getD_eq_default _ _ (Nat.not_lt.mp hid)]
    exact Nat.zero_le 3

theorem NumLatches.getD_eq_zero {count : Nat} {numLatches : List Nat}
    (h : NumLatches count numLatches) (id : Nat) (hid : ¬ (1 ≤ id ∧ id ≤ count)) :
    numLatches.getD id 0 = 0 := by
  by_cases hin : id < numLatches.length
  · exact h.2.2 id hin hid
  · exact List.getD_eq_default _ _ (Nat.not_lt.mp hin)

def Fitting.ofTable (count : Nat) (numLatches : List Nat) (h : NumLatches count numLatches) :
    Fitting where
  count
  registers id := numLatches.getD id 0
  count_le := h.1
  registers_le := h.getD_le
  unfitted := h.getD_eq_zero

/-- `RFNM_LIME0_NUM_LATCHES`. -/
def lime0NumLatches : List Nat := [0, 1, 2, 2, 0, 0, 0]

/-- `RFNM_GRANITA0_NUM_LATCHES`. -/
def granita0NumLatches : List Nat := [0, 3, 2, 2, 2, 2, 0]

/-- `RFNM_YUCCA0_NUM_LATCHES`. -/
def yucca0NumLatches : List Nat := [0, 1, 1, 1, 0, 0, 0]

theorem numLatches_lime0 : NumLatches 3 lime0NumLatches := by decide

theorem numLatches_granita0 : NumLatches 5 granita0NumLatches := by decide

theorem numLatches_yucca0 : NumLatches 3 yucca0NumLatches := by decide

def lime0 : Fitting := .ofTable 3 lime0NumLatches numLatches_lime0

def granita0 : Fitting := .ofTable 5 granita0NumLatches numLatches_granita0

def yucca0 : Fitting := .ofTable 3 yucca0NumLatches numLatches_yucca0

/-- `struct fe_s`, with the latches. -/
structure FeLatches where
  latchVal : Nat → BitVec 32
  latchValLastWritten : Nat → BitVec 32
  loadOrder : List Nat
  bank : Bank

/-! ## Bit numbers -/

/-- `latch_num + 1`. -/
def bitLatch (bit : BitVec 32) : Nat := (bit >>> 28 &&& 0x1f).toNat

/-- `latch_seq + 1`. -/
def bitSeq (bit : BitVec 32) : Nat := (bit >>> 24 &&& 0xf).toNat

/-- `latch_q`. -/
def bitQ (bit : BitVec 32) : Nat := (bit >>> 16 &&& 0x1f).toNat

/-- The place of the bit in the word of its latch. -/
def bitPosition (bit : BitVec 32) : Nat := bitQ bit + (bitSeq bit - 1) * 8

/-- The bit is an output of a shift register of the board. -/
def Fitting.Wired (fitting : Fitting) (bit : BitVec 32) : Prop :=
  1 ≤ bitLatch bit ∧ bitLatch bit ≤ fitting.count ∧ 1 ≤ bitSeq bit ∧
    bitSeq bit ≤ fitting.registers (bitLatch bit) ∧ bitQ bit < 8

instance (fitting : Fitting) (bit : BitVec 32) : Decidable (fitting.Wired bit) :=
  inferInstanceAs (Decidable (_ ∧ _))

namespace FeLatches

variable (fe : FeLatches)

/-- `rfnm_fe_srb`. -/
def srb (bit : BitVec 32) (val : Bool) : FeLatches :=
  { fe with
    latchVal := Function.update fe.latchVal (bitLatch bit)
      (BitField.setBit (fe.latchVal (bitLatch bit)) (bitPosition bit) val) }

/-- `load_order[i]`. -/
def orderAt (i : Nat) : Nat := fe.loadOrder.getD i 0

/-- `rfnm_fe_load_latch`. -/
def loadLatch (registers : Nat → Nat) (id : Nat) : FeLatches :=
  if fe.latchVal id = fe.latchValLastWritten id then fe
  else if fe.orderAt 0 ≠ 0 ∧ fe.orderAt (id - 1) = 0 then fe
  else { fe with bank := fe.bank.loadWord id (registers id) (fe.latchVal id) }

/-- The latches the loops go over. -/
def six : List Nat := [1, 2, 3, 4, 5, 6]

/-- `rfnm_fe_load_latches`. -/
def loadLatches (registers : Nat → Nat) : FeLatches :=
  six.foldl (fun fe id => fe.loadLatch registers id) fe

/-- `rfnm_fe_manual_clock`. -/
def clock (id : Nat) : FeLatches := { fe with bank := fe.bank.gpioAll (manualClock id) }

/-- A round of `rfnm_fe_trigger_latches`, with `clear_with_last_latch`. -/
def triggerLatch (entry : FeLatches × Bool) (id : Nat) : FeLatches × Bool :=
  let fe := entry.1
  if fe.latchValLastWritten id ≠ fe.latchVal id then
    ({ fe.clock id with
        latchValLastWritten := Function.update fe.latchValLastWritten id (fe.latchVal id) }, true)
  else entry

/-- What `rfnm_fe_trigger_latches` goes over: the load order up to its first 0, or all six. -/
def triggered : List Nat :=
  if fe.orderAt 0 ≠ 0 then fe.loadOrder.takeWhile (· ≠ 0) else six

/-- `rfnm_fe_trigger_latches`. -/
def triggerLatches : FeLatches :=
  let entry := fe.triggered.foldl triggerLatch (fe, false)
  if entry.2 then entry.1.clock 7 else entry.1

/-- The words go out. -/
def round (registers : Nat → Nat) : FeLatches := (fe.loadLatches registers).triggerLatches

/-- What `rfnm_dgb_en_tdd` and `rfnm_dgb_reset_sm` do to the record. -/
def invalidate : FeLatches := { fe with latchValLastWritten := fun _ => BitVec.allOnes 32 }

/-- `rfnm_fe_generic_init`, from pins and registers as they come up. -/
def init (powerUp : Bank) : FeLatches where
  latchVal _ := 0
  latchValLastWritten _ := BitVec.allOnes 32
  loadOrder := List.replicate 8 0
  bank := ((powerUp.gpioAll [(.gpio4_22, false), (.gpio4_23, false), (.gpio4_31, false),
    (.gpio4_9, false), (.gpio4_0, false), (.gpio4_1, false), (.gpio4_2, false), (.gpio4_4, false),
    (.gpio4_5, false)]).gpioAll (six.flatMap manualClock))

end FeLatches

/-- A load order that the drivers install: none, or every latch of the board once. -/
def Installable (count : Nat) (order : List Nat) : Prop :=
  order = List.replicate 8 0 ∨
    ∃ ids : List Nat, ids.Perm (List.range' 1 count) ∧ order = ids ++ List.replicate (8 - count) 0

/-! ## Runs -/

/-- What happens to the latches of a board. -/
inductive LatchEvent (fitting : Fitting)
  | srb (bit : { bit // fitting.Wired bit }) (val : Bool)
  | order (order : { order // Installable fitting.count order })
  | round
  /-- A TDD arm or a session reset. -/
  | disown
  /-- Another core drives the pins, and leaves the shift clocks low. -/
  | rewrite (bank : { bank : Bank // bank.Fits fitting.registers ∧ bank.Rest })

/-- The latches, and whether another core may drive them. -/
structure LatchState where
  fe : FeLatches
  foreign : Bool

def LatchState.step (fitting : Fitting) (state : LatchState) :
    LatchEvent fitting → Option LatchState
  | .srb bit val => some { state with fe := state.fe.srb bit val }
  | .order order => some { state with fe := { state.fe with loadOrder := order } }
  | .round => some ⟨state.fe.round fitting.registers, false⟩
  | .disown => some ⟨state.fe.invalidate, true⟩
  | .rewrite bank =>
      if state.foreign then some { state with fe := { state.fe with bank := bank } } else none

/-- A board that was just probed. -/
def LatchState.start (powerUp : Bank) : LatchState := ⟨.init powerUp, false⟩

/-! ## Orders -/

variable {fitting : Fitting} {fe : FeLatches} {id : Nat}

namespace Installable

variable {count : Nat} {order : List Nat}

/-- A latch of the board is not passed over by the order. -/
theorem getD_ne_zero (h : Installable count order) (hid : 1 ≤ id ∧ id ≤ count)
    (hfirst : order.getD 0 0 ≠ 0) : order.getD (id - 1) 0 ≠ 0 := by
  obtain rfl | ⟨ids, hperm, rfl⟩ := h
  · exact absurd rfl hfirst
  · have hlength : ids.length = count := by rw [hperm.length_eq, List.length_range']
    have hin : id - 1 < ids.length := by omega
    have hmem : ids[id - 1] ∈ List.range' 1 count := hperm.mem_iff.mp (List.getElem_mem hin)
    rw [List.getD_append _ _ _ _ hin, List.getD_eq_getElem _ _ hin]
    exact Nat.ne_of_gt (List.mem_range'_1.mp hmem).1

/-- What the order clocks: every latch of the board, and none that it has not. -/
theorem mem_clocked (h : Installable count order) (hcount : count ≤ 5) :
    (∀ id, 1 ≤ id ∧ id ≤ count →
      id ∈ if order.getD 0 0 ≠ 0 then order.takeWhile (· ≠ 0) else FeLatches.six) ∧
    ∀ id ∈ if order.getD 0 0 ≠ 0 then order.takeWhile (· ≠ 0) else FeLatches.six,
      1 ≤ id ∧ id ≤ 6 := by
  have hsix : ∀ id, 1 ≤ id ∧ id ≤ 6 ↔ id ∈ FeLatches.six := by
    intro id
    simp only [FeLatches.six, List.mem_cons, List.not_mem_nil, or_false]
    omega
  split
  case isTrue hfirst =>
    obtain rfl | ⟨ids, hperm, rfl⟩ := h
    · exact absurd rfl hfirst
    · have hnonzero : ∀ id ∈ ids, decide (id ≠ 0) = true := fun id hid =>
        decide_eq_true (Nat.ne_of_gt (List.mem_range'_1.mp (hperm.mem_iff.mp hid)).1)
      have hclocked : (ids ++ List.replicate (8 - count) 0).takeWhile (· ≠ 0) = ids := by
        rw [List.takeWhile_append_of_pos hnonzero]
        obtain ⟨rest, hrest⟩ : ∃ rest, 8 - count = rest + 1 := ⟨7 - count, by omega⟩
        rw [hrest, List.replicate_succ]
        simp
      rw [hclocked]
      refine ⟨fun id hid => hperm.mem_iff.mpr (List.mem_range'_1.mpr (by omega)), fun id hid => ?_⟩
      have hrange := List.mem_range'_1.mp (hperm.mem_iff.mp hid)
      omega
  case isFalse =>
    exact ⟨fun id hid => (hsix id).mp (by omega), fun id hid => (hsix id).mpr hid⟩

end Installable

/-! ## Words and registers -/

/-- The bits of a word that the latch has registers for. -/
def Fitting.bits (fitting : Fitting) (id : Nat) (word : BitVec 32) : List Bool :=
  lowBits (8 * fitting.registers id) word

/-- The registers of the latch hold its word. -/
def FeLatches.Loaded (fitting : Fitting) (fe : FeLatches) (id : Nat) : Prop :=
  fe.bank.chain id = fitting.bits id (fe.latchVal id)

/-- What holds of the latches of a board between two rounds. -/
structure FeLatches.Shadowed (fitting : Fitting) (fe : FeLatches) : Prop where
  rest : fe.bank.Rest
  fits : fe.bank.Fits fitting.registers
  /-- A word has no bit beyond the registers of its latch, and so is not the void record. -/
  legal : ∀ id i, 8 * fitting.registers id ≤ i → (fe.latchVal id).getLsbD i = false
  order : Installable fitting.count fe.loadOrder
  /-- Where the record is not void, the registers hold it and the latch shows it. -/
  record : ∀ id, fe.latchValLastWritten id ≠ BitVec.allOnes 32 →
    fe.bank.chain id = fitting.bits id (fe.latchValLastWritten id) ∧
      fe.bank.outputs id = fitting.bits id (fe.latchValLastWritten id)

variable (id) in
theorem shiftClock_isSome (hid : 1 ≤ id ∧ id ≤ 5) : ∃ pin, shiftClock id = some pin := by
  obtain ⟨hpos, hle⟩ := hid
  have hcases : id = 1 ∨ id = 2 ∨ id = 3 ∨ id = 4 ∨ id = 5 := by omega
  obtain rfl | rfl | rfl | rfl | rfl := hcases <;> exact ⟨_, rfl⟩

variable (id) in
theorem demuxAddress_isSome (hid : 1 ≤ id ∧ id ≤ 7) :
    ∃ address, demuxAddress id = some address := by
  obtain ⟨hpos, hle⟩ := hid
  have hcases : id = 1 ∨ id = 2 ∨ id = 3 ∨ id = 4 ∨ id = 5 ∨ id = 6 ∨ id = 7 := by omega
  obtain rfl | rfl | rfl | rfl | rfl | rfl | rfl := hcases <;> exact ⟨_, rfl⟩

namespace FeLatches

theorem Shadowed.ne_allOnes (h : fe.Shadowed fitting) (id : Nat) :
    fe.latchVal id ≠ BitVec.allOnes 32 := by
  intro heq
  have hle := fitting.registers_le id
  have hbit := h.legal id 31 (by omega)
  rw [heq] at hbit
  revert hbit
  decide

theorem Shadowed.srb (h : fe.Shadowed fitting) {bit : BitVec 32} (hwired : fitting.Wired bit)
    (val : Bool) : (fe.srb bit val).Shadowed fitting where
  rest := h.rest
  fits := h.fits
  legal id i hi := by
    show (Function.update fe.latchVal (bitLatch bit) _ id).getLsbD i = false
    obtain rfl | hne := eq_or_ne id (bitLatch bit)
    · obtain ⟨-, -, hseqPos, hseq, hq⟩ := hwired
      have hle := fitting.registers_le (bitLatch bit)
      have hposition : bitPosition bit < 8 * fitting.registers (bitLatch bit) := by
        unfold bitPosition
        omega
      rw [Function.update_self, BitField.getLsbD_setBit (by omega), if_neg (by omega)]
      exact h.legal _ i hi
    · rw [Function.update_of_ne hne]
      exact h.legal id i hi
  order := h.order
  record := h.record

theorem Shadowed.invalidate (h : fe.Shadowed fitting) : fe.invalidate.Shadowed fitting :=
  ⟨h.rest, h.fits, h.legal, h.order, fun _ hvalid => absurd rfl hvalid⟩

/-! ## Loading -/

/-- A latch without registers has nothing to hold. -/
theorem loaded_of_unfitted (hfits : fe.bank.Fits fitting.registers)
    (hid : ¬ (1 ≤ id ∧ id ≤ fitting.count)) : fe.Loaded fitting id := by
  have hzero := fitting.unfitted id hid
  have hempty : fe.bank.chain id = [] := by
    rw [← List.length_eq_zero_iff, (hfits id).1, hzero]
  rw [Loaded, hempty, Fitting.bits, hzero]
  rfl

/-- Between the loads of a round: the registers of a latch that the record knows hold its word. -/
structure Loading (fitting : Fitting) (before fe : FeLatches) : Prop where
  latchVal : fe.latchVal = before.latchVal
  lastWritten : fe.latchValLastWritten = before.latchValLastWritten
  loadOrder : fe.loadOrder = before.loadOrder
  outputs : fe.bank.outputs = before.bank.outputs
  rest : fe.bank.Rest
  fits : fe.bank.Fits fitting.registers
  known : ∀ id, before.latchVal id = before.latchValLastWritten id → fe.Loaded fitting id

theorem Shadowed.loading (h : fe.Shadowed fitting) : Loading fitting fe fe where
  latchVal := rfl
  lastWritten := rfl
  loadOrder := rfl
  outputs := rfl
  rest := h.rest
  fits := h.fits
  known id hsame := by
    rw [Loaded, hsame]
    exact (h.record id (hsame ▸ h.ne_allOnes id)).1

/-- A load fills the chain of its latch, unless the record knows the word or the board has no such
latch, and leaves the others. -/
theorem Loading.loadLatch {before : FeLatches} (horder : Installable fitting.count before.loadOrder)
    (h : Loading fitting before fe) :
    Loading fitting before (fe.loadLatch fitting.registers id) ∧
      (fe.loadLatch fitting.registers id).Loaded fitting id ∧
      ∀ other, fe.Loaded fitting other →
        (fe.loadLatch fitting.registers id).Loaded fitting other := by
  unfold FeLatches.loadLatch
  split
  case isTrue hsame =>
    have hknown := h.known id (by rw [← h.latchVal, ← h.lastWritten]; exact hsame)
    exact ⟨h, hknown, fun _ hother => hother⟩
  case isFalse =>
    split
    case isTrue hskipped =>
      have hunfitted : ¬ (1 ≤ id ∧ id ≤ fitting.count) := fun hid =>
        (h.loadOrder ▸ horder).getD_ne_zero hid hskipped.1 hskipped.2
      exact ⟨h, loaded_of_unfitted h.fits hunfitted, fun _ hother => hother⟩
    case isFalse =>
      -- a latch that is not fitted has no registers, so nothing is clocked
      by_cases hid : 1 ≤ id ∧ id ≤ fitting.count
      · have hcount := fitting.count_le
        obtain ⟨pin, hpin⟩ := shiftClock_isSome id (by omega)
        obtain ⟨hrest, hchain, houtputs, -⟩ := Bank.gpioAll_loadBits hpin
          (descending (fitting.registers id) (fe.latchVal id)) h.rest
        have hfilled : clockAll (fe.bank.chain id)
            (descending (fitting.registers id) (fe.latchVal id)) =
              fitting.bits id (fe.latchVal id) := clockAll_words _ (h.fits id).1
        rw [hfilled] at hchain
        have hloaded : ∀ other, other = id ∨ fe.Loaded fitting other →
            (fe.bank.loadWord id (fitting.registers id) (fe.latchVal id)).chain other =
              fitting.bits other (fe.latchVal other) := by
          intro other hother
          show (Bank.gpioAll _ _).chain other = _
          rw [hchain]
          obtain rfl | hne := eq_or_ne other id
          · rw [Function.update_self]
          · rw [Function.update_of_ne hne]
            exact hother.resolve_left hne
        exact ⟨⟨h.latchVal, h.lastWritten, h.loadOrder, houtputs.trans h.outputs, hrest,
          h.fits.gpioAll _, fun other hsame => hloaded other (.inr (h.known other hsame))⟩,
          hloaded id (.inl rfl), fun other hother => hloaded other (.inr hother)⟩
      · have hnothing : fe.bank.loadWord id (fitting.registers id) (fe.latchVal id) = fe.bank := by
          rw [fitting.unfitted id hid]
          rfl
        rw [hnothing]
        exact ⟨h, loaded_of_unfitted h.fits hid, fun _ hother => hother⟩

/-- After the loads every latch has its word in its registers. -/
theorem loadLatches_loaded (h : fe.Shadowed fitting) :
    Loading fitting fe (fe.loadLatches fitting.registers) ∧
      ∀ id, (fe.loadLatches fitting.registers).Loaded fitting id := by
  have hbody : ∀ id ∈ six, ∀ loading, Loading fitting fe loading →
      Loading fitting fe (loading.loadLatch fitting.registers id) ∧
        (loading.loadLatch fitting.registers id).Loaded fitting id ∧
        ∀ other, loading.Loaded fitting other →
          (loading.loadLatch fitting.registers id).Loaded fitting other :=
    fun id _ loading hinv => hinv.loadLatch h.order
  obtain ⟨hloading, hloaded⟩ := foldl_establishes (Loading fitting fe)
    (fun id loading => loading.Loaded fitting id) hbody h.loading
  refine ⟨hloading, fun id => ?_⟩
  by_cases hid : 1 ≤ id ∧ id ≤ fitting.count
  · have hcount := fitting.count_le
    refine hloaded id ?_
    simp only [six, List.mem_cons, List.not_mem_nil, or_false]
    omega
  · exact loaded_of_unfitted hloading.fits hid

/-! ## Triggering -/

/-- Between the clocks of a round: a latch whose word the record has shows it. -/
structure Triggering (fitting : Fitting) (loaded fe : FeLatches) : Prop where
  latchVal : fe.latchVal = loaded.latchVal
  loadOrder : fe.loadOrder = loaded.loadOrder
  chain : fe.bank.chain = loaded.bank.chain
  rest : fe.bank.Rest
  fits : fe.bank.Fits fitting.registers
  shown : ∀ id, fe.latchValLastWritten id = fe.latchVal id →
    fe.bank.outputs id = fitting.bits id (fe.latchVal id)

variable (id) in
/-- A clock shows the chain of its latch, and what it shows elsewhere is a chain as well. -/
theorem Triggering.clock {loaded : FeLatches} (hloaded : ∀ id, loaded.Loaded fitting id)
    (h : Triggering fitting loaded fe) (hid : 1 ≤ id ∧ id ≤ 7) :
    Triggering fitting loaded (fe.clock id) ∧
      (id < 7 → (fe.clock id).bank.outputs id = fitting.bits id (fe.latchVal id)) := by
  obtain ⟨address, haddress⟩ := demuxAddress_isSome id hid
  obtain ⟨hrest, hchain, -, houtputs⟩ := Bank.gpioAll_manualClock haddress h.rest
  have hwords : ∀ other, fe.bank.chain other = fitting.bits other (fe.latchVal other) := by
    intro other
    rw [h.chain, h.latchVal]
    exact hloaded other
  refine ⟨⟨h.latchVal, h.loadOrder, hchain.trans h.chain, hrest, h.fits.gpioAll _,
    fun other hsame => ?_⟩, fun hlatch => ?_⟩
  · show (fe.bank.gpioAll (manualClock id)).outputs other = _
    rw [houtputs]
    dsimp only
    split
    · exact hwords other
    · exact h.shown other hsame
  · show (fe.bank.gpioAll (manualClock id)).outputs id = _
    rw [houtputs]
    exact (if_pos (.inr ⟨rfl, hlatch⟩)).trans (hwords id)

/-- A round of the loop: the record then has the word of its latch. -/
theorem Triggering.triggerLatch {loaded : FeLatches} (hloaded : ∀ id, loaded.Loaded fitting id)
    {entry : FeLatches × Bool} (h : Triggering fitting loaded entry.1) (hid : 1 ≤ id ∧ id ≤ 6) :
    Triggering fitting loaded (triggerLatch entry id).1 ∧
      (triggerLatch entry id).1.latchValLastWritten id =
        (triggerLatch entry id).1.latchVal id ∧
      ∀ other, entry.1.latchValLastWritten other = entry.1.latchVal other →
        (triggerLatch entry id).1.latchValLastWritten other =
          (triggerLatch entry id).1.latchVal other := by
  unfold FeLatches.triggerLatch
  dsimp only
  split
  case isTrue hdiffers =>
    obtain ⟨hclocked, hshown⟩ := h.clock id hloaded (by omega)
    refine ⟨⟨hclocked.latchVal, hclocked.loadOrder, hclocked.chain, hclocked.rest, hclocked.fits,
      fun other hsame => ?_⟩, Function.update_self .., fun other hsame => ?_⟩
    · obtain rfl | hne := eq_or_ne other id
      · exact hshown (by omega)
      · refine hclocked.shown other ?_
        exact (Function.update_of_ne hne _ _).symm.trans hsame
    · obtain rfl | hne := eq_or_ne other id
      · exact Function.update_self ..
      · exact (Function.update_of_ne hne _ _).trans hsame
  case isFalse hsame => exact ⟨h, not_not.mp hsame, fun _ hother => hother⟩

/-- After the clocks every latch of the board shows its word, and the record has it. -/
theorem triggerLatches_shown (hloaded : ∀ id, fe.Loaded fitting id)
    (h : Triggering fitting fe fe) (horder : Installable fitting.count fe.loadOrder) :
    Triggering fitting fe fe.triggerLatches ∧
      ∀ id, 1 ≤ id ∧ id ≤ fitting.count →
        fe.triggerLatches.latchValLastWritten id = fe.latchVal id := by
  obtain ⟨hall, hsix⟩ := horder.mem_clocked fitting.count_le
  have hbody : ∀ id ∈ fe.triggered, ∀ entry : FeLatches × Bool,
      Triggering fitting fe entry.1 → Triggering fitting fe (triggerLatch entry id).1 ∧
        (triggerLatch entry id).1.latchValLastWritten id =
          (triggerLatch entry id).1.latchVal id ∧
        ∀ other, entry.1.latchValLastWritten other = entry.1.latchVal other →
          (triggerLatch entry id).1.latchValLastWritten other =
            (triggerLatch entry id).1.latchVal other :=
    fun id hid entry hinv => hinv.triggerLatch hloaded (hsix id hid)
  have hstart : Triggering fitting fe (fe, false).1 := h
  obtain ⟨hclocked, hrecorded⟩ := foldl_establishes
    (fun entry : FeLatches × Bool => Triggering fitting fe entry.1)
    (fun id entry => entry.1.latchValLastWritten id = entry.1.latchVal id) hbody hstart
  have hrecord : ∀ id, 1 ≤ id ∧ id ≤ fitting.count →
      (fe.triggered.foldl triggerLatch (fe, false)).1.latchValLastWritten id = fe.latchVal id :=
    fun id hid => (hrecorded id (hall id hid)).trans (congrFun hclocked.latchVal id)
  unfold triggerLatches
  dsimp only
  split
  · exact ⟨(hclocked.clock 7 hloaded (by decide)).1, hrecord⟩
  · exact ⟨hclocked, hrecord⟩

/-! ## Rounds -/

theorem bits_of_unfitted {registers : List Bool} (hid : ¬ (1 ≤ id ∧ id ≤ fitting.count))
    (hlength : registers.length = 8 * fitting.registers id) (word : BitVec 32) :
    registers = fitting.bits id word := by
  have hzero := fitting.unfitted id hid
  rw [hzero] at hlength
  rw [List.length_eq_zero_iff.mp hlength, Fitting.bits, hzero]
  rfl

/-- A round: every latch shows its word, and the record of those the board has is right. -/
theorem Shadowed.round (h : fe.Shadowed fitting) :
    (fe.round fitting.registers).Shadowed fitting ∧
      (fe.round fitting.registers).latchVal = fe.latchVal ∧
      (∀ id, (fe.round fitting.registers).bank.outputs id = fitting.bits id (fe.latchVal id)) ∧
      ∀ id, 1 ≤ id ∧ id ≤ fitting.count →
        (fe.round fitting.registers).latchValLastWritten id = fe.latchVal id := by
  obtain ⟨hloading, hloaded⟩ := loadLatches_loaded h
  unfold FeLatches.round
  generalize fe.loadLatches fitting.registers = loaded at hloading hloaded ⊢
  have hrecorded : ∀ id, loaded.latchValLastWritten id = loaded.latchVal id →
      loaded.bank.outputs id = fitting.bits id (loaded.latchVal id) := by
    intro id hsame
    rw [hloading.latchVal, hloading.lastWritten] at hsame
    rw [hloading.outputs, hloading.latchVal, ← hsame]
    exact (h.record id (hsame ▸ h.ne_allOnes id)).2
  have horder : Installable fitting.count loaded.loadOrder := hloading.loadOrder ▸ h.order
  -- first all words are shifted in, then each latch that changed is triggered
  obtain ⟨hclocked, hlast⟩ := triggerLatches_shown hloaded
    ⟨rfl, rfl, rfl, hloading.rest, hloading.fits, hrecorded⟩ horder
  generalize loaded.triggerLatches = after at hclocked hlast ⊢
  have hwords : after.latchVal = fe.latchVal := hclocked.latchVal.trans hloading.latchVal
  have hrecord : ∀ id, 1 ≤ id ∧ id ≤ fitting.count →
      after.latchValLastWritten id = fe.latchVal id := fun id hid =>
    (hlast id hid).trans (congrFun hloading.latchVal id)
  have houtputs : ∀ id, after.bank.outputs id = fitting.bits id (fe.latchVal id) := by
    intro id
    by_cases hid : 1 ≤ id ∧ id ≤ fitting.count
    · rw [← hwords]
      exact hclocked.shown id ((hrecord id hid).trans (congrFun hwords id).symm)
    · exact bits_of_unfitted hid (hclocked.fits id).2 _
  have hchain : ∀ id, after.bank.chain id = fitting.bits id (fe.latchVal id) := by
    intro id
    rw [hclocked.chain, ← hloading.latchVal]
    exact hloaded id
  refine ⟨⟨hclocked.rest, hclocked.fits, fun id i hi => ?_, ?_, fun id hvalid => ?_⟩, hwords,
    houtputs, hrecord⟩
  · rw [hwords]
    exact h.legal id i hi
  · rw [hclocked.loadOrder]
    exact horder
  · by_cases hid : 1 ≤ id ∧ id ≤ fitting.count
    · rw [hrecord id hid]
      exact ⟨hchain id, houtputs id⟩
    · exact ⟨bits_of_unfitted hid (hclocked.fits id).1 _,
        bits_of_unfitted hid (hclocked.fits id).2 _⟩

end FeLatches

/-! ## From the probe on -/

theorem Bank.Rest.clocks {bank : Bank} (h : bank.Rest) {ids : List Nat}
    (hids : ∀ id ∈ ids, 1 ≤ id ∧ id ≤ 7) : (bank.gpioAll (ids.flatMap manualClock)).Rest := by
  induction ids generalizing bank with
  | nil => exact h
  | cons id rest ih =>
      obtain ⟨address, haddress⟩ := demuxAddress_isSome id (hids id List.mem_cons_self)
      rw [List.flatMap_cons, gpioAll_append]
      exact ih (gpioAll_manualClock haddress h).1
        fun other hother => hids other (List.mem_cons_of_mem _ hother)

theorem FeLatches.init_shadowed {powerUp : Bank} (hfits : powerUp.Fits fitting.registers) :
    (FeLatches.init powerUp).Shadowed fitting where
  rest := by
    refine Bank.Rest.clocks (fun id pin hpin => ?_) (by decide)
    unfold shiftClock at hpin
    split at hpin <;> cases hpin <;> rfl
  fits := (hfits.gpioAll _).gpioAll _
  legal id i _ := BitVec.getLsbD_zero
  order := .inl rfl
  record id hvalid := absurd rfl hvalid

/-- What holds in every state: and while another core may drive the latches the record is void. -/
def LatchState.Kept (fitting : Fitting) (state : LatchState) : Prop :=
  state.fe.Shadowed fitting ∧
    (state.foreign = true → ∀ id, state.fe.latchValLastWritten id = BitVec.allOnes 32)

theorem LatchState.Kept.step {state following : LatchState} {event : LatchEvent fitting}
    (h : state.Kept fitting) (hstep : state.step fitting event = some following) :
    following.Kept fitting := by
  obtain ⟨hshadowed, hvoid⟩ := h
  cases event with
  | srb bit val =>
      obtain rfl := Option.some.inj hstep
      exact ⟨hshadowed.srb bit.property val, hvoid⟩
  | order order =>
      obtain rfl := Option.some.inj hstep
      exact ⟨⟨hshadowed.rest, hshadowed.fits, hshadowed.legal, order.property, hshadowed.record⟩,
        hvoid⟩
  | round =>
      have hafter := hshadowed.round.1
      simp only [LatchState.step, Option.some.injEq] at hstep
      generalize state.fe.round fitting.registers = fe at hafter hstep
      subst hstep
      exact ⟨hafter, fun hforeign => absurd hforeign Bool.false_ne_true⟩
  | disown =>
      obtain rfl := Option.some.inj hstep
      exact ⟨hshadowed.invalidate, fun _ _ => rfl⟩
  | rewrite bank =>
      simp only [LatchState.step] at hstep
      split at hstep
      case isTrue hforeign =>
        obtain rfl := Option.some.inj hstep
        exact ⟨⟨bank.property.2, bank.property.1, hshadowed.legal, hshadowed.order,
          fun id hvalid => absurd (hvoid hforeign id) hvalid⟩, hvoid⟩
      case isFalse => cases hstep

/-- Whatever happened before, a round makes every latch of the board show its word and writes the
word down, and it changes no latch whose word was the one written last. -/
theorem round_shows_words (fitting : Fitting) (powerUp : Bank)
    (hfits : powerUp.Fits fitting.registers) (events : List (LatchEvent fitting))
    (state : LatchState)
    (hrun : run (LatchState.step fitting) (.start powerUp) events = some state) :
    let after := state.fe.round fitting.registers
    (∀ id, 1 ≤ id ∧ id ≤ fitting.count →
      after.bank.outputs id = fitting.bits id (after.latchVal id) ∧
        (∀ i, 8 * fitting.registers id ≤ i → (after.latchVal id).getLsbD i = false) ∧
        after.latchVal id = state.fe.latchVal id ∧
        after.latchValLastWritten id = after.latchVal id) ∧
      ∀ id, after.bank.outputs id ≠ state.fe.bank.outputs id →
        state.fe.latchVal id ≠ state.fe.latchValLastWritten id := by
  have hkept : state.Kept fitting := by
    have hstart : (LatchState.start powerUp).Kept fitting :=
      ⟨FeLatches.init_shadowed hfits, fun hforeign => absurd hforeign Bool.false_ne_true⟩
    have halways : Always (LatchState.step fitting) (LatchState.Kept fitting) (.start powerUp)
        events := always_of_inductive (fun _ _ _ h hstep => h.step hstep) hstart
    exact halways.final hrun
  obtain ⟨hafter, hwords, houtputs, hrecord⟩ := hkept.1.round
  dsimp only
  generalize state.fe.round fitting.registers = after at hafter hwords houtputs hrecord ⊢
  refine ⟨fun id hid => ⟨?_, hafter.legal id, congrFun hwords id, ?_⟩, fun id hchanged hsame => ?_⟩
  · rw [congrFun hwords id]
    exact houtputs id
  · rw [congrFun hwords id]
    exact hrecord id hid
  · refine hchanged ((houtputs id).trans ?_)
    rw [hsame]
    exact (hkept.1.record id (hsame ▸ hkept.1.ne_allOnes id)).2.symm

/-- A bank whose registers are all clear, with its pins low. -/
def clearBank (registers : Nat → Nat) : Bank where
  level _ := false
  chain id := List.replicate (8 * registers id) false
  outputs id := List.replicate (8 * registers id) false

theorem clearBank_fits (registers : Nat → Nat) : (clearBank registers).Fits registers :=
  fun _ => ⟨List.length_replicate, List.length_replicate⟩

theorem clearBank_rest (registers : Nat → Nat) : (clearBank registers).Rest := fun _ _ _ => rfl

/-- `RFNM_LIME0_PA_S1`, of the third latch. -/
theorem wired_paS1 : lime0.Wired 0x32070000 := by decide

theorem installable_lime0 : Installable lime0.count [3, 1, 2, 0, 0, 0, 0, 0] :=
  .inr ⟨[3, 1, 2], by decide, rfl⟩

/-- Another core clears the latches of a board after an arm; the next round shows the bit again. -/
theorem round_shows_bit_again :
    ∃ state, run (LatchState.step lime0) (.start (clearBank lime0.registers))
        [.order ⟨_, installable_lime0⟩, .srb ⟨_, wired_paS1⟩ true, .round, .disown,
          .rewrite ⟨_, clearBank_fits lime0.registers, clearBank_rest lime0.registers⟩] =
          some state ∧
      state.fe.bank.outputs 3 = List.replicate 16 false ∧
      (state.fe.round lime0.registers).bank.outputs 3 =
        lime0.bits 3 ((state.fe.round lime0.registers).latchVal 3) ∧
      (state.fe.latchVal 3).getLsbD 15 = true :=
  ⟨_, rfl, rfl, ((round_shows_words lime0 (clearBank lime0.registers) (clearBank_fits _)
    [.order ⟨_, installable_lime0⟩, .srb ⟨_, wired_paS1⟩ true, .round, .disown,
      .rewrite ⟨_, clearBank_fits lime0.registers, clearBank_rest lime0.registers⟩] _ rfl).1 3
    (by decide)).1, rfl⟩

end RfnmDriver.Daughterboard
