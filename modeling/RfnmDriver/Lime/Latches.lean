import RfnmDriver.Library.BitField
import RfnmDriver.Library.ShiftRegister
import RfnmDriver.Lime.DuplexOrder

/-!
# The latches behind the front end

`struct fe_s` and the latches of `rfnm_fe_generic.c` as the Lime boards have them. `rfnm_fe_srb`
changes a word in memory; an apply then shifts every word that differs from the last one written
into the registers of its latch, and clocks the latch. `LatchedDriver` runs the applies of the
driver with these latches: `Coherent` says that the words are the image of the applies, `Recorded`
that the record of the last words written is what the latches show, and `rxSet_loopback` that an RX
apply for the chip-internal loopback leaves all of it alone.
-/

namespace RfnmDriver.Lime

open LatchBit RegisterFile ShiftRegister StepSystem

/-- One latch: the entries of `struct fe_s` for it, and the hardware. -/
structure Latch where
  /-- `latch_val`. -/
  val : BitVec 32
  /-- `latch_val_last_written`. -/
  lastWritten : BitVec 32
  /-- The shift registers behind the data line. -/
  chain : List Bool
  /-- What the latch shows. -/
  outputs : List Bool
  deriving DecidableEq, Repr

/-- `struct fe_s` of a board with its latches, which are numbered from 1. -/
structure Latches where
  latch : Nat → Latch
  loadOrder : List Nat

/-- `RFNM_LIME0_NUM_LATCHES`: the shift registers of each latch. -/
def numLatches (id : Nat) : Nat := [0, 1, 2, 2, 0, 0, 0].getD id 0

/-- The position of the bit in the word of its latch. -/
def LatchBit.position (bit : LatchBit) : Nat := bit.q + (bit.seq - 1) * 8

namespace Latch

/-- `rfnm_fe_srb` on the word of the latch. -/
def srb (latch : Latch) (position : Nat) (val : Bool) : Latch :=
  { latch with
    val := if val then latch.val ||| 1#32 <<< position else latch.val &&& ~~~(1#32 <<< position) }

/-- The loop of `rfnm_fe_load_latch`. -/
def load (latch : Latch) (registers : Nat) : Latch :=
  { latch with chain := clockAll latch.chain (descending registers latch.val) }

/-- `rfnm_fe_manual_clock`, with the word written down. -/
def trigger (latch : Latch) : Latch :=
  { latch with outputs := latch.chain, lastWritten := latch.val }

/-- The record is voided. -/
def invalidate (latch : Latch) : Latch := { latch with lastWritten := BitVec.allOnes 32 }

end Latch

namespace Latches

variable (latches : Latches)

def update (id : Nat) (change : Latch → Latch) : Latches :=
  { latches with latch := Function.update latches.latch id (change (latches.latch id)) }

/-- `rfnm_fe_srb`. -/
def srb (write : Srb) : Latches :=
  latches.update write.1.latch fun latch => latch.srb write.1.position write.2

def srbAll (writes : List Srb) : Latches := writes.foldl srb latches

/-- `rfnm_fe_load_order`. -/
def order (order : List Nat) : Latches := { latches with loadOrder := order }

/-- `load_order[i]`. -/
def orderAt (i : Nat) : Nat := latches.loadOrder.getD i 0

/-- `rfnm_fe_load_latch`. -/
def loadLatch (id : Nat) : Latches :=
  let latch := latches.latch id
  if latch.val = latch.lastWritten then latches
  else if latches.orderAt 0 ≠ 0 ∧ latches.orderAt (id - 1) = 0 then latches
  else latches.update id fun latch => latch.load (numLatches id)

/-- `rfnm_fe_load_latches`. -/
def loadLatches : Latches := [1, 2, 3, 4, 5, 6].foldl loadLatch latches

/-- One round of `rfnm_fe_trigger_latches`. -/
def triggerLatch (id : Nat) : Latches :=
  let latch := latches.latch id
  if latch.lastWritten ≠ latch.val then latches.update id Latch.trigger else latches

/-- `rfnm_fe_trigger_latches`: in the load order up to its first 0, or all six. -/
def triggerLatches : Latches :=
  let ids := if latches.orderAt 0 ≠ 0 then latches.loadOrder.takeWhile (· ≠ 0)
    else [1, 2, 3, 4, 5, 6]
  ids.foldl triggerLatch latches

/-- What `rfnm_dgb_en_tdd` does to the record: the M7 drives the latches from then on. -/
def invalidate : Latches := { latches with latch := fun id => (latches.latch id).invalidate }

/-- `RFNM_LO_LIME0_TX, RFNM_LO_LIME0_ANT, RFNM_LO_LIME0_FA, RFNM_LO_LIME0_END`. -/
def rxOrder : List Nat := [3, 1, 2, 0, 0, 0, 0, 0]

/-- `RFNM_LO_LIME0_FA, RFNM_LO_LIME0_ANT, RFNM_LO_LIME0_TX, RFNM_LO_LIME0_END`. -/
def txOrder : List Nat := [2, 1, 3, 0, 0, 0, 0, 0]

/-- The words go out in an order. -/
def send (order : List Nat) : Latches := (latches.order order).loadLatches.triggerLatches

/-- `rfnm_fe_generic_init`: the first clock of every latch shows what its registers came up with. -/
def init (powerUp : Nat → BitVec 16) : Latches :=
  { latch := fun id =>
      let chain := lowBits (8 * numLatches id) (powerUp id)
      ⟨0#32, BitVec.allOnes 32, chain, chain⟩
    loadOrder := List.replicate 8 0 }

/-- The latches once `rfnm_lime_probe` is through. -/
def probed (powerUp : Nat → BitVec 16) : Latches :=
  ((init powerUp).srbAll (setBiasT false)).loadLatches.triggerLatches

end Latches

/-! ## Words and the image -/

/-- The bit is an output of a shift register the board has. -/
def LatchBit.Wired (bit : LatchBit) : Prop :=
  bit.latch ∈ [1, 2, 3] ∧ 1 ≤ bit.seq ∧ bit.seq ≤ numLatches bit.latch ∧ bit.q < 8

instance LatchBit.Wired.decidable (bit : LatchBit) : Decidable bit.Wired :=
  inferInstanceAs (Decidable (_ ∧ _))

theorem LatchBit.Wired.position_lt {bit : LatchBit} (h : bit.Wired) : bit.position < 16 := by
  obtain ⟨hlatch, hpos, hseq, hq⟩ := h
  have hregisters : ∀ id ∈ [1, 2, 3], numLatches id ≤ 2 := by decide
  have htwo := hregisters _ hlatch
  unfold LatchBit.position
  omega

/-- Two bits of one latch have two positions. -/
theorem LatchBit.Wired.ext_position {bit other : LatchBit} (h : bit.Wired) (hother : other.Wired)
    (hlatch : bit.latch = other.latch) (hposition : bit.position = other.position) :
    bit = other := by
  obtain ⟨latch, seq, q⟩ := bit
  obtain ⟨otherLatch, otherSeq, otherQ⟩ := other
  obtain ⟨-, hseq, -, hq⟩ := h
  obtain ⟨-, hotherSeq, -, hotherQ⟩ := hother
  simp only [LatchBit.position] at hlatch hposition hseq hq hotherSeq hotherQ
  rw [LatchBit.mk.injEq]
  omega

namespace Latch

variable {latch : Latch} {registers : Nat}

/-- A bit set or cleared is the bit of its position and no other. -/
theorem getLsbD_srb {position : Nat} (hposition : position < 32) (val : Bool) (i : Nat) :
    (latch.srb position val).val.getLsbD i =
      if i = position then val else latch.val.getLsbD i := by
  have hsrb : (latch.srb position val).val = BitField.setBit latch.val position val := by
    cases val with
    | true => rfl
    | false => rfl
  rw [hsrb, BitField.getLsbD_setBit hposition]

/-- The record of the latch: its registers are as long as the board has them, its word has no bit
beyond them and so is not the void record, and what it shows is the word written last, unless the
record is void. -/
structure Recorded (registers : Nat) (latch : Latch) : Prop where
  length : latch.chain.length = 8 * registers
  legal : ∀ i, 16 ≤ i → latch.val.getLsbD i = false
  record : latch.lastWritten ≠ BitVec.allOnes 32 →
    latch.outputs = lowBits (8 * registers) latch.lastWritten

/-- A word of the front end is never the void record. -/
theorem Recorded.ne_allOnes (h : Recorded registers latch) : latch.val ≠ BitVec.allOnes 32 := by
  intro heq
  have hbit := h.legal 31 (by decide)
  rw [heq] at hbit
  revert hbit
  decide

theorem Recorded.srb (h : Recorded registers latch) {position : Nat} (hposition : position < 16)
    (val : Bool) : Recorded registers (latch.srb position val) where
  length := h.length
  legal i hi := by
    rw [getLsbD_srb (by omega), if_neg (by omega)]
    exact h.legal i hi
  record := h.record

theorem Recorded.invalidate (h : Recorded registers latch) :
    Recorded registers latch.invalidate where
  length := h.length
  legal := h.legal
  record hne := absurd rfl hne

/-- A latch that is loaded and triggered unless the record has its word. -/
def sent (registers : Nat) (latch : Latch) : Latch :=
  if latch.val = latch.lastWritten then latch else (latch.load registers).trigger

/-- It then shows its word, and the record says so. -/
theorem Recorded.sent (h : Recorded registers latch) :
    Recorded registers (latch.sent registers) ∧
      (latch.sent registers).val = latch.val ∧
      (latch.sent registers).lastWritten = latch.val ∧
      (latch.sent registers).outputs = lowBits (8 * registers) latch.val := by
  unfold Latch.sent
  split
  case isTrue hsame =>
      refine ⟨h, rfl, hsame.symm, ?_⟩
      rw [h.record (hsame ▸ h.ne_allOnes), hsame]
  case isFalse =>
      have hchain : clockAll latch.chain (descending registers latch.val) =
          lowBits (8 * registers) latch.val := clockAll_words latch.val h.length
      refine ⟨⟨length_clockAll.trans h.length, h.legal, fun _ => hchain⟩, rfl, rfl, hchain⟩

end Latch

namespace Latches

variable {latches : Latches}

@[simp] theorem update_latch_self (id : Nat) (change : Latch → Latch) :
    (latches.update id change).latch id = change (latches.latch id) :=
  Function.update_self ..

theorem update_latch_of_ne {id other : Nat} (h : other ≠ id) (change : Latch → Latch) :
    (latches.update id change).latch other = latches.latch other :=
  Function.update_of_ne h ..

theorem update_of_fixed {id : Nat} {change : Latch → Latch}
    (h : change (latches.latch id) = latches.latch id) : latches.update id change = latches := by
  unfold update
  rw [h, Function.update_eq_self]

/-- A loop that changes each latch by itself. -/
theorem foldl_update {step : Latches → Nat → Latches}
    {change : List Nat → Nat → Latch → Latch}
    (hstep : ∀ latches id, step latches id = latches.update id (change latches.loadOrder id))
    {ids : List Nat} (hnodup : ids.Nodup) (latches : Latches) :
    (ids.foldl step latches).loadOrder = latches.loadOrder ∧
      ∀ id, (ids.foldl step latches).latch id =
        if id ∈ ids then change latches.loadOrder id (latches.latch id) else latches.latch id := by
  induction ids generalizing latches with
  | nil => exact ⟨rfl, fun _ => rfl⟩
  | cons head tail ih =>
      obtain ⟨hhead, htail⟩ := List.nodup_cons.mp hnodup
      obtain ⟨horder, hlatch⟩ := ih htail (step latches head)
      rw [hstep] at horder hlatch
      rw [List.foldl_cons, hstep]
      refine ⟨horder, fun id => (hlatch id).trans ?_⟩
      obtain rfl | hne := eq_or_ne id head
      · simp [hhead, update]
      · simp [hne, update]

/-- What `rfnm_fe_load_latch` makes of a latch in an order. -/
def loaded (loadOrder : List Nat) (id : Nat) (latch : Latch) : Latch :=
  if latch.val = latch.lastWritten ∨ loadOrder.getD 0 0 ≠ 0 ∧ loadOrder.getD (id - 1) 0 = 0 then
    latch
  else latch.load (numLatches id)

theorem loadLatch_eq (latches : Latches) (id : Nat) :
    latches.loadLatch id = latches.update id (loaded latches.loadOrder id) := by
  by_cases hkept : (latches.latch id).val = (latches.latch id).lastWritten ∨
      latches.orderAt 0 ≠ 0 ∧ latches.orderAt (id - 1) = 0
  · have hfixed : loaded latches.loadOrder id (latches.latch id) = latches.latch id := if_pos hkept
    rw [update_of_fixed hfixed]
    by_cases hsame : (latches.latch id).val = (latches.latch id).lastWritten
    · exact if_pos hsame
    · exact (if_neg hsame).trans (if_pos (hkept.resolve_left hsame))
  · have hchange : loaded latches.loadOrder id (latches.latch id) =
        (latches.latch id).load (numLatches id) := if_neg hkept
    obtain ⟨hval, horder⟩ := not_or.mp hkept
    rw [update, hchange]
    exact (if_neg hval).trans (if_neg horder)

/-- What a round of `rfnm_fe_trigger_latches` makes of a latch. -/
def triggered (_ : List Nat) (_ : Nat) (latch : Latch) : Latch :=
  if latch.lastWritten ≠ latch.val then latch.trigger else latch

theorem triggerLatch_eq (latches : Latches) (id : Nat) :
    latches.triggerLatch id = latches.update id (triggered latches.loadOrder id) := by
  by_cases hdiffers : (latches.latch id).lastWritten ≠ (latches.latch id).val
  · have hchange : triggered latches.loadOrder id (latches.latch id) =
        (latches.latch id).trigger := if_pos hdiffers
    rw [update, hchange]
    exact if_pos hdiffers
  · have hfixed : triggered latches.loadOrder id (latches.latch id) = latches.latch id :=
      if_neg hdiffers
    rw [update_of_fixed hfixed]
    exact if_neg hdiffers

/-- The latches of a list are loaded and triggered, and the others stay. -/
def SentTo (ids : List Nat) (before after : Latches) : Prop :=
  ∀ id, after.latch id =
    if id ∈ ids then (before.latch id).sent (numLatches id) else before.latch id

/-- The two loops, where the load order triggers the latches that it lets load. -/
theorem sentTo_of_order (latches : Latches) {ids : List Nat} (hnodup : ids.Nodup)
    (hids : (if latches.orderAt 0 ≠ 0 then latches.loadOrder.takeWhile (· ≠ 0)
      else [1, 2, 3, 4, 5, 6]) = ids)
    (hsix : ∀ id ∈ ids, id ∈ [1, 2, 3, 4, 5, 6])
    (hskips : ∀ id ∈ [1, 2, 3, 4, 5, 6],
      latches.orderAt 0 ≠ 0 ∧ latches.orderAt (id - 1) = 0 ↔ id ∉ ids) :
    SentTo ids latches latches.loadLatches.triggerLatches := by
  intro id
  have hsixNodup : [1, 2, 3, 4, 5, 6].Nodup := by decide
  obtain ⟨hload, hloaded⟩ := foldl_update loadLatch_eq hsixNodup latches
  have htrigger : latches.loadLatches.triggerLatches =
      ids.foldl triggerLatch latches.loadLatches := by
    have horder : latches.loadLatches.loadOrder = latches.loadOrder := hload
    unfold orderAt at hids
    unfold triggerLatches orderAt
    rw [horder, hids]
  rw [htrigger, (foldl_update triggerLatch_eq hnodup _).2, loadLatches, hloaded]
  -- a latch the order names is loaded and triggered, any other keeps its word
  by_cases hid : id ∈ ids
  · rw [if_pos hid, if_pos (hsix id hid), if_pos hid]
    unfold Latch.sent
    by_cases hsame : (latches.latch id).val = (latches.latch id).lastWritten
    · have hkept : loaded latches.loadOrder id (latches.latch id) = latches.latch id :=
        if_pos (.inl hsame)
      rw [hkept, if_pos hsame]
      exact if_neg fun hne => hne hsame.symm
    · have hloads : loaded latches.loadOrder id (latches.latch id) =
          (latches.latch id).load (numLatches id) := if_neg fun h =>
        h.elim hsame fun hskipped => (hskips id (hsix id hid)).mp hskipped hid
      rw [hloads, if_neg hsame]
      exact if_pos (Ne.symm hsame)
  · rw [if_neg hid, if_neg hid]
    split
    case isFalse => rfl
    case isTrue hmem =>
        have hskipped := (hskips id hmem).mpr hid
        exact if_pos (.inr hskipped)

theorem sentTo_rx (latches : Latches) : SentTo [3, 1, 2] latches (latches.send rxOrder) := by
  have hskips : ∀ id ∈ [1, 2, 3, 4, 5, 6],
      rxOrder.getD 0 0 ≠ 0 ∧ rxOrder.getD (id - 1) 0 = 0 ↔ id ∉ [3, 1, 2] := by decide
  have hnodup : [3, 1, 2].Nodup := by decide
  have hsent := sentTo_of_order (latches.order rxOrder) hnodup rfl (by decide) hskips
  intro id
  unfold send
  rw [hsent id]
  rfl

theorem sentTo_tx (latches : Latches) : SentTo [2, 1, 3] latches (latches.send txOrder) := by
  have hskips : ∀ id ∈ [1, 2, 3, 4, 5, 6],
      txOrder.getD 0 0 ≠ 0 ∧ txOrder.getD (id - 1) 0 = 0 ↔ id ∉ [2, 1, 3] := by decide
  have hnodup : [2, 1, 3].Nodup := by decide
  have hsent := sentTo_of_order (latches.order txOrder) hnodup rfl (by decide) hskips
  intro id
  unfold send
  rw [hsent id]
  rfl

/-! ## What the words and the records are -/

/-- The words are the image of the applies, and every latch has its record. -/
structure Faithful (latches : Latches) (fe : Fe) : Prop where
  shows : ∀ bit : LatchBit, bit.Wired →
    (latches.latch bit.latch).val.getLsbD bit.position = fe bit
  kept : ∀ id, (latches.latch id).Recorded (numLatches id)

theorem invalidate_outputs (id : Nat) :
    (latches.invalidate.latch id).outputs = (latches.latch id).outputs := rfl

namespace Faithful

variable {fe : Fe} {ids : List Nat} {after : Latches}

theorem srb (h : latches.Faithful fe) {write : Srb} (hwrite : write.1.Wired) :
    (latches.srb write).Faithful (Function.update fe write.1 write.2) where
  shows bit hbit := by
    have hposition : write.1.position < 32 := by
      have := hwrite.position_lt
      omega
    unfold Latches.srb
    by_cases hlatch : bit.latch = write.1.latch
    · rw [hlatch, update_latch_self, Latch.getLsbD_srb hposition]
      obtain rfl | hne := eq_or_ne bit write.1
      · rw [if_pos rfl, Function.update_self]
      · have hother : bit.position ≠ write.1.position := fun heq =>
          hne (hbit.ext_position hwrite hlatch heq)
        rw [if_neg hother, Function.update_of_ne hne, ← hlatch, h.shows bit hbit]
    · have hne : bit ≠ write.1 := fun heq => hlatch (heq ▸ rfl)
      rw [update_latch_of_ne hlatch, Function.update_of_ne hne, h.shows bit hbit]
  kept id := by
    unfold Latches.srb
    obtain rfl | hne := eq_or_ne id write.1.latch
    · rw [update_latch_self]
      exact (h.kept _).srb hwrite.position_lt write.2
    · rw [update_latch_of_ne hne]
      exact h.kept id

theorem srbAll (h : latches.Faithful fe) {writes : List Srb}
    (hwrites : ∀ write ∈ writes, write.1.Wired) :
    (latches.srbAll writes).Faithful (store fe writes) := by
  induction writes generalizing latches fe with
  | nil => exact h
  | cons write rest ih =>
      exact ih (h.srb (hwrites write (.head _))) fun other hother => hwrites other (.tail _ hother)

/-- The words go out and stay. -/
theorem sentTo (h : latches.Faithful fe) (hsent : SentTo ids latches after) :
    after.Faithful fe where
  shows bit hbit := by
    have hval : ∀ registers, ∀ latch : Latch, (latch.sent registers).val = latch.val := by
      intro registers latch
      unfold Latch.sent
      split <;> rfl
    rw [← h.shows bit hbit, hsent]
    split
    · rw [hval]
    · rfl
  kept id := by
    rw [hsent]
    split
    · exact (h.kept id).sent.1
    · exact h.kept id

theorem invalidate (h : latches.Faithful fe) : latches.invalidate.Faithful fe where
  shows := h.shows
  kept id := (h.kept id).invalidate

/-- Once the words are out, the board shows the image. -/
theorem outputs (h : latches.Faithful fe) (hsent : SentTo ids latches after) {bit : LatchBit}
    (hbit : bit.Wired) (hids : bit.latch ∈ ids) :
    (after.latch bit.latch).outputs[bit.position]? = some (fe bit) := by
  have hposition : bit.position < 8 * numLatches bit.latch := by
    obtain ⟨-, hpos, hseq, hq⟩ := hbit
    unfold LatchBit.position
    omega
  rw [hsent, if_pos hids, (h.kept bit.latch).sent.2.2.2, ← h.shows bit hbit, lowBits,
    List.getElem?_map, List.getElem?_range hposition]
  rfl

end Faithful

theorem faithful_init (powerUp : Nat → BitVec 16) : (init powerUp).Faithful fun _ => false where
  shows _ _ := BitVec.getLsbD_zero
  kept _ := ⟨by simp [init, lowBits], fun _ _ => BitVec.getLsbD_zero, fun h => absurd rfl h⟩

/-- The probe sends all six words. -/
theorem sentTo_probed (powerUp : Nat → BitVec 16) :
    SentTo [1, 2, 3, 4, 5, 6] ((init powerUp).srbAll (setBiasT false)) (probed powerUp) := by
  refine sentTo_of_order _ (by decide) rfl (fun _ h => h) fun id hid => ?_
  exact iff_of_false (fun h => h.1 rfl) fun h => h hid

end Latches

/-! ## The bits of the applies are wired -/

theorem filterWrites_wired (ch : RxCh) : ∀ write ∈ filterWrites ch, write.1.Wired := by
  obtain ⟨first, bank, ⟨filter, hfilter, last, hlast, rfl⟩, heq⟩ := filterWrites_eq ch
  have hfilters : ∀ filter ∈ filters, ∀ write ∈ filter, write.1.Wired := by decide
  have hlasts : ∀ last ∈ [[], lime0FmNotch false], ∀ write ∈ last, write.1.Wired := by decide
  have hnotch : ∀ en, ∀ write ∈ lime0FmNotch en, write.1.Wired := by decide
  intro write hwrite
  rw [heq, List.mem_append, List.mem_append] at hwrite
  rcases hwrite with hfirst | hmem | hmem
  · exact hnotch first write hfirst
  · exact hfilters filter hfilter write hmem
  · exact hlasts last hlast write hmem

theorem bandWrites_wired (owner : Option TxCh) (ch : RxCh) :
    ∀ write ∈ bandWrites owner ch, write.1.Wired := by
  intro write hwrite
  unfold bandWrites at hwrite
  split at hwrite
  · cases hwrite
  · rcases List.mem_append.mp hwrite with hfilter | hlrim
    · exact filterWrites_wired ch write hfilter
    · split at hlrim
      · cases hlrim
      · rw [List.mem_singleton.mp hlrim]
        exact (by decide : lrim.Wired)

theorem portWrites_wired (owner : Option TxCh) (ch : RxCh) :
    ∀ write ∈ portWrites owner ch, write.1.Wired := by
  have hstaging : ∀ staging : PortStaging, ∀ write ∈ staging.writes, write.1.Wired := by
    intro staging
    cases staging <;> decide
  have hparking : ∀ parking : PaParking, ∀ write ∈ parking.writes, write.1.Wired := by
    intro parking
    cases parking <;> decide
  intro write hwrite
  rcases List.mem_append.mp hwrite with hmem | hbias
  · rcases List.mem_append.mp hmem with hport | hpa
    · exact hstaging _ write hport
    · exact hparking _ write hpa
  · split at hbias
    · cases hbias
    · rw [List.mem_singleton.mp hbias]
      exact (by decide : antBias.Wired)

theorem txWrites_wired (params : Params) (ch : TxCh) :
    ∀ write ∈ txWrites params ch, write.1.Wired := by
  have hdriven : ∀ bit ∈ driven (txWrites params ch), bit.Wired := by
    obtain ⟨pa1, pa2, t24, t12, t6, hchain⟩ := txChainWrites_eq params ch
    have hband : driven (lime0TxBand (2350 ≤ mhz ch.freq)) = [tfi] := rfl
    have hbias : driven (setBiasT ch.biasTee) = [antBias] := rfl
    rw [txWrites_eq, driven_append, driven_append, driven_append, driven_append, hband, hchain,
      driven_txChain, driven_txLpf, hbias]
    unfold portSwitch
    split <;> decide
  exact fun write hwrite => hdriven write.1 (List.mem_map_of_mem hwrite)

/-! ## Applies -/

/-- The driver with the latches of its boards. -/
structure LatchedDriver where
  driver : Driver
  latches : Slot → Latches

namespace LatchedDriver

variable (params : Params) (latched : LatchedDriver) (slot : Slot)

/-- The latches of the board after an RX apply. A refused synthesizer leaves the words of the band
in memory. -/
def rxLatches (ch : RxCh) (succeeds : Bool) : Latches :=
  let board := latched.driver.board slot
  let words := (latched.latches slot).srbAll (bandWrites board.txS ch)
  if succeeds then
    let words := words.srbAll (portWrites board.txS ch)
    let sent := if chipLoopback board.txS ch then words else words.send Latches.rxOrder
    if ch.tdd && board.txS.any TxCh.tdd then sent.invalidate else sent
  else words

/-- `rfnm_rx_ch_set`. -/
def rxSet (ch : RxCh) (tune : Tune) : LatchedDriver × Bool :=
  let set := latched.driver.rxSet params slot ch tune
  let latches := Function.update latched.latches slot (latched.rxLatches slot ch set.2)
  (⟨set.1, latches⟩, set.2)

/-- The latches of the board after a TX apply. -/
def txLatches (ch : TxCh) (succeeds : Bool) : Latches :=
  let board := latched.driver.board slot
  if succeeds && ch.enable ≠ .rfOff then
    let words := (latched.latches slot).srbAll (txWrites params ch)
    let sent := words.send Latches.txOrder
    if ch.tdd && board.rxS.tdd then sent.invalidate else sent
  else latched.latches slot

/-- `rfnm_tx_ch_set`. -/
def txSet (ch : TxCh) (tune : Tune) : LatchedDriver × Bool :=
  let set := latched.driver.txSet params slot ch tune
  let latches := Function.update latched.latches slot (latched.txLatches params slot ch set.2)
  (⟨set.1, latches⟩, set.2)

/-- With both boards bound. -/
def probed (powerUp : Slot → Nat → BitVec 16) : LatchedDriver :=
  ⟨.probed, fun slot => .probed (powerUp slot)⟩

/-- The latches of each board are faithful to its image. -/
def Coherent : Prop :=
  ∀ slot, (latched.latches slot).Faithful (latched.driver.board slot).fe

variable {params latched slot}

/-- A change to one board that is faithful leaves the boards coherent. -/
theorem Coherent.update (h : latched.Coherent) {driver : Driver} {latches : Latches}
    (hother : ∀ other, other ≠ slot → driver.board other = latched.driver.board other)
    (hslot : latches.Faithful (driver.board slot).fe) :
    Coherent ⟨driver, Function.update latched.latches slot latches⟩ := by
  intro other
  dsimp only
  obtain rfl | hne := eq_or_ne other slot
  · rw [Function.update_self]
    exact hslot
  · rw [Function.update_of_ne hne, hother other hne]
    exact h other

theorem Coherent.rxSet (h : latched.Coherent) (ch : RxCh) (tune : Tune) :
    (latched.rxSet params slot ch tune).1.Coherent := by
  have hband := (h slot).srbAll (bandWrites_wired (latched.driver.board slot).txS ch)
  have hport := hband.srbAll (portWrites_wired (latched.driver.board slot).txS ch)
  refine h.update (latched.driver.rxSet_channels params slot ch tune).2 ?_
  rw [Driver.rxSet_snd, Driver.rxSet_eq]
  cases latched.driver.rxAccepts ch tune with
  | false =>
      rw [if_neg Bool.false_ne_true, Driver.put_board_self]
      exact hband
  | true =>
      rw [if_pos rfl, Driver.put_board_self]
      unfold rxLatches
      dsimp only
      rw [if_pos rfl]
      split_ifs
      · exact hport.invalidate
      · exact (hport.sentTo (Latches.sentTo_rx _)).invalidate
      · exact hport
      · exact hport.sentTo (Latches.sentTo_rx _)

theorem Coherent.txSet (h : latched.Coherent) (ch : TxCh) (tune : Tune) :
    (latched.txSet params slot ch tune).1.Coherent := by
  have hwords := (h slot).srbAll (txWrites_wired params ch)
  refine h.update (latched.driver.txSet_channels params slot ch tune).2.2 ?_
  unfold txLatches
  dsimp only
  by_cases hon : ch.enable = .rfOff
  · have hfe : ((latched.driver.txSet params slot ch tune).1.board slot).fe =
        (latched.driver.board slot).fe := by
      rw [Driver.txSet_eq]
      simp [hon]
    rw [hfe, hon]
    simpa using h slot
  · cases hsucceeds : (latched.driver.txSet params slot ch tune).2 with
    | false =>
        have hfe : ((latched.driver.txSet params slot ch tune).1.board slot).fe =
            (latched.driver.board slot).fe := by
          rw [Driver.txSet_eq] at hsucceeds ⊢
          simp only [hon, if_false] at hsucceeds ⊢
          split at hsucceeds
          · cases hsucceeds
          · rw [if_neg ‹_›, Driver.put_board_self]
        rw [hfe]
        exact h slot
    | true =>
        rw [latched.driver.txSet_fe params slot hon hsucceeds]
        simp only [hon, ne_eq, not_false_eq_true, decide_true, Bool.and_self, if_true]
        split_ifs
        · exact (hwords.sentTo (Latches.sentTo_tx _)).invalidate
        · exact hwords.sentTo (Latches.sentTo_tx _)

/-- After an RX apply that succeeds outside the chip-internal loopback the board shows the image. -/
theorem rxSet_shows (h : latched.Coherent) {ch : RxCh} {tune : Tune}
    (haccepts : latched.driver.rxAccepts ch tune = true)
    (hloop : chipLoopback (latched.driver.board slot).txS ch = false) {bit : LatchBit}
    (hbit : bit.Wired) :
    let set := (latched.rxSet params slot ch tune).1
    (((set.latches slot).latch bit.latch).outputs)[bit.position]? =
      some ((set.driver.board slot).fe bit) := by
  have hport := ((h slot).srbAll (bandWrites_wired (latched.driver.board slot).txS ch)).srbAll
    (portWrites_wired (latched.driver.board slot).txS ch)
  have hids : bit.latch ∈ [3, 1, 2] := by
    have hthree : ∀ id ∈ [1, 2, 3], id ∈ [3, 1, 2] := by decide
    exact hthree _ hbit.1
  have hshown := hport.outputs (Latches.sentTo_rx _) hbit hids
  have hfe : ((latched.driver.rxSet params slot ch tune).1.board slot).fe =
      store (latched.driver.board slot).fe (rxWrites (latched.driver.board slot).txS ch) :=
    Driver.rxSet_fe haccepts
  rw [rxWrites, store_append] at hfe
  unfold LatchedDriver.rxSet
  dsimp only
  rw [hfe, Function.update_self, Driver.rxSet_snd, haccepts, ← hshown]
  unfold rxLatches
  dsimp only
  rw [if_pos rfl, hloop, if_neg Bool.false_ne_true]
  -- what the handover to the M7 voids is the record and not what is shown
  split
  · rw [Latches.invalidate_outputs]
  · exact Eq.refl _

theorem coherent_probed (powerUp : Slot → Nat → BitVec 16) : (probed powerUp).Coherent := by
  intro slot
  have hwired : ∀ write ∈ setBiasT false, write.1.Wired := by decide
  have hfaithful := (Latches.faithful_init (powerUp slot)).srbAll hwired
  dsimp only [probed]
  exact hfaithful.sentTo (Latches.sentTo_probed (powerUp slot))

/-- One apply. A TX apply reaches only a board with a TX channel. -/
def next (params : Params) (latched : LatchedDriver) : TddEvent → Option LatchedDriver
  | .txSet slot ch tune =>
      if (latched.driver.board slot).txS.isSome then some (latched.txSet params slot ch tune).1
      else none
  | .rxSet slot ch tune => some (latched.rxSet params slot ch tune).1

/-- In every run from the probe the words are the image, and the records tell what is shown. -/
theorem run_coherent (params : Params) (powerUp : Slot → Nat → BitVec 16)
    (events : List TddEvent) :
    Always (next params) Coherent (probed powerUp) events := by
  refine always_of_inductive (fun latched event following h hnext => ?_) (coherent_probed powerUp)
  cases event with
  | txSet slot ch tune =>
      obtain ⟨-, rfl⟩ := of_guard hnext
      exact h.txSet ch tune
  | rxSet slot ch tune =>
      obtain rfl := Option.some.inj hnext
      exact h.rxSet ch tune

/-! ## The chip-internal loopback -/

/-- Where the transmitter is on, the loopback writes no bit of the front end. -/
theorem loopback_writes {owner : Option TxCh} {ch : RxCh} (hair : txLive owner = true)
    (hpath : ch.path = .loopback) :
    chipLoopback owner ch = true ∧ bandWrites owner ch = [] ∧ portWrites owner ch = [] := by
  have hloop : chipLoopback owner ch = true := by simp [chipLoopback, hpath, hair]
  -- the port is the transmitter's, and so are its amplifiers
  have hport : portStaging owner ch = .txOwned := if_pos (rfLive_of_txLive hair)
  have hparking : paParking owner ch = .untouched := (if_pos hpath).trans (if_pos hair)
  refine ⟨hloop, if_pos hloop, ?_⟩
  rw [portWrites, hport, hparking, if_pos hloop]
  rfl

/-- A transmitter in plain RF_ON is in no TDD pattern. -/
theorem not_tdd_of_txLive {owner : Option TxCh} (hair : txLive owner = true) :
    owner.any TxCh.tdd = false := by
  cases owner with
  | none => rfl
  | some tx =>
      have hon : tx.enable = .rfOn := of_decide_eq_true (Bool.and_eq_true_iff.mp hair).1
      simp [TxCh.tdd, hon]

/-- With the transmitter on, an RX apply on the loopback path leaves the words, the record, the load
order, the registers and the outputs of every latch, and the image, whether it succeeds or not. -/
theorem rxSet_loopback (params : Params) (latched : LatchedDriver) (slot : Slot) (ch : RxCh)
    (tune : Tune) (hair : txLive (latched.driver.board slot).txS = true)
    (hpath : ch.path = .loopback) :
    (latched.rxSet params slot ch tune).1.latches = latched.latches ∧
      ∀ other, ((latched.rxSet params slot ch tune).1.driver.board other).fe =
        (latched.driver.board other).fe := by
  obtain ⟨hloop, hband, hport⟩ := loopback_writes hair hpath
  have hlatches : ∀ succeeds, latched.rxLatches slot ch succeeds = latched.latches slot := by
    intro succeeds
    unfold rxLatches
    dsimp only
    rw [hband, hport, hloop, not_tdd_of_txLive hair]
    cases succeeds <;> simp [Latches.srbAll]
  refine ⟨?_, fun other => ?_⟩
  · unfold LatchedDriver.rxSet
    dsimp only
    rw [hlatches, Function.update_eq_self]
  · have hdriver : (latched.rxSet params slot ch tune).1.driver =
        (latched.driver.rxSet params slot ch tune).1 := rfl
    rw [hdriver]
    obtain rfl | hne := eq_or_ne other slot
    · rw [Driver.rxSet_eq]
      dsimp only
      rw [hband, hport]
      cases latched.driver.rxAccepts ch tune <;> simp [store]
    · rw [(latched.driver.rxSet_channels params slot ch tune).2 other hne]

/-- The transmitter of the first board as its own monitor. -/
def monitor : RxCh := { (Driver.receiveAt 433000000).ch with path := .loopback }

/-- A board that transmits is monitored through the chip. -/
theorem rxSet_loopback_onAir :
    let latched : LatchedDriver := ⟨onAir, fun _ => .probed fun _ => 0#16⟩
    (latched.rxSet .standard .primary monitor .locked).1.latches = latched.latches ∧
      ∀ other, ((latched.rxSet .standard .primary monitor .locked).1.driver.board other).fe =
        (latched.driver.board other).fe :=
  rxSet_loopback .standard ⟨onAir, fun _ => .probed fun _ => 0#16⟩ .primary monitor .locked
    (by decide) rfl

end LatchedDriver

end RfnmDriver.Lime
