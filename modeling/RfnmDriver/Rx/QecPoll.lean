import RfnmDriver.Library.WrapClock
import RfnmDriver.Rx.DcNullRuns

/-!
# A poll of the estimator

`qec_poll` goes over the slots that the firmware has completed since its last look, up to a guard
behind the writer, and adds them to the accumulator that the DC null and the solver work on. It
knows slots by their place in the ring alone; here they have numbers as well, and `Fresh` says which
numbers an accumulator may hold. Read `walk_spec` first.
-/

namespace RfnmDriver.Rx.Qec

open CheckedInt Lanes StepSystem WrapClock

/-- `QEC_ADC_SLOT_CNT`. -/
def qecAdcSlotCnt : BitVec 32 := 4096#32

/-- `QEC_WRITER_GUARD`. -/
def qecWriterGuard : BitVec 32 := 4#32

/-- The module parameters that a poll reads, and `msecs_to_jiffies`. -/
structure PollParams where
  slotsPerWake : BitVec 32
  settleMs : BitVec 32
  solveMs : BitVec 32
  minSamples : BitVec 32
  dcNullMinSamples : BitVec 32
  useNeon : Bool
  dcNullEnable : Bool
  dc2x2Enable : Bool
  dcDeadband : BitVec 32
  dcRenullCounts : BitVec 32
  betaQ8 : BitVec 32
  msecsToJiffies : BitVec 32 → BitVec 64

/-- The parameters of the null. -/
def PollParams.null (params : PollParams) : NullParams :=
  ⟨params.dcNullEnable, params.dc2x2Enable, params.dcDeadband⟩

/-- The parameters of the solver. -/
def PollParams.solve (params : PollParams) : SolveParams :=
  ⟨params.betaQ8, params.dcNullEnable, params.dcRenullCounts⟩

/-- The settling has a length, and the slots of a wake fit into the ring beside the guard. -/
structure PollParams.Workable (params : PollParams) : Prop where
  settles : 0 < (params.msecsToJiffies params.settleMs).toNat
  ends : (params.msecsToJiffies params.settleMs).toNat < 2 ^ 63
  fits : params.slotsPerWake.toNat + 4 ≤ 4096

/-- What a poll finds outside of what it keeps. -/
structure PollRound where
  params : PollParams
  jiffies : BitVec 64
  /-- `rfnm_local_rx_fmt` is `RFNM_PACKET_FMT_PACKED12`. -/
  packed12 : Bool
  /-- `rfnm_stream_is_native_rx`. -/
  native : Bool
  /-- `st->samp`, as the last slot left it. -/
  samp : Mem 16
  /-- `qec_find_target` finds a channel. -/
  found : Bool
  /-- What becomes of a code the null writes. -/
  outcome : Outcome

/-- What the code does not keep, but statements about its runs speak of. -/
structure PollHistory where
  /-- The slots that the firmware has completed. -/
  written : Nat
  /-- The slots by their number. -/
  slots : Nat → RingSlot
  /-- The slots in the accumulator, by their number. -/
  folded : List Nat
  /-- The slots that were completed when the accumulator was dropped last. -/
  dropped : Nat

/-- The number of the slot that was completed last at a place. -/
def PollHistory.numberAt (history : PollHistory) (place : Nat) : Nat :=
  history.written - 1 - (history.written + 4095 - place) % 4096

/-- The estimator, and the ring it reads. -/
structure Estimator where
  /-- The ADC ring, by place. -/
  ring : Nat → RingSlot
  /-- `rx_buf_id` of the firmware's status. -/
  rxBufId : BitVec 32
  lastRxBufId : BitVec 32
  lastSlot : BitVec 32
  wasIdle : Bool
  settleUntil : BitVec 64
  lastSolve : BitVec 64
  acc : QecAcc
  model : Model
  statSlots : Nat
  statIdle : Nat
  statSolves : BitVec 32
  /-- The DC null, and the radio with the two epochs. -/
  dc : DcNull
  history : PollHistory

namespace Estimator

variable (round : PollRound) (st : Estimator)

/-! ## The code -/

/-- `memset(&st->acc, 0, sizeof(st->acc))`. -/
def drop : Estimator :=
  { st with
    acc := .clear
    history := { st.history with folded := [], dropped := st.history.written } }

/-- `jiffies + msecs_to_jiffies(settle_ms)`. -/
def settleEnd : BitVec 64 :=
  round.jiffies + round.params.msecsToJiffies round.params.settleMs

/-- The two epochs: a step of either restarts the settling and drops the accumulator. -/
def noteEpochs : Estimator :=
  if st.dc.radio.gainEpoch ≠ st.dc.lastGainEpoch ∨
      st.dc.radio.applyEpoch ≠ st.dc.lastApplyEpoch then
    { st.drop with settleUntil := settleEnd round, dc := st.dc.noteEpochs }
  else st

/-- The first poll of a stream: `last_rx_buf_id` is the new one, and an idle estimator settles. -/
def resume : Estimator :=
  let moved := { st with lastRxBufId := st.rxBufId }
  if st.wasIdle then { moved with wasIdle := false, settleUntil := settleEnd round } else moved

/-- The slot to read up to. -/
def target : BitVec 32 :=
  (st.rxBufId + qecAdcSlotCnt - qecWriterGuard) % qecAdcSlotCnt

/-- The slot to read from, and how many. -/
def window : BitVec 32 × BitVec 32 :=
  let avail := (st.target + qecAdcSlotCnt - st.lastSlot) % qecAdcSlotCnt
  if avail > round.params.slotsPerWake then
    ((st.target + qecAdcSlotCnt - round.params.slotsPerWake) % qecAdcSlotCnt,
      round.params.slotsPerWake)
  else (st.lastSlot, avail)

/-- The places that the loop reads, in its order. -/
def places : List Nat :=
  (List.range (st.window round).2.toNat).map fun n =>
    (((st.window round).1 + 1#32 + BitVec.ofNat 32 n) % qecAdcSlotCnt).toNat

/-- The loop over the slots, by the routine that `use_neon` selects. -/
def walk : Checked Estimator := do
  let slots := (st.places round).map st.ring
  let acc ← qecFold round.params.useNeon round.samp st.acc slots
  return { st with
    acc := acc
    statSlots := st.statSlots + validSlots slots
    lastSlot := st.target
    history := { st.history with
      folded := st.history.folded ++ (st.places round).map (PollHistory.numberAt st.history) } }

/-- `qec_dc_null_step`. The means are of 12-bit samples. -/
def nullStep : Checked Estimator := do
  let mi ← div64 st.acc.si st.acc.n
  let mq ← div64 st.acc.sq st.acc.n
  if h : |mi| ≤ 2048 ∧ |mq| ≤ 2048 then
    return { st.drop with
      settleUntil := round.jiffies + round.params.msecsToJiffies 50#32
      dc := st.dc.qecDcNullStep round.params.null ⟨mi, mq, h.1, h.2⟩ round.found round.outcome }
  else
    .error .lossyCast

/-- The call of `qec_solve`. -/
def solve : Checked Estimator := do
  let solved ← qecSolve round.params.solve ⟨st.acc, st.model, st.statSolves, st.dc.null⟩
  return { st.drop with
    model := solved.model
    statSolves := solved.statSolves
    dc := { st.dc with null := solved.null }
    lastSolve := round.jiffies }

/-- What the accumulator is used for: an armed null owns it, and the solver has it otherwise. The
counts of samples are compared as unsigned ones. -/
def conclude : Checked Estimator :=
  if st.dc.Owns round.params.dcNullEnable then
    if (round.params.dcNullMinSamples.signExtend 64).toNat ≤ st.acc.n then st.nullStep round
    else .ok st
  else if later round.jiffies (st.lastSolve + round.params.msecsToJiffies round.params.solveMs) ∧
      (round.params.minSamples.signExtend 64).toNat ≤ st.acc.n then st.solve round
  else .ok st

/-- `qec_poll` from the settling on. -/
def measure : Checked Estimator :=
  if later st.settleUntil round.jiffies then .ok { st with lastSlot := st.target }
  else do
    let walked ← st.walk round
    walked.conclude round

/-- `qec_poll`. -/
def poll : Checked Estimator :=
  if round.packed12 = false ∨ round.native = false then .ok st
  else
    let noted := st.noteEpochs round
    if noted.rxBufId ≥ qecAdcSlotCnt then .ok { noted with wasIdle := true }
    else if noted.rxBufId = noted.lastRxBufId then
      .ok { noted with statIdle := noted.statIdle + 1, wasIdle := true }
    else (noted.resume round).measure round

/-! ## Runs -/

/-- What happens beside and in the estimator. -/
inductive Event where
  /-- The firmware completes a slot. -/
  | complete (slot : RingSlot)
  /-- The status is not sane, as with a VSPA that is down. -/
  | upset (rxBufId : BitVec 32)
  /-- A client applies its list. -/
  | apply (codes : ClientCodes) (tuned : Bool)
  /-- The channel is applied as it is, by a gain step or otherwise. -/
  | reapply (gainStep tuned : Bool)
  | poll (round : PollRound)

/-- The firmware completes a slot. -/
def complete (slot : RingSlot) : Estimator :=
  { st with
    ring := Function.update st.ring (st.history.written % 4096) slot
    rxBufId := BitVec.ofNat 32 ((st.history.written + 1) % 4096)
    history := { st.history with
      written := st.history.written + 1
      slots := Function.update st.history.slots st.history.written slot } }

/-- One event. -/
def next : Event → Option Estimator
  | .complete slot => some (st.complete slot)
  | .upset rxBufId => if rxBufId ≥ qecAdcSlotCnt then some { st with rxBufId := rxBufId } else none
  | .apply codes tuned =>
      (st.dc.next (.apply codes tuned)).map fun dc => { st with dc := dc }
  | .reapply gainStep tuned =>
      (st.dc.next (.reapply gainStep tuned)).map fun dc => { st with dc := dc }
  | .poll round => (st.poll round).toOption

/-- The module as it is loaded, beside a ring that has been written to the end at least once. -/
def loaded (ring : Nat → RingSlot) (written : Nat) (jiffies : BitVec 64) (dc : DcNull) :
    Estimator where
  ring := ring
  rxBufId := BitVec.ofNat 32 (written % 4096)
  lastRxBufId := 0xffffffff#32
  lastSlot := BitVec.ofNat 32 (written % 4096)
  wasIdle := true
  settleUntil := 0
  lastSolve := jiffies
  acc := .clear
  model := ⟨0, 0, 0, 0, 0⟩
  statSlots := 0
  statIdle := 0
  statSolves := 0
  dc := dc
  history := ⟨written, fun number => ring (number % 4096), [], written⟩

/-! ## The property -/

/-- A poll has workable parameters. -/
def Event.Workable : Event → Prop
  | .poll round => round.params.Workable
  | _ => True

/-- The sums are those of slots in the order of their completion, each of them once; they are behind
the guard; and at most three of them were completed when the accumulator was dropped last. -/
structure SumsOf (numbers : List Nat) (acc : QecAcc) : Prop where
  sums : ∀ samp, qecFold false samp .clear (numbers.map st.history.slots) = .ok acc
  ordered : numbers.Pairwise (· < ·)
  behind : ∀ number ∈ numbers, number + 4 ≤ st.history.written
  settled : ∀ number ∈ numbers, st.history.dropped < number + 4

/-- The accumulator has the sums of the slots in it. -/
def Fresh : Prop := st.SumsOf st.history.folded st.acc

/-- How many slots a poll reads: those since its last look, but no more than it takes a wake. -/
def unreadCount : Nat :=
  min round.params.slotsPerWake.toNat ((st.history.written + 4092 - st.lastSlot.toNat) % 4096)

/-- The newest slots behind the guard, as many as a poll reads. -/
def unread : List Nat :=
  List.range' (st.history.written - 3 - st.unreadCount round) (st.unreadCount round)

/-! ## Places and numbers -/

variable {round st} {params : PollParams} {seen count : Nat} {following : Estimator} {event : Event}

/-- The slot completed last at the place of a slot that is less than a lap back is that slot. -/
theorem numberAt_mod {history : PollHistory} {number : Nat}
    (hlow : history.written ≤ number + 4096) (hhigh : number < history.written) :
    history.numberAt (number % 4096) = number := by
  unfold PollHistory.numberAt
  omega

theorem target_toNat (hstatus : st.rxBufId = BitVec.ofNat 32 (st.history.written % 4096)) :
    st.target.toNat = (st.history.written + 4092) % 4096 := by
  unfold target qecAdcSlotCnt qecWriterGuard
  rw [hstatus]
  simp only [BitVec.toNat_umod, BitVec.toNat_sub, BitVec.toNat_add, BitVec.toNat_ofNat,
    Nat.reducePow, Nat.reduceMod]
  omega

/-- The window ends at the target, and has the slots since the last one, or the newest of them. -/
theorem window_spec (round : PollRound)
    (hstatus : st.rxBufId = BitVec.ofNat 32 (st.history.written % 4096))
    (hseen : st.lastSlot = BitVec.ofNat 32 (seen % 4096)) (hguard : seen + 4 ≤ st.history.written) :
    (st.window round).2.toNat = st.unreadCount round ∧
      st.unreadCount round ≤ round.params.slotsPerWake.toNat ∧
      seen + 4 + st.unreadCount round ≤ st.history.written ∧
      (st.window round).1.toNat = (st.history.written - 4 - st.unreadCount round) % 4096 := by
  have htarget := target_toNat hstatus
  have hlast : st.lastSlot.toNat = seen % 4096 := by
    rw [hseen, BitVec.toNat_ofNat]
    omega
  have havail : ((st.target + qecAdcSlotCnt - st.lastSlot) % qecAdcSlotCnt).toNat =
      (st.history.written - 4 - seen) % 4096 := by
    unfold qecAdcSlotCnt
    simp only [BitVec.toNat_umod, BitVec.toNat_sub, BitVec.toNat_add, BitVec.toNat_ofNat,
      Nat.reducePow, Nat.reduceMod, htarget, hlast]
    omega
  have hready : (st.history.written + 4092 - seen % 4096) % 4096 =
      (st.history.written - 4 - seen) % 4096 := by omega
  have hcount : st.unreadCount round =
      min round.params.slotsPerWake.toNat ((st.history.written - 4 - seen) % 4096) := by
    rw [unreadCount, hlast, hready]
  rw [hcount]
  unfold window
  simp only
  split
  · next hmore =>
      have hlt : round.params.slotsPerWake.toNat < (st.history.written - 4 - seen) % 4096 := by
        rw [← havail]
        exact hmore
      rw [Nat.min_eq_left hlt.le]
      refine ⟨rfl, le_refl _, by omega, ?_⟩
      unfold qecAdcSlotCnt
      simp only [BitVec.toNat_umod, BitVec.toNat_sub, BitVec.toNat_add, BitVec.toNat_ofNat,
        Nat.reducePow, Nat.reduceMod, htarget]
      omega
  · next hmore =>
    have hle : (st.history.written - 4 - seen) % 4096 ≤ round.params.slotsPerWake.toNat := by
      rw [← havail]
      exact Nat.not_lt.mp hmore
    rw [Nat.min_eq_right hle]
    refine ⟨havail, hle, by omega, ?_⟩
    rw [hlast]
    omega

/-- The places of a window are those of consecutive slots. -/
theorem places_eq (hcount : (st.window round).2.toNat = count)
    (hle : count + 4 ≤ st.history.written)
    (hfirst : (st.window round).1.toNat = (st.history.written - 4 - count) % 4096) :
    st.places round = (List.range' (st.history.written - 3 - count) count).map (· % 4096) := by
  unfold places
  rw [hcount, List.range'_eq_map_range, List.map_map]
  refine List.map_congr_left fun n hn => ?_
  have hn := List.mem_range.mp hn
  unfold qecAdcSlotCnt
  simp only [Function.comp_apply, BitVec.toNat_umod, BitVec.toNat_add, BitVec.toNat_ofNat,
    Nat.reducePow, Nat.reduceMod, hfirst]
  omega

/-! ## The invariant -/

/-- The ring has the last lap of the slots, and a sane status is the place of the next one. -/
structure Steady (st : Estimator) : Prop where
  fresh : st.Fresh
  lap : 4096 ≤ st.history.written
  dropped : st.history.dropped ≤ st.history.written
  ringed : ∀ number, number < st.history.written → st.history.written ≤ number + 4096 →
    st.ring (number % 4096) = st.history.slots number
  status : st.rxBufId < qecAdcSlotCnt → st.rxBufId = BitVec.ofNat 32 (st.history.written % 4096)

/-- An estimator that is not idle remembers a slot behind the guard, which is neither before the last
drop nor before a slot in the accumulator. -/
def Walking (st : Estimator) : Prop :=
  ∃ seen, st.lastSlot = BitVec.ofNat 32 (seen % 4096) ∧ seen + 4 ≤ st.history.written ∧
    st.history.dropped ≤ seen + 4 ∧ ∀ number ∈ st.history.folded, number ≤ seen

/-- The invariant. -/
structure Inv (st : Estimator) : Prop where
  steady : st.Steady
  walking : st.wasIdle = false → st.Walking

/-- The routine of the vector unit folds what the scalar one does. -/
theorem qecFold_scalar (neon : Bool) (samp other : Mem 16) (acc : QecAcc)
    (slots : List RingSlot) : qecFold neon samp acc slots = qecFold false other acc slots := by
  have hsums : ∀ slot : RingSlot, slotSums neon samp slot = slotSums false other slot := by
    intro slot
    unfold slotSums
    split
    · exact (qecSlotNeon_eq slot.payload samp).1
    · rfl
  unfold qecFold
  simp only [hsums]

/-- Slots are folded one part after the other. -/
theorem qecFold_append {samp : Mem 16} {acc middle : QecAcc} {first rest : List RingSlot}
    (h : qecFold false samp acc first = .ok middle) :
    qecFold false samp acc (first ++ rest) = qecFold false samp middle rest := by
  unfold qecFold at h ⊢
  rw [List.foldlM_append, h, ok_bind]

/-- Firmware and ring are as they were. -/
structure Outside (st following : Estimator) : Prop where
  ring : following.ring = st.ring
  rxBufId : following.rxBufId = st.rxBufId
  written : following.history.written = st.history.written
  slots : following.history.slots = st.history.slots

/-- What of the invariant is about the accumulator is all there is to show of the estimator's own
steps. -/
theorem Steady.of_outside (h : st.Steady) (houtside : st.Outside following)
    (hfresh : following.Fresh) (hdropped : following.history.dropped ≤ st.history.written) :
    following.Steady := by
  obtain ⟨hring, hstatus, hwritten, hslots⟩ := houtside
  refine ⟨hfresh, ?_, ?_, ?_, ?_⟩
  · rw [hwritten]
    exact h.lap
  · rw [hwritten]
    exact hdropped
  · rw [hwritten, hring, hslots]
    exact h.ringed
  · rw [hstatus, hwritten]
    exact h.status

/-- A dropped accumulator has no slots in it. -/
theorem fresh_of_empty (hacc : following.acc = .clear) (hfolded : following.history.folded = []) :
    following.Fresh := by
  refine ⟨fun samp => ?_, ?_, ?_, ?_⟩
  · rw [hfolded, hacc]
    rfl
  · rw [hfolded]
    exact List.Pairwise.nil
  · rw [hfolded]
    exact fun number hmem => absurd hmem List.not_mem_nil
  · rw [hfolded]
    exact fun number hmem => absurd hmem List.not_mem_nil

/-- An accumulator that is left alone stays as it is. -/
theorem Steady.of_same (h : st.Steady) (houtside : st.Outside following)
    (hacc : following.acc = st.acc) (hhistory : following.history = st.history) :
    following.Steady := by
  refine h.of_outside houtside ⟨?_, ?_, ?_, ?_⟩ (hhistory ▸ h.dropped)
  · rw [hhistory, hacc]
    exact h.fresh.sums
  · rw [hhistory]
    exact h.fresh.ordered
  · rw [hhistory]
    exact h.fresh.behind
  · rw [hhistory]
    exact h.fresh.settled

/-! ## The walk -/

/-- The slots that a walk reads are the unread ones. -/
theorem places_spec (h : st.Steady) (hfits : round.params.slotsPerWake.toNat + 4 ≤ 4096)
    (hstatus : st.rxBufId = BitVec.ofNat 32 (st.history.written % 4096))
    (hseen : st.lastSlot = BitVec.ofNat 32 (seen % 4096))
    (hguard : seen + 4 ≤ st.history.written) :
    (st.places round).map st.history.numberAt = st.unread round ∧
      (st.places round).map st.ring = (st.unread round).map st.history.slots := by
  obtain ⟨hcount, hcap, hle, hfirst⟩ := window_spec round hstatus hseen hguard
  have hplaces := places_eq hcount (by omega) hfirst
  -- the numbers of the window are less than a lap back
  constructor
  · rw [hplaces, List.map_map]
    refine (List.map_congr_left fun number hmem => ?_).trans (List.map_id _)
    obtain ⟨hlow, hhigh⟩ := List.mem_range'_1.mp hmem
    exact numberAt_mod (by omega) (by omega)
  · rw [hplaces, List.map_map]
    refine List.map_congr_left fun number hmem => ?_
    obtain ⟨hlow, hhigh⟩ := List.mem_range'_1.mp hmem
    exact h.ringed number (by omega) (by omega)

/-- A walk adds the unread slots to those in the accumulator. -/
theorem walk_sums (h : st.Steady) (hfits : round.params.slotsPerWake.toNat + 4 ≤ 4096)
    (hstatus : st.rxBufId = BitVec.ofNat 32 (st.history.written % 4096))
    (hseen : st.lastSlot = BitVec.ofNat 32 (seen % 4096)) (hguard : seen + 4 ≤ st.history.written)
    (hdropped : st.history.dropped ≤ seen + 4)
    (hfolded : ∀ number ∈ st.history.folded, number ≤ seen) {acc : QecAcc}
    (hacc : qecFold round.params.useNeon round.samp st.acc ((st.places round).map st.ring) =
      .ok acc) : st.SumsOf (st.history.folded ++ st.unread round) acc := by
  obtain ⟨-, -, hle, -⟩ := window_spec round hstatus hseen hguard
  obtain ⟨-, hslots⟩ := places_spec h hfits hstatus hseen hguard
  have hnew : ∀ number ∈ st.unread round, seen < number ∧ number + 4 ≤ st.history.written := by
    intro number hmem
    obtain ⟨hlow, hhigh⟩ := List.mem_range'_1.mp hmem
    omega
  refine ⟨fun samp => ?_, ?_, fun number hmem => ?_, fun number hmem => ?_⟩
  · rw [List.map_append, qecFold_append (h.fresh.sums samp), ← hslots,
      ← qecFold_scalar round.params.useNeon round.samp]
    exact hacc
  · rw [List.pairwise_append]
    refine ⟨h.fresh.ordered, List.pairwise_lt_range', fun number hmem other hother => ?_⟩
    exact (hfolded number hmem).trans_lt (hnew other hother).1
  · obtain hold | hunread := List.mem_append.mp hmem
    · exact h.fresh.behind number hold
    · exact (hnew number hunread).2
  · obtain hold | hunread := List.mem_append.mp hmem
    · exact h.fresh.settled number hold
    · have := (hnew number hunread).1
      omega

/-- A walk appends the slots of its window to those in the accumulator. -/
theorem walk_spec (h : st.Steady) (hfits : round.params.slotsPerWake.toNat + 4 ≤ 4096)
    (hstatus : st.rxBufId = BitVec.ofNat 32 (st.history.written % 4096))
    (hseen : st.lastSlot = BitVec.ofNat 32 (seen % 4096)) (hguard : seen + 4 ≤ st.history.written)
    (hdropped : st.history.dropped ≤ seen + 4)
    (hfolded : ∀ number ∈ st.history.folded, number ≤ seen)
    (hwalk : st.walk round = .ok following) :
    st.Outside following ∧ following.Fresh ∧ following.lastSlot = st.target ∧
      following.wasIdle = st.wasIdle ∧ following.history.dropped = st.history.dropped := by
  obtain ⟨acc, hacc, hwalked⟩ := of_bind_ok hwalk
  obtain rfl := Except.ok.inj hwalked
  obtain ⟨hnumbers, -⟩ := places_spec h hfits hstatus hseen hguard
  have hsums := walk_sums h hfits hstatus hseen hguard hdropped hfolded hacc
  rw [← hnumbers] at hsums
  exact ⟨⟨rfl, rfl, rfl, rfl⟩, ⟨hsums.sums, hsums.ordered, hsums.behind, hsums.settled⟩, rfl, rfl,
    rfl⟩

/-- An estimator that has just remembered the target has the invariant. -/
theorem Steady.at_target (h : st.Steady) (houtside : st.Outside following)
    (hfresh : following.Fresh)
    (hstatus : st.rxBufId = BitVec.ofNat 32 (st.history.written % 4096))
    (hlast : following.lastSlot = st.target)
    (hdropped : following.history.dropped ≤ st.history.written) : following.Inv := by
  have hwritten := houtside.written
  have hlap := h.lap
  refine ⟨h.of_outside houtside hfresh hdropped, fun _ =>
    ⟨st.history.written - 4, ?_, by omega, by omega, fun number hmem => ?_⟩⟩
  · rw [hlast]
    refine BitVec.eq_of_toNat_eq ?_
    rw [target_toNat hstatus, BitVec.toNat_ofNat]
    omega
  · have hbehind := hfresh.behind number hmem
    omega

/-! ## What a poll does -/

/-- What the accumulator is used for leaves it, or drops it. -/
theorem conclude_cases (hconclude : st.conclude round = .ok following) :
    following = st ∨
    (st.Outside following ∧ following.lastSlot = st.lastSlot ∧ following.acc = .clear ∧
      following.history.folded = [] ∧ following.history.dropped = st.history.written) := by
  unfold conclude at hconclude
  split at hconclude
  · split at hconclude
    · unfold nullStep at hconclude
      obtain ⟨_, -, hconclude⟩ := of_bind_ok hconclude
      obtain ⟨_, -, hconclude⟩ := of_bind_ok hconclude
      split at hconclude
      · obtain rfl := Except.ok.inj hconclude
        exact .inr ⟨⟨rfl, rfl, rfl, rfl⟩, rfl, rfl, rfl, rfl⟩
      · cases hconclude
    · exact .inl (Except.ok.inj hconclude).symm
  · split at hconclude
    · unfold solve at hconclude
      obtain ⟨_, -, hconclude⟩ := of_bind_ok hconclude
      obtain rfl := Except.ok.inj hconclude
      exact .inr ⟨⟨rfl, rfl, rfl, rfl⟩, rfl, rfl, rfl, rfl⟩
    · exact .inl (Except.ok.inj hconclude).symm

/-- A settling that has just begun is not over. -/
theorem later_settleEnd (hworks : round.params.Workable) :
    later (settleEnd round) round.jiffies = true := by
  have hpos := hworks.settles
  have hlt := hworks.ends
  have hdiff : round.jiffies - settleEnd round =
      -round.params.msecsToJiffies round.params.settleMs := by
    unfold settleEnd
    rw [← BitVec.sub_sub]
    simp
  unfold later
  rw [hdiff]
  generalize round.params.msecsToJiffies round.params.settleMs = settle at hpos hlt ⊢
  rw [BitVec.slt_eq_decide, decide_eq_true_iff]
  show (-settle).toInt < 0
  rw [BitVec.toInt_eq_toNat_cond, BitVec.toNat_neg]
  split
  · omega
  · omega

/-- A blanked poll only remembers the target. -/
theorem measure_blank (h : st.Steady) (hsettle : later st.settleUntil round.jiffies = true)
    (hstatus : st.rxBufId = BitVec.ofNat 32 (st.history.written % 4096))
    (hmeasure : st.measure round = .ok following) : following.Inv := by
  unfold measure at hmeasure
  rw [if_pos hsettle] at hmeasure
  obtain rfl := Except.ok.inj hmeasure
  have hkept : Steady { st with lastSlot := st.target } := h.of_same ⟨rfl, rfl, rfl, rfl⟩ rfl rfl
  exact h.at_target ⟨rfl, rfl, rfl, rfl⟩ hkept.fresh hstatus rfl h.dropped

/-- A poll of a stream that goes on walks, and may use the accumulator up. -/
theorem measure_walk (h : st.Steady) (hworks : round.params.Workable) (hwalking : st.Walking)
    (hstatus : st.rxBufId = BitVec.ofNat 32 (st.history.written % 4096))
    (hmeasure : st.measure round = .ok following) : following.Inv := by
  by_cases hsettle : later st.settleUntil round.jiffies = true
  · exact measure_blank h hsettle hstatus hmeasure
  · unfold measure at hmeasure
    rw [if_neg hsettle] at hmeasure
    obtain ⟨seen, hseen, hguard, hdropped, hfolded⟩ := hwalking
    simp only [bind, Except.bind] at hmeasure
    split at hmeasure
    case h_1 => cases hmeasure
    case h_2 walked hwalk =>
      obtain ⟨houtside, hfresh, hlast, -, hsame⟩ :=
        walk_spec h hworks.fits hstatus hseen hguard hdropped hfolded hwalk
      obtain rfl | ⟨hthen, hkept, hacc, hempty, hdrop⟩ := conclude_cases hmeasure
      · exact h.at_target houtside hfresh hstatus hlast (hsame ▸ h.dropped)
      · refine h.at_target ⟨hthen.ring.trans houtside.ring, hthen.rxBufId.trans houtside.rxBufId,
          hthen.written.trans houtside.written, hthen.slots.trans houtside.slots⟩
          (fresh_of_empty hacc hempty) hstatus (hkept.trans hlast) ?_
        rw [hdrop, houtside.written]

/-- An epoch that has stepped drops the accumulator and begins a settling. -/
theorem noteEpochs_cases (round : PollRound) (st : Estimator) :
    st.noteEpochs round = st ∨
    (st.Outside (st.noteEpochs round) ∧ (st.noteEpochs round).acc = .clear ∧
      (st.noteEpochs round).history.folded = [] ∧
      (st.noteEpochs round).history.dropped = st.history.written ∧
      (st.noteEpochs round).settleUntil = settleEnd round) := by
  unfold noteEpochs
  split
  · exact .inr ⟨⟨rfl, rfl, rfl, rfl⟩, rfl, rfl, rfl, rfl⟩
  · exact .inl rfl

/-- A stream that goes on leaves ring, accumulator and history. -/
theorem resume_spec (round : PollRound) (st : Estimator) :
    st.Outside (st.resume round) ∧ (st.resume round).acc = st.acc ∧
      (st.resume round).history = st.history := by
  unfold resume
  simp only
  split
  · exact ⟨⟨rfl, rfl, rfl, rfl⟩, rfl, rfl⟩
  · exact ⟨⟨rfl, rfl, rfl, rfl⟩, rfl, rfl⟩

theorem resume_dc (round : PollRound) (st : Estimator) : (st.resume round).dc = st.dc := by
  unfold resume
  simp only
  split
  · rfl
  · rfl

/-- One that was idle settles. -/
theorem resume_cases (round : PollRound) (st : Estimator) :
    (st.resume round).settleUntil = settleEnd round ∨
    (st.wasIdle = false ∧ (st.resume round).lastSlot = st.lastSlot ∧
      (st.resume round).settleUntil = st.settleUntil) := by
  unfold resume
  simp only
  split
  · exact .inl rfl
  · next hidle => exact .inr ⟨Bool.not_eq_true _ ▸ hidle, rfl, rfl⟩

/-- Every poll keeps the invariant. -/
theorem Inv.poll (h : st.Inv) (hworks : round.params.Workable)
    (hpoll : st.poll round = .ok following) : following.Inv := by
  unfold Estimator.poll at hpoll
  split at hpoll
  · obtain rfl := Except.ok.inj hpoll
    exact h
  · simp only at hpoll
    -- what the epochs leave has the invariant but for the slot that is remembered
    have hnoted : (st.noteEpochs round).Steady := by
      obtain hsame | ⟨houtside, hacc, hempty, hdrop, -⟩ := noteEpochs_cases round st
      · rw [hsame]
        exact h.steady
      · exact h.steady.of_outside houtside (fresh_of_empty hacc hempty) (le_of_eq hdrop)
    split at hpoll
    · obtain rfl := Except.ok.inj hpoll
      exact ⟨hnoted.of_same ⟨rfl, rfl, rfl, rfl⟩ rfl rfl, fun hidle => Bool.noConfusion hidle⟩
    · next hsane =>
        split at hpoll
        · obtain rfl := Except.ok.inj hpoll
          exact ⟨hnoted.of_same ⟨rfl, rfl, rfl, rfl⟩ rfl rfl, fun hidle => Bool.noConfusion hidle⟩
        · have hstatus := hnoted.status (BitVec.not_le.mp hsane)
          obtain ⟨houtside, hacc, hhistory⟩ := resume_spec round (st.noteEpochs round)
          have hresumed := hnoted.of_same houtside hacc hhistory
          rw [← houtside.rxBufId, ← houtside.written] at hstatus
          obtain hblank | ⟨hidle, hlast, hsettle⟩ := resume_cases round (st.noteEpochs round)
          · exact measure_blank hresumed (hblank ▸ later_settleEnd hworks) hstatus hpoll
          · obtain hsame | ⟨-, -, -, -, hnew⟩ := noteEpochs_cases round st
            · have hwalking : ((st.noteEpochs round).resume round).Walking := by
                unfold Walking
                rw [hlast, hhistory, hsame]
                exact h.walking (hsame ▸ hidle)
              exact measure_walk hresumed hworks hwalking hstatus hpoll
            · rw [hnew] at hsettle
              exact measure_blank hresumed (hsettle ▸ later_settleEnd hworks) hstatus hpoll

/-! ## Runs of the estimator -/

/-- A completed slot is one slot more, and leaves the others of the lap where they are. -/
theorem Inv.complete (h : st.Inv) (slot : RingSlot) : (st.complete slot).Inv := by
  have hslots : ∀ number, number < st.history.written →
      (st.complete slot).history.slots number = st.history.slots number := by
    intro number hlt
    exact Function.update_of_ne (Nat.ne_of_lt hlt) _ _
  have hbehind := h.steady.fresh.behind
  have hlap := h.steady.lap
  refine ⟨⟨⟨fun samp => ?_, h.steady.fresh.ordered, fun number hmem => ?_, h.steady.fresh.settled⟩,
    ?_, ?_, fun number hlt hnear => ?_, fun _ => rfl⟩, fun hidle => ?_⟩
  · have hsums := h.steady.fresh.sums samp
    have hmap : st.history.folded.map (st.complete slot).history.slots =
        st.history.folded.map st.history.slots :=
      List.map_congr_left fun number hmem => hslots number (by have := hbehind number hmem; omega)
    exact (congrArg (qecFold false samp .clear) hmap).trans hsums
  · exact Nat.le_succ_of_le (hbehind number hmem)
  · exact Nat.le_succ_of_le hlap
  · exact Nat.le_succ_of_le h.steady.dropped
  · obtain rfl | hne := eq_or_ne number st.history.written
    · show Function.update st.ring (st.history.written % 4096) slot _ =
        Function.update st.history.slots st.history.written slot _
      rw [Function.update_self, Function.update_self]
    · have hlt : number < st.history.written + 1 := hlt
      have hnear : st.history.written + 1 ≤ number + 4096 := hnear
      rw [hslots number (by omega), ← h.steady.ringed number (by omega) (by omega)]
      have hplace : number % 4096 ≠ st.history.written % 4096 := by omega
      exact Function.update_of_ne hplace _ _
  · obtain ⟨seen, hseen, hguard, hdropped, hfolded⟩ := h.walking hidle
    exact ⟨seen, hseen, Nat.le_succ_of_le hguard, hdropped, hfolded⟩

/-- A round that the run goes on from has come to its end. -/
theorem poll_of_next (hnext : st.next (.poll round) = some following) :
    st.poll round = .ok following := by
  change (st.poll round).toOption = some following at hnext
  cases hresult : st.poll round with
  | error trap =>
      rw [hresult] at hnext
      cases hnext
  | ok polled =>
      rw [hresult] at hnext
      exact congrArg Except.ok (Option.some.inj hnext)

/-- Every event keeps the invariant. -/
theorem Inv.next (h : st.Inv) (hworks : event.Workable)
    (hnext : st.next event = some following) : following.Inv := by
  cases event with
  | complete slot =>
      obtain rfl := Option.some.inj hnext
      exact h.complete slot
  | upset rxBufId =>
      obtain ⟨hupset, rfl⟩ := of_guard hnext
      have hsteady := h.steady
      exact ⟨⟨⟨hsteady.fresh.sums, hsteady.fresh.ordered, hsteady.fresh.behind,
        hsteady.fresh.settled⟩, hsteady.lap, hsteady.dropped, hsteady.ringed,
        fun hsane => absurd hupset (BitVec.not_le.mpr hsane)⟩, h.walking⟩
  | apply codes tuned =>
      unfold Estimator.next at hnext
      obtain ⟨dc, -, rfl⟩ := Option.map_eq_some_iff.mp hnext
      exact ⟨h.steady.of_same ⟨rfl, rfl, rfl, rfl⟩ rfl rfl, h.walking⟩
  | reapply gainStep tuned =>
      unfold Estimator.next at hnext
      obtain ⟨dc, -, rfl⟩ := Option.map_eq_some_iff.mp hnext
      exact ⟨h.steady.of_same ⟨rfl, rfl, rfl, rfl⟩ rfl rfl, h.walking⟩
  | poll round => exact h.poll hworks (poll_of_next hnext)

theorem loaded_inv (ring : Nat → RingSlot) {written : Nat} (hlap : 4096 ≤ written)
    (jiffies : BitVec 64) (dc : DcNull) : (loaded ring written jiffies dc).Inv :=
  ⟨⟨fresh_of_empty rfl rfl, hlap, le_refl _, fun _ _ _ => rfl, fun _ => rfl⟩,
    fun hidle => Bool.noConfusion hidle⟩

end Estimator

end RfnmDriver.Rx.Qec
