import RfnmDriver.LaLib.WindowPump
import RfnmDriver.Library.WrapClock

/-!
# Pacing of the virtual TX windows

`predecessorOpen_iff` and `slotGone_iff` say what the two comparisons of 32-bit ticks mean on the
64-bit clock. From them a round of the pump logs the truth exactly when the clock is near enough to
what it is compared with, and `paced_iff_near` lifts this to runs; order and account of the windows
hold in every run.
-/

namespace RfnmDriver.LaLib

open StepSystem WrapClock

variable {pump following : Pump} {window : Vwin} {rest : List Vwin} {mboxBusy : Bool}
  {event : PumpEvent}

/-! ## The 32-bit clock -/

/-- The ticks of a window are the low halves of its 64-bit ticks. -/
structure Vwin.Timed (window : Vwin) : Prop where
  openTick : window.openTick = BitVec.ofInt 32 window.openAir
  closeTick : window.closeTick = BitVec.ofInt 32 window.closeAir

/-- A window is made with the ticks it has. -/
theorem Vwin.make_timed (openAir : Int) (srcSlot lenSlots rShift : Nat) :
    (Vwin.make openAir srcSlot lenSlots rShift).Timed := by
  refine ⟨rfl, ?_⟩
  have htps : BitVec.ofNat 32 (128#32 <<< rShift).toNat = 128#32 <<< rShift := by
    rw [BitVec.ofNat_toNat, BitVec.setWidth_eq]
  have hquarter : BitVec.ofNat 32 ((128#32 <<< rShift).toNat / 4) = 128#32 <<< rShift / 4 := by
    show BitVec.ofNat 32 ((128#32 <<< rShift).toNat / (4#32).toNat) = _
    rw [← BitVec.udiv_def]
    rfl
  show BitVec.ofInt 32 openAir +
      (BitVec.ofNat 32 lenSlots * 128#32 <<< rShift - 128#32 <<< rShift / 4) =
    BitVec.ofInt 32 (openAir + lenSlots * (128#32 <<< rShift).toNat -
      ((128#32 <<< rShift).toNat / 4 : Nat))
  rw [← ofInt_sub, BitVec.ofInt_add, BitVec.ofInt_mul, BitVec.ofInt_natCast, BitVec.ofInt_natCast,
    BitVec.ofInt_natCast, htps, hquarter, BitVec.sub_eq_add_neg, BitVec.sub_eq_add_neg,
    BitVec.add_assoc]

/-- What the pump makes of its predecessor. -/
theorem Pump.predecessorOpen_iff
    (hbusy : pump.busyValid = true → pump.busyUntil = BitVec.ofInt 32 pump.busyAir) :
    pump.PredecessorOpen ↔ pump.busyValid = true ∧
      0 < (pump.busyAir - pump.now64) % 2 ^ 32 ∧
        (pump.busyAir - pump.now64) % 2 ^ 32 < 2 ^ 31 := by
  unfold PredecessorOpen now
  refine and_congr_right fun hvalid => ?_
  rw [hbusy hvalid]
  exact toInt_sub_pos_iff 31 pump.busyAir pump.now64

/-- What the pump makes of the send slot of a window. -/
theorem Pump.slotGone_iff (htimed : window.Timed) : pump.SlotGone window ↔
    0 < (pump.now64 - (window.openAir - vwinSetupMarginTicks)) % 2 ^ 32 ∧
      (pump.now64 - (window.openAir - vwinSetupMarginTicks)) % 2 ^ 32 < 2 ^ 31 := by
  have hlead : window.openTick - BitVec.ofNat 32 vwinSetupMarginTicks =
      BitVec.ofInt 32 (window.openAir - vwinSetupMarginTicks) := by
    rw [htimed.openTick, ← ofInt_sub, BitVec.ofInt_natCast]
  unfold SlotGone now
  rw [hlead]
  exact toInt_sub_pos_iff 31 pump.now64 _

/-! ## The invariant -/

/-- The ticks the pump keeps are the low halves of 64-bit ones. -/
structure Pump.Clocked (pump : Pump) : Prop where
  busy : pump.busyValid = true → pump.busyUntil = BitVec.ofInt 32 pump.busyAir
  queue : ∀ window ∈ pump.queue, window.Timed

/-- A round with the window at the head logs the truth when the 32-bit clock is near enough, and
only then. -/
theorem Pump.Clocked.near_iff (h : pump.Clocked) (hqueue : pump.queue = window :: rest)
    (hhonest : ∀ note ∈ pump.log, note.Honest) :
    pump.Near (.pump false mboxBusy) ↔
      ∀ note ∈ (pump.round window rest mboxBusy).log, note.Honest := by
  have htimed : window.Timed := h.queue window (by rw [hqueue]; exact List.mem_cons_self)
  have hopen := Pump.predecessorOpen_iff h.busy
  have hgone := pump.slotGone_iff htimed
  have hnear : pump.Near (.pump false mboxBusy) ↔
      (pump.busyValid = true → pump.busyAir ≤ pump.now64 →
        (pump.now64 - pump.busyAir) % 2 ^ 32 ≤ 2 ^ 31) ∧
      (¬ pump.PredecessorOpen → mboxBusy = false →
        vwinSetupMarginTicks < window.openAir - pump.now64 →
        (window.openAir - vwinSetupMarginTicks - pump.now64) % 2 ^ 32 ≤ 2 ^ 31) := by
    unfold Pump.Near
    rw [hqueue]
    simp
  rw [hnear]
  unfold Pump.round
  -- the pump refuses for the predecessor, drops a slot that is gone, or opens the window
  by_cases hpredecessor : pump.PredecessorOpen
  · rw [if_pos hpredecessor, List.forall_mem_cons]
    obtain ⟨hvalid, hpos, hlt⟩ := hopen.mp hpredecessor
    constructor
    · intro h
      have hclosed := h.1 hvalid
      refine ⟨?_, hhonest⟩
      show pump.now64 < pump.busyAir
      omega
    · intro h
      have htrue : pump.now64 < pump.busyAir := h.1
      exact ⟨fun _ hle => by omega, fun hnot => absurd hpredecessor hnot⟩
  · rw [if_neg hpredecessor]
    have hclosed : pump.busyValid = true → pump.busyAir ≤ pump.now64 →
        (pump.now64 - pump.busyAir) % 2 ^ 32 ≤ 2 ^ 31 := by
      intro hvalid hle
      by_contra hfar
      exact hpredecessor (hopen.mpr ⟨hvalid, by omega, by omega⟩)
    by_cases hslot : pump.SlotGone window
    · rw [if_pos hslot, List.forall_mem_cons]
      obtain ⟨hpos, hlt⟩ := hgone.mp hslot
      constructor
      · intro h
        refine ⟨fun hfree => ?_, hhonest⟩
        have hfar := h.2 hpredecessor hfree
        omega
      · intro h
        refine ⟨hclosed, fun _ hfree hfar => ?_⟩
        have htrue : window.openAir - pump.now64 ≤ vwinSetupMarginTicks := h.1 hfree
        omega
    · rw [if_neg hslot]
      have hopenSlot : vwinSetupMarginTicks < window.openAir - pump.now64 →
          (window.openAir - vwinSetupMarginTicks - pump.now64) % 2 ^ 32 ≤ 2 ^ 31 := by
        intro hle
        by_contra hfar
        exact hslot (hgone.mpr ⟨by omega, by omega⟩)
      refine iff_of_true ⟨hclosed, fun _ _ => hopenSlot⟩ ?_
      split
      · exact hhonest
      · exact List.forall_mem_cons.mpr ⟨trivial, hhonest⟩

/-! ## Steps -/

/-- The head leaves the queue, settled. -/
theorem Pump.fifo_settle (hfifo : (pump.log.filterMap Note.settled).reverse ++ pump.queue =
      pump.accepted) (hqueue : pump.queue = window :: rest) {note : Note}
    (hnote : note.settled = some window) :
    ((note :: pump.log).filterMap Note.settled).reverse ++ rest = pump.accepted := by
  rw [List.filterMap_cons_some hnote, List.reverse_cons, List.append_assoc, List.singleton_append,
    ← hqueue, hfifo]

/-- A round keeps order and account of the windows. -/
theorem Pump.Kept.round (h : pump.Kept) (hqueue : pump.queue = window :: rest) :
    (pump.round window rest mboxBusy).Kept := by
  unfold Pump.round
  split
  · exact ⟨h.fifo, h.sent, h.late⟩
  · split
    · refine ⟨fifo_settle h.fifo hqueue rfl, h.sent, ?_⟩
      show pump.stats.late + 1 = _
      rw [h.late]
      rfl
    · split
      · exact ⟨h.fifo, h.sent, h.late⟩
      · refine ⟨fifo_settle h.fifo hqueue rfl, ?_, h.late⟩
        show pump.stats.sent + 1 = _
        rw [h.sent]
        rfl

/-- A round keeps the ticks in step with the 64-bit ones. -/
theorem Pump.Clocked.round (h : pump.Clocked) (hqueue : pump.queue = window :: rest) :
    (pump.round window rest mboxBusy).Clocked := by
  have htimed : window.Timed := h.queue window (by rw [hqueue]; exact List.mem_cons_self)
  have hrest : ∀ other ∈ rest, other.Timed := fun other hother =>
    h.queue other (by rw [hqueue]; exact List.mem_cons_of_mem window hother)
  unfold Pump.round
  split
  · exact ⟨h.busy, h.queue⟩
  · split
    · exact ⟨h.busy, hrest⟩
    · split
      · exact ⟨h.busy, h.queue⟩
      · refine ⟨fun _ => ?_, hrest⟩
        show window.closeTick + _ = BitVec.ofInt 32 (window.closeAir + _)
        rw [htimed.closeTick, BitVec.ofInt_add, BitVec.ofInt_natCast]

/-- A reset drops what is queued, in order. -/
theorem Pump.Kept.reset (h : pump.Kept)
    (hnext : pump.next .reset = some following) : following.Kept := by
  obtain rfl := Option.some.inj hnext
  have hsettled : (pump.queue.reverse.map Note.dropped).filterMap Note.settled =
      pump.queue.reverse := by
    rw [List.filterMap_map]
    exact List.filterMap_some
  refine ⟨?_, ?_, ?_⟩
  · show ((pump.queue.reverse.map Note.dropped ++ pump.log).filterMap Note.settled).reverse ++ [] =
      pump.accepted
    rw [List.filterMap_append, hsettled, List.reverse_append, List.reverse_reverse,
      List.append_nil, h.fifo]
  · rw [List.filter_append, List.filter_eq_nil_iff.mpr (by simp), List.nil_append, h.sent]
  · rw [List.filter_append, List.filter_eq_nil_iff.mpr (by simp), List.nil_append, h.late]

/-- Taking a window keeps order and account. -/
theorem Pump.Kept.txWindow (h : pump.Kept) (window : Vwin) (latched rtcOk : Bool) :
    (pump.txWindow window latched rtcOk).Kept := by
  unfold Pump.txWindow
  split
  · exact ⟨h.fifo, h.sent, h.late⟩
  · split
    · exact ⟨h.fifo, h.sent, h.late⟩
    · split
      · exact ⟨h.fifo, h.sent, h.late⟩
      · refine ⟨?_, h.sent, h.late⟩
        show _ ++ (pump.queue ++ [window]) = _ ++ [window]
        rw [← List.append_assoc, h.fifo]

/-- A step keeps order, account and clocks. -/
theorem Pump.Kept.next (hkept : pump.Kept) (hclocked : pump.Clocked)
    (hnext : pump.next event = some following) : following.Kept ∧ following.Clocked := by
  cases event with
  | elapse ticks =>
      obtain rfl := Option.some.inj hnext
      exact ⟨⟨hkept.fifo, hkept.sent, hkept.late⟩, ⟨hclocked.busy, hclocked.queue⟩⟩
  | timer =>
      obtain rfl := Option.some.inj hnext
      exact ⟨⟨hkept.fifo, hkept.sent, hkept.late⟩, ⟨hclocked.busy, hclocked.queue⟩⟩
  | txWindow openAir srcSlot lenSlots rShift latched rtcOk =>
      obtain rfl := Option.some.inj hnext
      refine ⟨hkept.txWindow _ latched rtcOk, ?_⟩
      unfold Pump.txWindow
      split
      · exact ⟨hclocked.busy, hclocked.queue⟩
      · split
        · exact ⟨hclocked.busy, hclocked.queue⟩
        · split
          · exact ⟨hclocked.busy, hclocked.queue⟩
          · refine ⟨hclocked.busy, fun window hwindow => ?_⟩
            -- the new window has its air time from `Vwin.make`, the others are as they were
            obtain hold | hnew := List.mem_append.mp hwindow
            · exact hclocked.queue window hold
            · rw [List.mem_singleton.mp hnew]
              exact Vwin.make_timed openAir srcSlot lenSlots rShift
  | reset =>
      refine ⟨hkept.reset hnext, ?_⟩
      obtain rfl := Option.some.inj hnext
      exact ⟨fun hvalid => Bool.noConfusion hvalid,
        fun _ hwindow => absurd hwindow List.not_mem_nil⟩
  | pump fenced mboxBusy =>
      unfold Pump.next at hnext
      cases hqueue : pump.queue with
      | nil => simp [hqueue] at hnext
      | cons window rest =>
          simp only [hqueue, Option.some.injEq] at hnext
          subst hnext
          split
          · exact ⟨hkept, hclocked⟩
          · exact ⟨hkept.round hqueue, hclocked.round hqueue⟩

/-- A step leaves the log honest when the 32-bit clock is near enough, and only then. -/
theorem Pump.near_iff_honest (hclocked : pump.Clocked) (hhonest : ∀ note ∈ pump.log, note.Honest)
    (hnext : pump.next event = some following) :
    pump.Near event ↔ ∀ note ∈ following.log, note.Honest := by
  -- only a round of the pump at a window makes a note by the clock
  cases event with
  | elapse ticks =>
      obtain rfl := Option.some.inj hnext
      exact iff_of_true trivial hhonest
  | timer =>
      obtain rfl := Option.some.inj hnext
      exact iff_of_true trivial hhonest
  | txWindow openAir srcSlot lenSlots rShift latched rtcOk =>
      obtain rfl := Option.some.inj hnext
      refine iff_of_true trivial ?_
      unfold Pump.txWindow
      split
      · exact hhonest
      · split
        · exact hhonest
        · split <;> exact hhonest
  | reset =>
      obtain rfl := Option.some.inj hnext
      refine iff_of_true trivial fun note hnote => ?_
      obtain hnew | hold := List.mem_append.mp hnote
      · obtain ⟨window, -, rfl⟩ := List.mem_map.mp hnew
        trivial
      · exact hhonest note hold
  | pump fenced mboxBusy =>
      unfold Pump.next at hnext
      cases hqueue : pump.queue with
      | nil => simp [hqueue] at hnext
      | cons window rest =>
          simp only [hqueue, Option.some.injEq] at hnext
          subst hnext
          cases fenced with
          | true => exact iff_of_true (fun hreached => Bool.noConfusion hreached) hhonest
          | false => exact hclocked.near_iff hqueue hhonest

/-- The invariant of runs in which the clock is near enough. -/
structure Pump.Inv (pump : Pump) : Prop where
  paced : pump.Paced
  clocked : pump.Clocked

/-- In every state of a run the windows have left the queue in order, each accounted once, none
deferred after its predecessor has closed and none late before its time, exactly when at every round
of the pump the 32-bit clock is near enough to what it is compared with. -/
theorem paced_iff_near (now64 : Int) (events : List PumpEvent) :
    Always Pump.next Pump.Paced (.init now64) events ↔
      Guarded Pump.next Pump.Near (.init now64) events := by
  have hinit : (Pump.init now64).Inv :=
    ⟨⟨⟨rfl, rfl, rfl⟩, fun _ hnote => absurd hnote List.not_mem_nil⟩,
      ⟨fun hvalid => Bool.noConfusion hvalid, fun _ hwindow => absurd hwindow List.not_mem_nil⟩⟩
  refine always_iff_everyStep ?_ ?_ ?_ hinit
  · intro pump event following h hnear hnext
    obtain ⟨hkept, hclocked⟩ := h.paced.kept.next h.clocked hnext
    have hhonest := (Pump.near_iff_honest h.clocked h.paced.honest hnext).mp hnear
    exact ⟨⟨hkept, hhonest⟩, hclocked⟩
  · exact fun _ h => h.paced
  · intro pump event following h hnext hpaced
    exact (Pump.near_iff_honest h.clocked h.paced.honest hnext).mpr hpaced.honest

/-- More than half a wrap after the only window sent so far has closed, the next one is deferred for
it. -/
theorem idle_half_wrap_defers : ¬ Always Pump.next Pump.Paced (.init 0)
    [.txWindow 100000 0 2 0 true true, .pump false false, .elapse 2147683648,
      .txWindow 2147800000 2 2 0 true true, .pump false false] := by
  intro halways
  have hpaced := halways.final rfl
  have hdeferred := hpaced.honest _ List.mem_cons_self
  exact absurd hdeferred (by decide)

end RfnmDriver.LaLib
