import RfnmDriver.Rx.Producer

/-!
# Where a sub-buffer's payload is read

Both lanes copy a sub-buffer from `tmp_buff_uncompress[3 * sub_read_size]`, and `sub_read_size`
moves on at the end of the loop body. A rejected header leaves the body before that, so it counts the
samples of the accepted sub-buffers alone (`ReadInv`), where the firmware counts those of all.
-/

namespace RfnmDriver.Rx

open StepSystem

namespace Producer

variable {config : Config} {producer following : Producer} {lane : Fin 4} {sub : SubBuffer}
  {env : SubEnv} {event : Event}

/-! ## The property and the condition -/

/-- `3 * sub_read_size`: the byte both lanes copy the next sub-buffer from. -/
def sourceByte (producer : Producer) : Nat :=
  3 * producer.subRead

/-- The byte at which the firmware wrote the sub-buffer: behind all before it in the slot. -/
def writtenByte (producer : Producer) : Nat :=
  3 * producer.slot.start producer.index

/-- The payload of an accepted sub-buffer is copied into the USB lane, if the copy is not skipped,
and into the local lane, if it has a consumer, from `sourceByte` on. -/
def CopiesFromSource (config : Config) (producer : Producer) (event : Event)
    (following : Producer) : Prop :=
  match event with
  | .sub env => ∀ pair ∈ producer.accepted,
      following.rxUsb = (producer.flushUsb config pair.1 pair.2 env).rxUsb.append pair.1 pair.2
          producer.slot.samples (producer.sourceByte / 3) env.copyOpen ∧
        (env.localAlive = true →
          following.rxLocal = (producer.flushLocal config pair.1 pair.2 env).rxLocal.append pair.1
            pair.2 producer.slot.samples (producer.sourceByte / 3) true)
  | _ => True

/-- An accepted sub-buffer is copied from where the firmware wrote it. -/
def PayloadAligned (producer : Producer) : Event → Prop
  | .sub _ => producer.accepted.isSome → producer.sourceByte = producer.writtenByte
  | _ => True

/-- No header before an accepted sub-buffer in its slot was rejected. -/
def NoneRejected (producer : Producer) : Event → Prop
  | .sub _ => producer.accepted.isSome →
      ∀ earlier ∈ producer.slot.subs.take producer.index, earlier.lane?.isSome
  | _ => True

/-! ## The running offset -/

/-- The samples of the sub-buffers before this one that pass the header checks. -/
def acceptedStart (slot : Slot) (index : Nat) : Nat :=
  (((slot.subs.take index).filter fun sub => sub.lane?.isSome).map SubBuffer.size).sum

/-- As long as the slot goes on, no sub-buffer so far had size 0, and `sub_read_size` is the samples
of those accepted. -/
def ReadInv (producer : Producer) : Prop :=
  producer.index < producer.slot.subs.length →
    (∀ earlier ∈ producer.slot.subs.take producer.index, earlier.size ≠ 0) ∧
      producer.subRead = acceptedStart producer.slot producer.index

/-- The samples of the accepted sub-buffers, one sub-buffer at a time. -/
theorem sum_accepted_cons (first : SubBuffer) (rest : List SubBuffer) :
    (((first :: rest).filter fun sub => sub.lane?.isSome).map SubBuffer.size).sum =
      (if first.lane?.isSome then first.size else 0) +
        ((rest.filter fun sub => sub.lane?.isSome).map SubBuffer.size).sum := by
  rw [List.filter_cons]
  split
  · rw [List.map_cons, List.sum_cons]
  · rw [Nat.zero_add]

/-- There are no more samples accepted than there are. -/
theorem sum_accepted_le (subs : List SubBuffer) :
    ((subs.filter fun sub => sub.lane?.isSome).map SubBuffer.size).sum ≤
      (subs.map SubBuffer.size).sum := by
  induction subs with
  | nil => exact Nat.le_refl _
  | cons first rest ih =>
      rw [sum_accepted_cons, List.map_cons, List.sum_cons]
      split <;> omega

/-- The samples accepted are all there are exactly where every sub-buffer was. -/
theorem sum_accepted_eq_iff {subs : List SubBuffer} (hsize : ∀ sub ∈ subs, sub.size ≠ 0) :
    ((subs.filter fun sub => sub.lane?.isSome).map SubBuffer.size).sum =
        (subs.map SubBuffer.size).sum ↔
      ∀ sub ∈ subs, sub.lane?.isSome := by
  induction subs with
  | nil => exact iff_of_true rfl fun _ hsub => absurd hsub List.not_mem_nil
  | cons first rest ih =>
      have hfirst := hsize first List.mem_cons_self
      have hrest := ih fun sub hsub => hsize sub (List.mem_cons_of_mem first hsub)
      rw [List.forall_mem_cons, sum_accepted_cons, List.map_cons, List.sum_cons]
      by_cases haccepted : first.lane?.isSome
      · rw [if_pos haccepted, Nat.add_left_cancel_iff, hrest, and_iff_right haccepted]
      · have hle := sum_accepted_le rest
        rw [if_neg haccepted]
        exact iff_of_false (by omega) fun h => haccepted h.1

/-- A sub-buffer is the last of those up to it. -/
theorem take_succ_of_sub (hsub : producer.slot.subs[producer.index]? = some sub) :
    producer.slot.subs.take (producer.index + 1) =
      producer.slot.subs.take producer.index ++ [sub] := by
  rw [List.take_add_one, hsub]
  rfl

/-- The loop body keeps the offset. -/
theorem ReadInv.subStep (h : producer.ReadInv)
    (hsub : producer.slot.subs[producer.index]? = some sub) :
    (producer.subStep config env sub).ReadInv := by
  obtain ⟨hindex, -⟩ := List.getElem?_eq_some_iff.mp hsub
  obtain ⟨hsizes, hread⟩ := h hindex
  have hnext (hsize : sub.size ≠ 0) :
      ∀ earlier ∈ producer.slot.subs.take (producer.index + 1), earlier.size ≠ 0 := by
    rw [take_succ_of_sub hsub, List.forall_mem_append, List.forall_mem_singleton]
    exact ⟨hsizes, hsize⟩
  unfold Producer.subStep
  split
  · exact fun hover => absurd hover (Nat.lt_irrefl _)
  · next hsize =>
      split
      · next hrejected =>
          intro _
          refine ⟨hnext hsize, ?_⟩
          show producer.subRead = acceptedStart producer.slot (producer.index + 1)
          rw [hread, acceptedStart, acceptedStart, take_succ_of_sub hsub, List.filter_append]
          simp [hrejected]
      · next lane hlane =>
          obtain ⟨-, -, hslot, hsucc⟩ := acceptSub_frame config producer lane sub env
          intro _
          rw [hslot, hsucc]
          refine ⟨hnext hsize, ?_⟩
          show producer.subRead + sub.size = _
          rw [hread, acceptedStart, acceptedStart, take_succ_of_sub hsub, List.filter_append]
          simp [hlane]

/-- Every step keeps the offset. -/
theorem ReadInv.next (h : producer.ReadInv)
    (hnext : producer.next config event = some following) : following.ReadInv := by
  cases event with
  | sub env =>
      obtain ⟨sub, hsub, rfl⟩ := Option.map_eq_some_iff.mp hnext
      exact h.subStep hsub
  | slot slot =>
      obtain ⟨-, rfl⟩ := of_guard hnext
      exact fun _ => ⟨fun _ hearlier => absurd hearlier List.not_mem_nil, rfl⟩
  | flushPartial lane usbAlive headGrace =>
      obtain ⟨-, rfl⟩ := of_guard hnext
      unfold Producer.flushPartial
      split <;> exact h
  | standDown =>
      obtain ⟨-, rfl⟩ := of_guard hnext
      unfold Producer.standDown
      split <;> exact h
  | idlePass | jumpForward | reset =>
      obtain ⟨-, rfl⟩ := of_guard hnext
      exact h
  | _ =>
      obtain ⟨free, untracked, staged, inflight, rfl, -⟩ := next_requests hnext trivial
      exact h

/-- Where the offset is kept, an accepted sub-buffer is read where it was written exactly when no
header before it was rejected. -/
theorem ReadInv.aligned_iff (h : producer.ReadInv)
    (hnext : producer.next config event = some following) :
    producer.PayloadAligned event ↔ producer.NoneRejected event := by
  cases event with
  | sub env =>
      obtain ⟨sub, hsub, -⟩ := Option.map_eq_some_iff.mp hnext
      obtain ⟨hindex, -⟩ := List.getElem?_eq_some_iff.mp hsub
      obtain ⟨hsizes, hread⟩ := h hindex
      refine forall_congr' fun _ => ?_
      rw [sourceByte, writtenByte, Nat.mul_right_inj (by omega), hread, acceptedStart, Slot.start,
        sum_accepted_eq_iff hsizes]
  | _ => exact Iff.rfl

/-- Both lanes copy from the running offset. -/
theorem copiesFromSource (hnext : producer.next config event = some following) :
    CopiesFromSource config producer event following := by
  cases event with
  | sub env =>
      intro pair hpair
      obtain ⟨hnone, -⟩ | ⟨lane, sub, hsome, rfl⟩ := next_sub hnext
      · exact absurd (hnone.symm.trans hpair) (by simp)
      · obtain rfl := Option.some.inj (hsome.symm.trans hpair)
        have hoffset : producer.sourceByte / 3 = producer.subRead :=
          Nat.mul_div_cancel_left producer.subRead (Nat.succ_pos 2)
        rw [hoffset]
        refine ⟨acceptSub_rxUsb config producer lane sub env, fun halive => ?_⟩
        obtain ⟨rxLocal, localQueued, hflush⟩ := flushLocal_frame config producer lane sub env
        rw [(acceptSub_rxLocal config producer lane sub env).1, localLane, if_pos halive, hflush]
        rfl
  | _ => trivial

/-- In every run, both lanes copy the payload of an accepted sub-buffer from the running offset; and
it is where the firmware wrote the sub-buffer, behind all before it in the slot, exactly when no
header before an accepted sub-buffer was rejected. -/
theorem payload_aligned_iff (config : Config) (usbBuf localBuf : Nat → Packet)
    (events : List Event) :
    EveryStep (next config) (CopiesFromSource config) (Producer.init usbBuf localBuf) events ∧
    (Guarded (next config) PayloadAligned (Producer.init usbBuf localBuf) events ↔
      Guarded (next config) NoneRejected (Producer.init usbBuf localBuf) events) := by
  have hinit : (Producer.init usbBuf localBuf).ReadInv :=
    fun hindex => absurd hindex (Nat.not_lt_zero _)
  refine ⟨everyStep_of_forall fun _ _ _ => copiesFromSource, everyStep_iff_guarded ?_ ?_ hinit⟩
  · exact fun _ _ _ h hnext => h.aligned_iff hnext
  · exact fun _ _ _ h _ hnext => h.next hnext

/-- A slot with a rejected header before an accepted sub-buffer. -/
def rejectedFirst : Slot :=
  slotOf [⟨0x5#32, 64, 1000, 2⟩, ⟨0x0#32, 64, 1064, 2⟩]

/-- The accepted sub-buffer is copied from the samples of the rejected one. -/
theorem rejected_header_shifts_payload :
    (run (next Config.driver) (Producer.init blank blank)
        [.slot rejectedFirst, .sub ⟨true, true, true, true, true⟩]).map
      (fun producer => (producer.accepted.isSome, producer.sourceByte, producer.writtenByte)) =
        some (true, 0, 192) ∧
    ¬ Guarded (next Config.driver) PayloadAligned (Producer.init blank blank)
        [.slot rejectedFirst, .sub ⟨true, true, true, true, true⟩,
          .sub ⟨true, true, true, true, true⟩] := by
  constructor
  · decide
  · intro h
    obtain ⟨-, hrest⟩ := h _ rfl
    obtain ⟨-, hlast⟩ := hrest _ rfl
    exact absurd ((hlast _ rfl).1 rfl) (by decide)

end Producer

end RfnmDriver.Rx
