import RfnmDriver.Rx.LocalDelivery

/-!
# Who has a slot of the local ring

A packet of the local lane stays in its slot while its element is queued, and while a consumer has
checked the element out. Elements come from a free list, slots from a head that only ever counts up;
nothing ties the two together, and the stream reset puts the head and every lane back on slot 0
whatever the consumers hold. `keepsSlots_iff_birthFree` says for which runs no slot is taken
from a packet that is still queued or checked out, and `first_packet_overwritten` that the first
packet of a stream is not safe.
-/

namespace RfnmDriver.Rx

open StepSystem Ownership

/-- The producer, the pool, and the slots of the elements the consumers hold. -/
structure LocalCustody where
  delivery : LocalDelivery
  /-- In the order the elements were handed out. -/
  out : List Nat

/-- One step of the producer or of a consumer. -/
inductive CustodyEvent
  /-- Any step but a release. -/
  | step (event : DeliveryEvent)
  /-- `rfnm_release_local_buffer_rx_ref` of the element handed out at this place. -/
  | release (position : Nat)

/-- The consumer returns what it got first. -/
def CustodyEvent.InOrder : CustodyEvent → Prop
  | .step _ => True
  | .release position => position = 0

instance (event : CustodyEvent) : Decidable event.InOrder := by
  rcases event <;> unfold CustodyEvent.InOrder <;> infer_instance

/-- The slots of the local ring that a step of the producer writes: the header of the packet it
queues, and the packet the sub-buffer goes into. -/
def Producer.writesLocal (config : Config) (producer : Producer) : Event → List Nat
  | .sub env =>
      match producer.accepted with
      | some (lane, sub) =>
          if env.localAlive then
            (if producer.rxLocal.Flushes lane config.localFull sub ∧ env.localFree then
              [producer.rxLocal.adcBuf lane] else []) ++
              [(producer.flushLocal config lane sub env).rxLocal.adcBuf lane]
          else []
      | none => []
  | _ => []

namespace LocalCustody

variable (config : Config) (custody : LocalCustody)

/-- The module init. -/
def init (usbBuf localBuf : Nat → Packet) : LocalCustody where
  delivery := LocalDelivery.init config usbBuf localBuf
  out := []

/-- What a step does to the slots checked out. -/
def handOut : DeliveryEvent → List Nat
  | .dequeueRef | .copyDequeue | .getFault =>
      custody.out ++ (custody.delivery.queue.map QueueEle.addr).take 1
  | _ => custody.out

/-- One step; `none` when it is not enabled. -/
def next : CustodyEvent → Option LocalCustody
  | .step .release => none
  | .step event =>
      (custody.delivery.next config event).map fun following =>
        ⟨following, custody.handOut event⟩
  | .release position =>
      if position < custody.out.length then
        (custody.delivery.next config .release).map fun following =>
          ⟨following, custody.out.eraseIdx position⟩
      else none

/-! ## The property and the condition -/

/-- The packet in the slot is queued, or a consumer has it. -/
def Taken (slot : Nat) : Prop :=
  slot ∈ custody.delivery.queue.map QueueEle.addr ∨ slot ∈ custody.out

/-- At least this many slots of the ring are neither queued nor checked out. -/
def Spare (spare : Nat) (custody : LocalCustody) : Prop :=
  custody.delivery.queue.length + custody.out.length + spare ≤ config.localRing

/-- No other lane fills the slot, and its packet is neither queued nor checked out. -/
def SlotFree (lane : Fin 4) (slot : Nat) : Prop :=
  (∀ other, other ≠ lane → custody.delivery.producer.rxLocal.Filling other →
    custody.delivery.producer.rxLocal.adcBuf other ≠ slot) ∧ ¬custody.Taken slot

/-- The slots the lanes fill are pairwise distinct, and no packet queued or checked out is in
one. -/
def SlotExclusive : Prop :=
  ∀ lane, custody.delivery.producer.rxLocal.Filling lane →
    custody.SlotFree lane (custody.delivery.producer.rxLocal.adcBuf lane)

/-- The slots of the ring that a step of the producer writes. -/
def writes : CustodyEvent → List Nat
  | .step (.producer event) => custody.delivery.producer.writesLocal config event
  | _ => []

instance (spare : Nat) : Decidable (Spare config spare custody) :=
  inferInstanceAs (Decidable (_ ≤ _))

instance (slot : Nat) : Decidable (custody.Taken slot) :=
  inferInstanceAs (Decidable (_ ∨ _))

instance (lane : Fin 4) (slot : Nat) : Decidable (custody.SlotFree lane slot) :=
  inferInstanceAs (Decidable (_ ∧ _))

instance : Decidable custody.SlotExclusive :=
  inferInstanceAs (Decidable (∀ _, _ → _))

/-- What a step does to the slots. -/
structure KeepsSlots (custody : LocalCustody) (event : CustodyEvent) (following : LocalCustody) :
    Prop where
  /-- The lanes fill distinct slots, and none that is queued or checked out, also by this step. -/
  exclusive : following.SlotExclusive
  /-- The producer writes no slot that was queued or checked out. -/
  unwritten : ∀ slot ∈ custody.writes config event, ¬custody.Taken slot
  /-- Under the producer's steps such a slot holds what it held. -/
  unchanged : ∀ step, event = .step (.producer step) → ∀ slot, custody.Taken slot →
    following.delivery.producer.rxLocal.buf slot = custody.delivery.producer.rxLocal.buf slot

/-- The lane begins a packet in the slot it is parked on, or hands an empty one on from there, only
where that slot is free; it continues at the head only where the head is free, and is not the slot
of the packet just queued. -/
def FreeFor (env : SubEnv) (lane : Fin 4) (sub : SubBuffer) : Prop :=
  (¬custody.delivery.producer.rxLocal.Filling lane →
    ¬(custody.delivery.producer.rxLocal.Flushes lane config.localFull sub ∧
      env.localFree = false) →
    custody.SlotFree lane (custody.delivery.producer.rxLocal.adcBuf lane)) ∧
  (custody.delivery.producer.rxLocal.Flushes lane config.localFull sub →
    custody.SlotFree lane custody.delivery.producer.rxLocal.head ∧
      (env.localFree = true →
        custody.delivery.producer.rxLocal.head ≠ custody.delivery.producer.rxLocal.adcBuf lane))

/-- Only a sub-buffer that finds the local consumer alive takes a slot. -/
def BirthFree : CustodyEvent → Prop
  | .step (.producer (.sub env)) => env.localAlive = true →
      ∀ lane sub, custody.delivery.producer.accepted = some (lane, sub) →
        custody.FreeFor config env lane sub
  | _ => True

end LocalCustody

/-! ## What the producer's steps do to the local ring -/

namespace Producer

variable {config : Config} {producer following : Producer} {event : Event} {env : SubEnv}
  {lane : Fin 4} {sub : SubBuffer} {slot : Nat}

/-- Only a sub-buffer takes a slot or writes the ring. -/
theorem next_rxLocal (hnext : producer.next config event = some following)
    (hevent : ∀ env, event ≠ .sub env) :
    following.rxLocal.buf = producer.rxLocal.buf ∧
      ∀ lane slot, slot ∈ following.rxLocal.owned lane → slot ∈ producer.rxLocal.owned lane := by
  cases event with
  | sub env => exact absurd rfl (hevent env)
  | slot | idlePass | jumpForward =>
      obtain ⟨-, rfl⟩ := of_guard hnext
      exact ⟨rfl, fun _ _ howns => howns⟩
  | flushPartial lane usbAlive headGrace =>
      -- it hands on USB packets only
      obtain ⟨-, rfl⟩ := of_guard hnext
      unfold flushPartial
      split
      · exact ⟨rfl, fun _ _ howns => howns⟩
      · exact ⟨rfl, fun _ _ howns => howns⟩
  | standDown =>
      obtain ⟨-, rfl⟩ := of_guard hnext
      unfold standDown
      split
      · exact ⟨rfl, fun _ _ howns => howns⟩
      · refine ⟨rfl, fun lane slot howns => ?_⟩
        rw [Assembler.owned_of_clear rfl] at howns
        cases howns
  | reset =>
      obtain ⟨-, rfl⟩ := of_guard hnext
      refine ⟨rfl, fun lane slot howns => ?_⟩
      rw [Assembler.owned_of_clear rfl] at howns
      cases howns
  | _ =>
      obtain ⟨free, untracked, staged, inflight, rfl, -⟩ := next_requests hnext trivial
      exact ⟨rfl, fun _ _ howns => howns⟩

/-- A flush writes the header of the packet it queues, and nothing else. -/
theorem flushLocal_buf
    (hslot : ¬(producer.rxLocal.Flushes lane config.localFull sub ∧ env.localFree = true ∧
      slot = producer.rxLocal.adcBuf lane)) :
    (producer.flushLocal config lane sub env).rxLocal.buf slot = producer.rxLocal.buf slot := by
  unfold flushLocal
  split
  · next hflushes =>
      split
      · next hfree =>
          have hother : slot ≠ producer.rxLocal.adcBuf lane :=
            fun hsame => hslot ⟨hflushes, hfree, hsame⟩
          exact Function.update_of_ne hother ..
      · rfl
  · rfl

/-- A flush that forces the packet out moves the lane to the head, and no other lane. -/
theorem flushLocal_moves (config : Config) (producer : Producer) (lane : Fin 4)
    (sub : SubBuffer) (env : SubEnv) :
    (producer.flushLocal config lane sub env).rxLocal.adcBuf lane =
        (if producer.rxLocal.Flushes lane config.localFull sub then producer.rxLocal.head
          else producer.rxLocal.adcBuf lane) ∧
      ∀ other, other ≠ lane → (producer.flushLocal config lane sub env).rxLocal.owned other =
        producer.rxLocal.owned other := by
  unfold flushLocal
  split
  · split
    · constructor
      · exact Function.update_self ..
      · intro other hne
        simp [Assembler.owned, Assembler.ship, Assembler.mint, Assembler.clear,
          Assembler.advance, hne]
    · constructor
      · exact Function.update_self ..
      · intro other hne
        simp [Assembler.owned, Assembler.clear, Assembler.advance, hne]
  · exact ⟨rfl, fun _ _ => rfl⟩

/-- An accepted sub-buffer gives its lane a slot: the head's, or the one it has. -/
theorem acceptSub_ownedLocal (halive : env.localAlive = true) (hsize : sub.size ≠ 0) :
    (producer.acceptSub config lane sub env).rxLocal.owned =
      Function.update producer.rxLocal.owned lane
        (some (if producer.rxLocal.Flushes lane config.localFull sub then producer.rxLocal.head
          else producer.rxLocal.adcBuf lane)) := by
  obtain ⟨hslot, hothers⟩ := flushLocal_moves config producer lane sub env
  rw [(acceptSub_rxLocal config producer lane sub env).1, localLane, if_pos halive, fillLocal,
    Assembler.owned_append hsize, hslot]
  funext other
  by_cases hsame : other = lane
  · subst hsame
    simp only [Function.update_self]
  · simp only [Function.update_of_ne hsame, hothers other hsame]

/-- A slot the step does not write holds what it held. -/
theorem buf_of_not_writes (hnext : producer.next config event = some following)
    (hslot : slot ∉ producer.writesLocal config event) :
    following.rxLocal.buf slot = producer.rxLocal.buf slot := by
  by_cases hevent : ∃ env, event = .sub env
  · obtain ⟨env, rfl⟩ := hevent
    rcases next_sub hnext with ⟨-, index, rfl⟩ | ⟨lane, sub, haccepted, rfl⟩
    · rfl
    · rw [(acceptSub_rxLocal config producer lane sub env).1, localLane]
      split
      · next halive =>
          simp only [writesLocal, haccepted, halive, if_true, List.mem_append,
            List.mem_singleton, not_or] at hslot
          obtain ⟨hheader, hpayload⟩ := hslot
          calc ((producer.flushLocal config lane sub env).fillLocal lane sub).rxLocal.buf slot
              = (producer.flushLocal config lane sub env).rxLocal.buf slot :=
                Function.update_of_ne hpayload ..
            _ = producer.rxLocal.buf slot := flushLocal_buf fun hfills =>
                hheader (by simp [hfills.1, hfills.2.1, hfills.2.2])
      · rfl
  · rw [(next_rxLocal hnext fun env henv => hevent ⟨env, henv⟩).1]

end Producer

namespace LocalCustody

variable {config : Config} {custody following : LocalCustody} {lane : Fin 4} {slot : Nat}
  {sub : SubBuffer} {env : SubEnv} {event : CustodyEvent}

/-! ## As ownership -/

theorem slotFree_iff :
    custody.SlotFree lane slot ↔
      Unowned custody.delivery.producer.rxLocal.owned lane slot ∧ ¬custody.Taken slot := by
  simp only [SlotFree, Unowned, Assembler.mem_owned, not_and]

theorem slotExclusive_iff :
    custody.SlotExclusive ↔ Exclusive custody.delivery.producer.rxLocal.owned ∧
      Apart custody.delivery.producer.rxLocal.owned custody.Taken := by
  rw [← Assembler.exclusive_iff]
  rfl

/-- The slot a lane is parked on is its own while it fills it, so it is free if it is while the lane
has no packet. -/
theorem SlotExclusive.parked (h : custody.SlotExclusive)
    (hidle : ¬custody.delivery.producer.rxLocal.Filling lane →
      custody.SlotFree lane (custody.delivery.producer.rxLocal.adcBuf lane)) :
    custody.SlotFree lane (custody.delivery.producer.rxLocal.adcBuf lane) := by
  by_cases hfilling : custody.delivery.producer.rxLocal.Filling lane
  · exact h lane hfilling
  · exact hidle hfilling

/-- With no slot newly filled, and none newly queued or checked out, slots stay exclusive. -/
theorem SlotExclusive.weaken (h : custody.SlotExclusive)
    (howned : ∀ other slot, slot ∈ following.delivery.producer.rxLocal.owned other →
      slot ∈ custody.delivery.producer.rxLocal.owned other)
    (htaken : ∀ slot, following.Taken slot → custody.Taken slot) :
    following.SlotExclusive := by
  obtain ⟨hexclusive, hapart⟩ := slotExclusive_iff.mp h
  exact slotExclusive_iff.mpr ⟨hexclusive.weaken howned,
    hapart.weaken howned fun _ slot _ => htaken slot⟩

/-! ## The consumers' steps -/

/-- A dequeue moves the first queued element to the slots checked out. -/
theorem taken_dequeue {counted got : Bool}
    (htaken : (⟨custody.delivery.dequeue counted got,
      custody.out ++ (custody.delivery.queue.map QueueEle.addr).take 1⟩ : LocalCustody).Taken
        slot) : custody.Taken slot := by
  unfold Taken LocalDelivery.dequeue at htaken
  split at htaken
  · next hqueue =>
      simp only [hqueue, List.map_nil, List.take_nil, List.append_nil, List.not_mem_nil,
        false_or] at htaken
      exact Or.inr htaken
  · next ele rest hqueue =>
      simp only [hqueue, List.map_cons, List.take_succ_cons, List.take_zero, List.mem_append,
        List.mem_singleton] at htaken
      rw [Taken, hqueue, List.map_cons, List.mem_cons]
      tauto

/-- A cull takes elements off the queue, and leaves the lanes where they are. -/
theorem cullStale_frame (delivery : LocalDelivery) (bound : Int) :
    (delivery.cullStale bound).queue ⊆ delivery.queue ∧
      (delivery.cullStale bound).producer.rxLocal.owned = delivery.producer.rxLocal.owned := by
  unfold LocalDelivery.cullStale
  split
  · exact ⟨List.Subset.refl _, rfl⟩
  · have hsubset := LocalDelivery.cullLoop_subset bound delivery.queue delivery.queueDepth
    simp only
    split
    · exact ⟨hsubset, rfl⟩
    · unfold LocalDelivery.markSeam
      split
      · exact ⟨hsubset, rfl⟩
      · exact ⟨hsubset, rfl⟩

theorem dequeue_frame (delivery : LocalDelivery) (counted got : Bool) :
    (delivery.dequeue counted got).producer = delivery.producer := by
  unfold LocalDelivery.dequeue
  split <;> rfl

/-- A consumer has no slot that was not queued or checked out, and moves no lane. -/
theorem SlotExclusive.consumer (h : custody.SlotExclusive)
    (hevent : ∀ step, event ≠ .step (.producer step))
    (hnext : custody.next config event = some following) : following.SlotExclusive := by
  cases event with
  | step step =>
      cases step with
      | producer step => exact absurd rfl (hevent step)
      | cull bound =>
          obtain rfl := Option.some.inj hnext
          obtain ⟨hqueue, howned⟩ := cullStale_frame custody.delivery bound
          refine h.weaken (fun other slot howns => howned ▸ howns) fun slot htaken => ?_
          exact htaken.imp_left fun hqueued => List.map_subset _ hqueue hqueued
      | dequeueRef | copyDequeue | getFault =>
          obtain rfl := Option.some.inj hnext
          refine h.weaken (fun other slot howns => ?_) fun slot htaken => taken_dequeue htaken
          exact dequeue_frame custody.delivery .. ▸ howns
      | release => cases hnext
  | release position =>
      simp only [next, LocalDelivery.next, Option.ite_none_right_eq_some,
        Option.map_eq_some_iff, Option.ite_none_left_eq_some, Option.some.injEq] at hnext
      obtain ⟨-, delivery, ⟨-, rfl⟩, rfl⟩ := hnext
      refine h.weaken (fun other slot howns => howns) fun slot htaken => ?_
      exact htaken.imp_right List.mem_of_mem_eraseIdx

/-! ## The producer's steps -/

/-- The custody after a step of the producer: the slots checked out are as they were. -/
theorem next_producer {step : Event}
    (hnext : custody.next config (.step (.producer step)) = some following) :
    ∃ producer, custody.delivery.producer.next config step = some producer ∧
      following = ⟨{ custody.delivery.onProducer config step with producer := producer },
        custody.out⟩ := by
  simp only [next, LocalDelivery.next, Option.map_eq_some_iff,
    Option.ite_none_right_eq_some] at hnext
  obtain ⟨-, ⟨-, producer, hproducer, rfl⟩, rfl⟩ := hnext
  exact ⟨producer, hproducer, rfl⟩

/-- A sub-buffer that finds the consumer alive keeps the slots exactly when the slots it takes are
free. -/
theorem keepsSlots_sub_iff (h : custody.SlotExclusive)
    (haccepted : custody.delivery.producer.accepted = some (lane, sub))
    (halive : env.localAlive = true)
    (hfollowing : following =
      ⟨{ custody.delivery.onProducer config (.sub env) with
          producer := custody.delivery.producer.acceptSub config lane sub env }, custody.out⟩) :
    following.SlotExclusive ∧
        (∀ slot ∈ custody.writes config (.step (.producer (.sub env))), ¬custody.Taken slot) ↔
      custody.FreeFor config env lane sub := by
  obtain ⟨hsize, -, -⟩ := Producer.size_of_accepted haccepted
  obtain ⟨hexclusive, hapart⟩ := slotExclusive_iff.mp h
  have howned : following.delivery.producer.rxLocal.owned =
      (custody.delivery.producer.acceptSub config lane sub env).rxLocal.owned := by
    rw [hfollowing]
  have hmoves := (Producer.flushLocal_moves config custody.delivery.producer lane sub env).1
  rw [slotExclusive_iff, howned, Producer.acceptSub_ownedLocal halive hsize]
  simp only [writes, Producer.writesLocal, haccepted, halive, if_true, hmoves, FreeFor]
  by_cases hflushes : custody.delivery.producer.rxLocal.Flushes lane config.localFull sub
  · by_cases hfree : env.localFree = true
    · -- the packet is queued: its slot is written, and then held
      have htaken : following.Taken = fun slot =>
          custody.Taken slot ∨ slot = custody.delivery.producer.rxLocal.adcBuf lane := by
        funext slot
        simp only [hfollowing, Taken, LocalDelivery.onProducer, haccepted, halive, hflushes,
          hfree, and_self, if_true, LocalDelivery.enqueue, List.map_append, List.map_cons,
          List.map_nil, List.mem_append, List.mem_singleton]
        exact propext or_right_comm
      rw [htaken, apart_take_iff, ← and_assoc, take_iff hexclusive hapart]
      simp only [hflushes, hfree, and_self, if_true, Bool.true_eq_false, and_false,
        not_false_eq_true, true_implies, List.cons_append, List.nil_append, List.mem_cons,
        List.not_mem_nil, or_false, forall_eq_or_imp, forall_eq, slotFree_iff]
      constructor
      · rintro ⟨⟨hhead, hne, hunowned⟩, hkept, -⟩
        exact ⟨fun _ => ⟨hunowned, hkept⟩, hhead, hne⟩
      · rintro ⟨hidle, hhead, hne⟩
        obtain ⟨hunowned, hkept⟩ := slotFree_iff.mp (h.parked fun hempty =>
          slotFree_iff.mpr (hidle hempty))
        exact ⟨⟨hhead, hne, hunowned⟩, hkept, hhead.2⟩
    · -- there is no element for it, and the lane leaves its slot
      rw [Bool.not_eq_true] at hfree
      have htaken : following.Taken = custody.Taken := by
        funext slot
        simp only [hfollowing, Taken, LocalDelivery.onProducer, haccepted, halive, hflushes,
          hfree, and_self, if_true, Bool.false_eq_true, if_false, LocalDelivery.lose]
      rw [htaken, take_iff hexclusive hapart]
      simp only [hflushes, hfree, Bool.false_eq_true, and_false, if_true, if_false,
        List.nil_append, List.mem_singleton, forall_eq, and_self, not_true_eq_false,
        false_implies, implies_true, true_implies, true_and, and_true, slotFree_iff]
      exact ⟨fun hhead => hhead.1, fun hhead => ⟨hhead, hhead.2⟩⟩
  · -- the sub-buffer goes into the slot the lane is parked on
    have htaken : following.Taken = custody.Taken := by
      funext slot
      simp only [hfollowing, Taken, LocalDelivery.onProducer, haccepted, hflushes, and_false,
        if_false]
    rw [htaken, take_iff hexclusive hapart]
    simp only [hflushes, if_false, false_and, List.nil_append, List.mem_singleton, forall_eq,
      not_false_eq_true, true_implies, false_implies, and_true, slotFree_iff]
    constructor
    · exact fun hkept _ => hkept.1
    · intro hidle
      have hkept := slotFree_iff.mp (h.parked fun hempty => slotFree_iff.mpr (hidle hempty))
      exact ⟨hkept, hkept.2⟩

/-- What the producer does not write is as it was, so the slots it writes decide. -/
theorem keepsSlots_iff (hnext : custody.next config event = some following) :
    KeepsSlots config custody event following ↔
      following.SlotExclusive ∧ ∀ slot ∈ custody.writes config event, ¬custody.Taken slot := by
  constructor
  · exact fun h => ⟨h.exclusive, h.unwritten⟩
  · rintro ⟨hexclusive, hunwritten⟩
    refine ⟨hexclusive, hunwritten, ?_⟩
    rintro step rfl slot htaken
    -- a packet in the hands of a consumer changes only where its slot is written
    obtain ⟨producer, hproducer, rfl⟩ := next_producer hnext
    exact Producer.buf_of_not_writes hproducer fun hwrites => hunwritten slot hwrites htaken

/-- Where no lane takes a slot and none is queued, a step of the producer keeps the slots. -/
theorem SlotExclusive.producer (h : custody.SlotExclusive) {step : Event} {producer : Producer}
    (howned : ∀ lane slot, slot ∈ producer.rxLocal.owned lane →
      slot ∈ custody.delivery.producer.rxLocal.owned lane)
    (hqueue : (custody.delivery.onProducer config step).queue ⊆ custody.delivery.queue) :
    (⟨{ custody.delivery.onProducer config step with producer := producer },
      custody.out⟩ : LocalCustody).SlotExclusive := by
  refine h.weaken howned fun slot htaken => ?_
  exact htaken.imp_left fun hqueued => List.map_subset _ hqueue hqueued

/-- A sub-buffer keeps the slots exactly when those it takes are free. -/
theorem keepsSlots_subStep_iff (h : custody.SlotExclusive)
    (hnext : custody.next config (.step (.producer (.sub env))) = some following) :
    KeepsSlots config custody (.step (.producer (.sub env))) following ↔
      custody.BirthFree config (.step (.producer (.sub env))) := by
  rw [keepsSlots_iff hnext]
  obtain ⟨producer, hproducer, rfl⟩ := next_producer hnext
  rcases Producer.next_sub hproducer with ⟨hnone, index, rfl⟩ | ⟨lane, sub, haccepted, rfl⟩
  · have hpool : custody.delivery.onProducer config (.sub env) = custody.delivery := by
      simp only [LocalDelivery.onProducer, hnone]
    refine iff_of_true ⟨h.producer (fun _ _ howns => howns) ?_, ?_⟩ ?_
    · rw [hpool]
      exact List.Subset.refl _
    · simp [writes, Producer.writesLocal, hnone]
    · simp [BirthFree, hnone]
  · by_cases halive : env.localAlive = true
    · rw [keepsSlots_sub_iff h haccepted halive rfl]
      simp [BirthFree, halive, haccepted]
    · -- without a consumer the lane gives its slot up
      have hpool : custody.delivery.onProducer config (.sub env) = custody.delivery := by
        simp only [LocalDelivery.onProducer, haccepted]
        rw [if_neg fun hships => halive hships.1]
      refine iff_of_true ⟨h.producer ?_ ?_, ?_⟩ fun h => absurd h halive
      · intro other slot howns
        rw [(Producer.acceptSub_rxLocal config _ lane sub env).1, Producer.localLane,
          if_neg halive] at howns
        exact (Assembler.mem_owned_clear howns).2
      · rw [hpool]
        exact List.Subset.refl _
      · simp [writes, Producer.writesLocal, haccepted, halive]

/-! ## Runs -/

/-- A step keeps the slots exactly when it takes free slots only. -/
theorem keepsSlots_next_iff (h : custody.SlotExclusive)
    (hnext : custody.next config event = some following) :
    KeepsSlots config custody event following ↔ custody.BirthFree config event := by
  by_cases hproducer : ∃ step, event = .step (.producer step)
  · obtain ⟨step, rfl⟩ := hproducer
    by_cases hsub : ∃ env, step = .sub env
    · obtain ⟨env, rfl⟩ := hsub
      exact keepsSlots_subStep_iff h hnext
    · rw [keepsSlots_iff hnext]
      obtain ⟨producer, hproducer, rfl⟩ := next_producer hnext
      have hmoves := Producer.next_rxLocal hproducer fun env henv => hsub ⟨env, henv⟩
      cases step with
      | sub env => exact absurd ⟨env, rfl⟩ hsub
      -- the reset drops the queue and leaves what is checked out to its holders
      | reset =>
          exact iff_of_true ⟨h.producer hmoves.2 (List.nil_subset _), List.forall_mem_nil _⟩
            trivial
      | _ =>
          exact iff_of_true ⟨h.producer hmoves.2 (List.Subset.refl _), List.forall_mem_nil _⟩
            trivial
  · rw [keepsSlots_iff hnext]
    have hexclusive := h.consumer (fun step hstep => hproducer ⟨step, hstep⟩) hnext
    cases event with
    | step step =>
        cases step with
        | producer step => exact absurd ⟨step, rfl⟩ hproducer
        | _ => exact iff_of_true ⟨hexclusive, List.forall_mem_nil _⟩ trivial
    | release => exact iff_of_true ⟨hexclusive, List.forall_mem_nil _⟩ trivial

/-- In every run from the module init, with any ring size, any number of packets outstanding and
any order of returns, every step keeps the slots exactly when every step takes free slots only. -/
theorem keepsSlots_iff_birthFree (config : Config) (usbBuf localBuf : Nat → Packet)
    (events : List CustodyEvent) :
    EveryStep (next config) (KeepsSlots config) (init config usbBuf localBuf) events ↔
      Guarded (next config) (BirthFree config) (init config usbBuf localBuf) events := by
  refine everyStep_iff_guarded (fun custody event following h hnext => ?_)
    (fun custody event following _ hkeeps _ => hkeeps.exclusive) ?_
  · exact keepsSlots_next_iff h hnext
  · intro lane hfilling
    exact absurd rfl hfilling

/-- The lane begins the first packet of a stream in slot 0, and after the first flush it is sent to
the head, which is slot 0 too: the second packet overwrites the first in the queue, with one packet
outstanding in a ring of any size. -/
theorem first_packet_overwritten :
    ¬∀ (config : Config) (usbBuf localBuf : Nat → Packet) (events : List CustodyEvent),
      Always (next config) (Spare config 5) (init config usbBuf localBuf) events →
        (∀ event ∈ events, event.InOrder) →
          EveryStep (next config) (KeepsSlots config) (init config usbBuf localBuf) events := by
  intro h
  -- two sub-buffers of one lane with a seam between them
  have hkeeps := h Config.driver Producer.blank Producer.blank
    [.step (.producer .reset),
      .step (.producer (.slot (Producer.slotOf
        [⟨0x0#32, 64, 1000, 2⟩, ⟨0x100#32, 64, 5000, 2⟩]))),
      .step (.producer (.sub ⟨false, false, false, true, true⟩)),
      .step (.producer (.sub ⟨false, false, false, true, true⟩))] (by decide) (by decide)
  have hexclusive : EveryStep (next Config.driver) (fun _ _ following => following.SlotExclusive)
      (init Config.driver Producer.blank Producer.blank) _ :=
    hkeeps.mono fun _ _ _ hstep => hstep.exclusive
  exact absurd hexclusive (by decide)

end LocalCustody

end RfnmDriver.Rx
