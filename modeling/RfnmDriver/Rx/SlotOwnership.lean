import RfnmDriver.Rx.Producer

/-!
# Who owns a slot of the USB ring

A lane must be alone in the slot it writes: no other lane there, and no request that is staged or
in flight pointing at it. The ring has no free list; a lane gets the slot at `head` when it ships,
and slot 0 from a stream reset. `slotExclusive_iff_birthSlotFree` says for which runs that is
enough, and `restart_shares_slot` that a restart breaks it.
-/

namespace RfnmDriver.Rx.Producer

open StepSystem Ownership

variable {config : Config} {producer following : Producer} {lane : Fin 4} {slot : Nat}
  {sub : SubBuffer} {env : SubEnv} {event : Event}

/-! ## The property and the condition -/

/-- No other lane writes the slot, and no request staged or in flight points at it. -/
def SlotFree (producer : Producer) (lane : Fin 4) (slot : Nat) : Prop :=
  (∀ other, other ≠ lane → producer.rxUsb.Filling other → producer.rxUsb.adcBuf other ≠ slot) ∧
    slot ∉ producer.staged ∧ slot ∉ producer.inflight

/-- The slot a lane is writing is written by no other lane, and no request staged or in flight
points at it. -/
def SlotExclusive (producer : Producer) : Prop :=
  ∀ lane, producer.rxUsb.Filling lane → producer.SlotFree lane (producer.rxUsb.adcBuf lane)

/-- The step begins a packet only in a free slot: the one the lane is parked on, or after a ship
the one at the head, which must not be the slot just shipped. -/
def BirthSlotFree (config : Config) (producer : Producer) : Event → Prop
  | .sub env => ∀ sub ∈ producer.slot.subs[producer.index]?, sub.size ≠ 0 → ∀ lane ∈ sub.lane?,
      (¬producer.rxUsb.Filling lane → producer.SlotFree lane (producer.rxUsb.adcBuf lane)) ∧
        (producer.rxUsb.Flushes lane config.elems sub →
          ¬producer.Refused config env.usbAlive env.headGrace →
            producer.rxUsb.head ≠ producer.rxUsb.adcBuf lane ∧
              producer.SlotFree lane producer.rxUsb.head)
  | _ => True

instance (producer : Producer) (lane : Fin 4) (slot : Nat) :
    Decidable (producer.SlotFree lane slot) :=
  inferInstanceAs (Decidable (_ ∧ _ ∧ _))

instance (producer : Producer) : Decidable producer.SlotExclusive :=
  inferInstanceAs (Decidable (∀ _, _ → _))

/-! ## As ownership -/

/-- A request staged or in flight points at the slot. -/
def Outstanding (producer : Producer) (slot : Nat) : Prop :=
  slot ∈ producer.staged ∨ slot ∈ producer.inflight

/-- A slot is free for a lane when no other lane owns it and it is not outstanding. -/
theorem slotFree_iff :
    producer.SlotFree lane slot ↔
      Unowned producer.rxUsb.owned lane slot ∧ ¬producer.Outstanding slot := by
  simp only [SlotFree, Unowned, Assembler.mem_owned, Outstanding, not_and, not_or]

/-- The lanes own their slots exclusively, and apart from the slots outstanding. -/
theorem slotExclusive_iff :
    producer.SlotExclusive ↔
      Exclusive producer.rxUsb.owned ∧ Apart producer.rxUsb.owned producer.Outstanding := by
  rw [← Assembler.exclusive_iff]
  simp only [SlotExclusive, SlotFree, Outstanding, not_or]

/-! ## Steps that begin no packet -/

/-- With no slot newly owned, and no owned slot newly outstanding, slots stay exclusive. -/
theorem SlotExclusive.weaken (h : producer.SlotExclusive)
    (howned : ∀ other slot, slot ∈ following.rxUsb.owned other →
      slot ∈ producer.rxUsb.owned other)
    (houtstanding : ∀ other slot, slot ∈ following.rxUsb.owned other →
      following.Outstanding slot → producer.Outstanding slot) :
    following.SlotExclusive := by
  obtain ⟨hexclusive, hapart⟩ := slotExclusive_iff.mp h
  exact slotExclusive_iff.mpr ⟨hexclusive.weaken howned, hapart.weaken howned houtstanding⟩

/-- A step of the requests makes no slot outstanding that was not. -/
theorem SlotExclusive.ofRequests (h : producer.SlotExclusive)
    (hsame : following.rxUsb = producer.rxUsb)
    (houtstanding : ∀ slot, following.Outstanding slot → producer.Outstanding slot) :
    following.SlotExclusive := by
  refine h.weaken ?_ (fun _ slot _ => houtstanding slot)
  intro other slot howns
  rwa [hsame] at howns

/-- Without partial packets every slot is free. -/
theorem slotExclusive_of_clear (hclear : following.rxUsb.adcBufSize = fun _ => 0) :
    following.SlotExclusive := by
  intro lane hfilling
  exact absurd (congrFun hclear lane) hfilling

/-- The request takes the slot of the lane, which was alone in it, and the lane gives it up. -/
theorem SlotExclusive.shipUsb (h : producer.SlotExclusive)
    (hfilling : producer.rxUsb.Filling lane) :
    (producer.shipUsb config lane).SlotExclusive := by
  have hown := (slotFree_iff.mp (h lane hfilling)).1
  refine h.weaken (fun other slot howns => (Assembler.mem_owned_ship howns).2) ?_
  intro other slot howns houtstanding
  obtain ⟨hne, hbefore⟩ := Assembler.mem_owned_ship howns
  simp only [Outstanding, Producer.shipUsb, List.mem_append, List.mem_singleton] at houtstanding
  rcases houtstanding with (hstaged | rfl) | hinflight
  · exact Or.inl hstaged
  · -- the slot just shipped is no other lane's
    exact absurd hbefore (hown hne)
  · exact Or.inr hinflight

/-- The lane gives its slot up. -/
theorem SlotExclusive.dropUsb (h : producer.SlotExclusive) :
    (producer.dropUsb lane).SlotExclusive := by
  refine h.weaken ?_ (fun other slot _ houtstanding => houtstanding)
  intro other slot howns
  obtain ⟨hne, hbefore⟩ := Assembler.mem_owned_clear howns
  exact hbefore

/-! ## The sub-buffer step -/

/-- The local lane leaves the USB ring alone. -/
theorem acceptSub_owned (hsize : sub.size ≠ 0) :
    (producer.acceptSub config lane sub env).rxUsb.owned =
      Function.update (producer.flushUsb config lane sub env).rxUsb.owned lane
        (some ((producer.flushUsb config lane sub env).rxUsb.adcBuf lane)) := by
  obtain ⟨rxLocal, localQueued, hlocal⟩ := localLane_frame config
    ((producer.flushUsb config lane sub env).fillUsb lane sub env) lane sub env
  rw [← Assembler.owned_append hsize, acceptSub, hlocal]
  rfl

/-- The local lane leaves the requests alone. -/
theorem acceptSub_outstanding :
    (producer.acceptSub config lane sub env).Outstanding =
      (producer.flushUsb config lane sub env).Outstanding := by
  obtain ⟨rxLocal, localQueued, hlocal⟩ := localLane_frame config
    ((producer.flushUsb config lane sub env).fillUsb lane sub env) lane sub env
  rw [acceptSub, hlocal]
  rfl

/-- After the flush the slots are still exclusive. -/
theorem SlotExclusive.flushUsb (h : producer.SlotExclusive) (hlane : sub.lane? = some lane) :
    (producer.flushUsb config lane sub env).SlotExclusive := by
  unfold Producer.flushUsb
  split
  · next hflushes =>
      split
      · exact h.dropUsb
      · exact h.shipUsb (filling_of_flushes hlane hflushes)
  · exact h

/-- A sub-buffer keeps the slots exclusive exactly when the slot it goes into is free. -/
theorem slotExclusive_acceptSub_iff (h : producer.SlotExclusive) (hlane : sub.lane? = some lane)
    (hsize : sub.size ≠ 0) :
    (producer.acceptSub config lane sub env).SlotExclusive ↔
      (producer.flushUsb config lane sub env).SlotFree lane
        ((producer.flushUsb config lane sub env).rxUsb.adcBuf lane) := by
  have hflush : (producer.flushUsb config lane sub env).SlotExclusive := h.flushUsb hlane
  obtain ⟨hexclusive, hapart⟩ := slotExclusive_iff.mp hflush
  rw [slotExclusive_iff, acceptSub_owned hsize, acceptSub_outstanding, slotFree_iff]
  exact take_iff hexclusive hapart

/-- After a ship a slot is free when it was, unless it is the one shipped. -/
theorem slotFree_shipUsb_iff :
    (producer.shipUsb config lane).SlotFree lane slot ↔
      slot ≠ producer.rxUsb.adcBuf lane ∧ producer.SlotFree lane slot := by
  have hothers : (∀ other, other ≠ lane → (producer.shipUsb config lane).rxUsb.Filling other →
      (producer.shipUsb config lane).rxUsb.adcBuf other ≠ slot) ↔
      ∀ other, other ≠ lane → producer.rxUsb.Filling other →
        producer.rxUsb.adcBuf other ≠ slot := by
    refine forall_congr' fun other => imp_congr_right fun hne => ?_
    simp [shipUsb, Assembler.ship, Assembler.mint, Assembler.clear, Assembler.advance,
      Assembler.Filling, hne]
  have hstaged : slot ∉ (producer.shipUsb config lane).staged ↔
      slot ∉ producer.staged ∧ slot ≠ producer.rxUsb.adcBuf lane := by
    simp [shipUsb]
  unfold SlotFree
  rw [hothers, hstaged]
  constructor
  · rintro ⟨hunowned, ⟨hnot, hne⟩, hinflight⟩
    exact ⟨hne, hunowned, hnot, hinflight⟩
  · rintro ⟨hne, hunowned, hnot, hinflight⟩
    exact ⟨hunowned, ⟨hnot, hne⟩, hinflight⟩

/-- The slot a sub-buffer goes into is free when it continues the lane's packet, or when the
packet it begins finds its slot free. -/
theorem slotFree_flushUsb_iff (h : producer.SlotExclusive) (hlane : sub.lane? = some lane) :
    (producer.flushUsb config lane sub env).SlotFree lane
        ((producer.flushUsb config lane sub env).rxUsb.adcBuf lane) ↔
      (¬producer.rxUsb.Filling lane → producer.SlotFree lane (producer.rxUsb.adcBuf lane)) ∧
        (producer.rxUsb.Flushes lane config.elems sub →
          ¬producer.Refused config env.usbAlive env.headGrace →
            producer.rxUsb.head ≠ producer.rxUsb.adcBuf lane ∧
              producer.SlotFree lane producer.rxUsb.head) := by
  unfold Producer.flushUsb
  split
  · next hflushes =>
      have hfilling := filling_of_flushes hlane hflushes
      split
      · next hrefused =>
          -- the slot is used again, and was the lane's own
          have hown := slotFree_iff.mp (h lane hfilling)
          have hfree : (producer.dropUsb lane).SlotFree lane
              ((producer.dropUsb lane).rxUsb.adcBuf lane) := by
            refine slotFree_iff.mpr ⟨fun other hne howns => ?_, hown.2⟩
            exact hown.1 hne (Assembler.mem_owned_clear howns).2
          refine iff_of_true hfree ⟨fun hidle => absurd hfilling hidle, ?_⟩
          intro _ hnot
          exact absurd hrefused hnot
      · next hshipped =>
          -- the lane continues at the head, while its old slot is now outstanding
          have hslot : (producer.shipUsb config lane).rxUsb.adcBuf lane =
              producer.rxUsb.head := by
            simp [shipUsb, Assembler.ship, Assembler.mint, Assembler.clear, Assembler.advance]
          rw [hslot, slotFree_shipUsb_iff]
          constructor
          · intro hfree
            exact ⟨fun hidle => absurd hfilling hidle, fun _ _ => hfree⟩
          · intro hcondition
            exact hcondition.2 hflushes hshipped
  · next hstays =>
      constructor
      · intro hfree
        exact ⟨fun _ => hfree, fun hflushes => absurd hflushes hstays⟩
      · intro hcondition
        by_cases hfilling : producer.rxUsb.Filling lane
        · exact h lane hfilling
        · exact hcondition.1 hfilling

/-- The loop body keeps the slots exclusive exactly when a packet it begins finds its slot
free. -/
theorem slotExclusive_subStep_iff (h : producer.SlotExclusive)
    (hsub : producer.slot.subs[producer.index]? = some sub) :
    (producer.subStep config env sub).SlotExclusive ↔
      BirthSlotFree config producer (.sub env) := by
  simp only [BirthSlotFree, hsub, Option.mem_def, Option.some.injEq, forall_eq']
  unfold subStep
  split
  · next hempty => exact iff_of_true h fun hsize => absurd hempty hsize
  · next hsize =>
      split
      · next hrejected => exact iff_of_true h fun _ lane hlane => by simp [hrejected] at hlane
      · next lane hlane =>
          rw [slotExclusive_acceptSub_iff h hlane hsize, slotFree_flushUsb_iff h hlane]
          constructor
          · intro hcondition _ other hother
            obtain rfl := Option.some.inj (hlane.symm.trans hother)
            exact hcondition
          · intro hcondition
            exact hcondition hsize lane hlane

/-! ## Runs -/

/-- A step keeps the slots exclusive exactly when it begins packets in free slots only. -/
theorem slotExclusive_next_iff (h : producer.SlotExclusive)
    (hnext : producer.next config event = some following) :
    following.SlotExclusive ↔ BirthSlotFree config producer event := by
  cases event with
  | sub env =>
      obtain ⟨sub, hsub, rfl⟩ := Option.map_eq_some_iff.mp hnext
      exact slotExclusive_subStep_iff h hsub
  | slot slot =>
      obtain ⟨-, rfl⟩ := of_guard hnext
      exact iff_of_true h trivial
  | flushPartial lane usbAlive headGrace =>
      obtain ⟨-, rfl⟩ := of_guard hnext
      refine iff_of_true ?_ trivial
      unfold flushPartial
      split
      · exact h
      · next hship =>
          simp only [not_or, not_not] at hship
          exact h.shipUsb hship.1
  | idlePass =>
      obtain ⟨-, rfl⟩ := of_guard hnext
      exact iff_of_true h trivial
  | jumpForward =>
      obtain ⟨-, rfl⟩ := of_guard hnext
      exact iff_of_true h trivial
  | standDown =>
      -- only the first pass of a stand-down drops the partial packets
      obtain ⟨-, rfl⟩ := of_guard hnext
      refine iff_of_true ?_ trivial
      unfold standDown
      split
      · exact h
      · exact slotExclusive_of_clear rfl
  | reset =>
      obtain ⟨-, rfl⟩ := of_guard hnext
      exact iff_of_true (slotExclusive_of_clear rfl) trivial
  | _ =>
      obtain ⟨free, untracked, staged, inflight, rfl, houtstanding⟩ := next_requests hnext trivial
      exact iff_of_true (h.ofRequests rfl houtstanding) trivial

/-- In every run from the module init, with any ring size and caps, the slot a lane is writing is
its own in every state exactly when every packet is begun in a free slot. -/
theorem slotExclusive_iff_birthSlotFree (config : Config) (usbBuf localBuf : Nat → Packet)
    (events : List Event) :
    Always (next config) SlotExclusive (Producer.init usbBuf localBuf) events ↔
      Guarded (next config) (BirthSlotFree config) (Producer.init usbBuf localBuf) events := by
  refine always_iff_everyStep (fun state event following h hcondition hnext => ?_)
    (fun state h => h) (fun state event following h hnext hfollowing => ?_)
    (slotExclusive_of_clear rfl)
  · exact (slotExclusive_next_iff h hnext).mpr hcondition
  · exact (slotExclusive_next_iff h hnext).mp hfollowing

/-- A restart parks every lane on slot 0, and two lanes then begin their packets there, however
large the ring is. -/
theorem restart_shares_slot :
    ¬∀ (config : Config) (usbBuf localBuf : Nat → Packet) (events : List Event),
      4 + config.inflightCap + config.staleCap < config.ring →
        Always (next config) SlotExclusive (Producer.init usbBuf localBuf) events := by
  intro h
  have hstart : Always (next Config.driver) SlotExclusive
      (Producer.init (fun _ => ⟨0, 0, false, 0, 0, 0, fun _ => ⟨0, 0⟩⟩)
        (fun _ => ⟨0, 0, false, 0, 0, 0, fun _ => ⟨0, 0⟩⟩))
      [.reset,
        .slot ⟨[⟨0x0#32, 64, 1000, 2⟩, ⟨0x1#32, 64, 1000, 2⟩], fun _ => ⟨0, 0⟩⟩,
        .sub ⟨true, true, true, false, false⟩,
        .sub ⟨true, true, true, false, false⟩] :=
    h _ _ _ _ (by decide)
  exact absurd hstart (by decide)

end RfnmDriver.Rx.Producer
