import RfnmDriver.Rx.Producer
import RfnmDriver.Rx.SeamlessLane

/-!
# The stamp speaks for the whole packet

A packet is assembled from many sub-buffers under the stamp of its first one, so its samples must
have been captured one after the other from that stamp on. The firmware's side of this is
`FirmwareStream`. The producer's is `SeamKept`, which it does not always meet: a jump forward marks
the lanes but leaves their partial packets to be continued. `continuous_of_seamKept` is the result
for runs, and `jump_forward_leaves_seam` the packet with a seam.
-/

namespace RfnmDriver.Rx

open StepSystem Ownership

namespace Producer

variable {config : Config} {producer following : Producer} {lane : Fin 4} {sub : SubBuffer}
  {env : SubEnv} {event : Event}

/-! ## The property and the conditions -/

/-- Every packet handed to a request and every packet queued for the local consumer is
continuous. -/
def ShippedContinuous (producer : Producer) : Prop :=
  ∀ packet ∈ producer.history.usbShipped ++ producer.history.localQueued, packet.Continuous

instance (producer : Producer) : Decidable producer.ShippedContinuous :=
  inferInstanceAs (Decidable (∀ packet ∈ _, _))

/-- What the firmware delivers: the samples of a slot behind its descriptors, and on every lane
sub-buffers that continue each other but for DISCONT and a new epoch. -/
def FirmwareStream (producer : Producer) : Event → Prop
  | .slot slot => slot.Written
  | .sub _ => ∀ sub ∈ producer.slot.subs[producer.index]?, sub.size ≠ 0 → ∀ lane ∈ sub.lane?,
      ∀ before ∈ producer.history.last lane, sub.Continues before
  | _ => True

/-- The step puts no seam into a packet. No header before the sub-buffer's was rejected, since
`sub_read_size` does not move past a rejected sub-buffer; and no packet is handed to a request with
part of its payload not copied. -/
def SeamKept (config : Config) (producer : Producer) : Event → Prop
  | .sub env => ∀ sub ∈ producer.slot.subs[producer.index]?, sub.size ≠ 0 → ∀ lane ∈ sub.lane?,
      (∀ earlier ∈ producer.slot.subs.take producer.index, earlier.lane?.isSome) ∧
      producer.rxUsb.SeamKept lane config.elems sub
        (¬producer.Refused config env.usbAlive env.headGrace) ∧
      (producer.rxUsb.Flushes lane config.elems sub →
        ¬producer.Refused config env.usbAlive env.headGrace →
          producer.history.uncopied lane = false) ∧
      (env.localAlive = true →
        producer.rxLocal.SeamKept lane config.localFull sub True)
  | .flushPartial lane usbAlive headGrace =>
      producer.rxUsb.Filling lane → ¬producer.Refused config usbAlive headGrace →
        producer.history.uncopied lane = false
  | _ => True

instance (producer : Producer) (event : Event) : Decidable (FirmwareStream producer event) := by
  rcases event <;> unfold FirmwareStream <;> infer_instance

instance (config : Config) (producer : Producer) (event : Event) :
    Decidable (SeamKept config producer event) := by
  rcases event <;> unfold SeamKept <;> infer_instance

/-! ## The invariant -/

/-- Packets out are continuous, packets under way have no seam, and the slot under way is read
where its samples are. -/
structure Inv (producer : Producer) : Prop where
  shipped : producer.ShippedContinuous
  usb : producer.rxUsb.Seamless producer.history.last producer.history.uncopied
  loc : producer.rxLocal.Seamless producer.history.last fun _ => false
  /-- During a stand-down there is no partial packet. -/
  idle : producer.standdownActive = true → producer.SlotDone ∧
    (producer.rxUsb.adcBufSize = fun _ => 0) ∧ producer.rxLocal.adcBufSize = fun _ => 0
  written : producer.slot.Written
  /-- While no header was rejected, `sub_read_size` is where the next sub-buffer's samples are. -/
  read : producer.index < producer.slot.subs.length →
    (∀ earlier ∈ producer.slot.subs.take producer.index, earlier.lane?.isSome) →
    producer.subRead = producer.slot.start producer.index

/-- The module init. -/
theorem init_inv (usbBuf localBuf : Nat → Packet) : (Producer.init usbBuf localBuf).Inv where
  shipped := by simp [ShippedContinuous, Producer.init]
  usb := Assembler.seamless_of_clear rfl
  loc := Assembler.seamless_of_clear rfl
  idle := by simp [Producer.init]
  written := by simp [Slot.Written, Producer.init]
  read := fun _ _ => rfl

/-- Packets out stay out; one more is continuous if it is. -/
theorem ShippedContinuous.add (h : producer.ShippedContinuous) {packet : Packet}
    (hpacket : packet.Continuous)
    (hfollowing : ∀ other ∈ following.history.usbShipped ++ following.history.localQueued,
      other ∈ producer.history.usbShipped ++ producer.history.localQueued ∨ other = packet) :
    following.ShippedContinuous := by
  intro other hother
  rcases hfollowing other hother with hbefore | rfl
  · exact h other hbefore
  · exact hpacket

/-! ## The two lanes -/

/-- A packet is handed to a request with its whole payload. -/
theorem Inv.shipUsb (h : producer.Inv) (hwhole : producer.history.uncopied lane = false) :
    (producer.shipUsb config lane).ShippedContinuous ∧
      (producer.shipUsb config lane).rxUsb.Seamless producer.history.last
        producer.history.uncopied := by
  refine ⟨h.shipped.add (h.usb.continuous_minted hwhole) fun other hother => ?_, h.usb.ship⟩
  simp only [Producer.shipUsb, List.mem_append, List.mem_singleton] at hother ⊢
  tauto

/-- The USB lane before the sub-buffer is appended. -/
theorem Inv.flushUsb (h : producer.Inv)
    (hwhole : producer.rxUsb.Flushes lane config.elems sub →
      ¬producer.Refused config env.usbAlive env.headGrace →
        producer.history.uncopied lane = false) :
    (producer.flushUsb config lane sub env).ShippedContinuous ∧
      (producer.flushUsb config lane sub env).rxUsb.Seamless producer.history.last
        producer.history.uncopied := by
  unfold Producer.flushUsb
  split
  · next hflushes =>
      split
      · exact ⟨h.shipped, h.usb.markDiscont.clear⟩
      · next hship => exact h.shipUsb (hwhole hflushes hship)
  · exact ⟨h.shipped, h.usb⟩

/-- A packet dropped leaves its slot to the lane; one shipped gives it the slot at the head. -/
theorem flushedTo_flushUsb (hexclusive : Exclusive producer.rxUsb.owned)
    (hlane : sub.lane? = some lane)
    (hhead : producer.rxUsb.Flushes lane config.elems sub →
      ¬producer.Refused config env.usbAlive env.headGrace →
        Unowned producer.rxUsb.owned lane producer.rxUsb.head) :
    Assembler.FlushedTo producer.rxUsb (producer.flushUsb config lane sub env).rxUsb lane
      config.elems sub := by
  unfold Producer.flushUsb
  split
  · next hflushes =>
      right
      split
      · -- dropped: the lane keeps its slot, which was its own
        have hown := Assembler.mem_owned.mpr ⟨filling_of_flushes hlane hflushes, rfl⟩
        refine ⟨by simp [dropUsb, Assembler.clear], fun other hne howns => ?_⟩
        exact hexclusive.unowned hown hne (Assembler.mem_owned_clear howns).2
      · next hship =>
          have hslot : (producer.rxUsb.ship config.ring lane).adcBuf lane =
              producer.rxUsb.head := by
            simp [Assembler.ship, Assembler.mint, Assembler.clear, Assembler.advance]
          refine ⟨by simp [Producer.shipUsb, Assembler.ship, Assembler.mint, Assembler.clear,
            Assembler.advance], fun other hne howns => ?_⟩
          simp only [Producer.shipUsb, hslot] at howns
          exact hhead hflushes hship hne (Assembler.mem_owned_ship howns).2
  · next hstays => exact Or.inl ⟨hstays, rfl⟩

/-- The local lane before the sub-buffer is appended. -/
theorem flushLocal_seamless (hshipped : producer.ShippedContinuous)
    {before : Fin 4 → Option SubBuffer} (hloc : producer.rxLocal.Seamless before fun _ => false) :
    (producer.flushLocal config lane sub env).ShippedContinuous ∧
      (producer.flushLocal config lane sub env).rxLocal.Seamless before fun _ => false := by
  unfold flushLocal
  split
  · split
    · have hpacket : (producer.rxLocal.minted lane).Continuous := hloc.continuous_minted rfl
      refine ⟨hshipped.add hpacket fun other hother => ?_, hloc.ship⟩
      simp only [List.mem_append, List.mem_singleton] at hother ⊢
      tauto
    · exact ⟨hshipped, hloc.clear.advance (by simp [Assembler.clear])⟩
  · exact ⟨hshipped, hloc⟩

/-- A local packet that is forced out gives the lane the slot at the head, queued or not. -/
theorem flushedTo_flushLocal
    (hkept : producer.rxLocal.SeamKept lane config.localFull sub True) :
    Assembler.FlushedTo producer.rxLocal (producer.flushLocal config lane sub env).rxLocal lane
      config.localFull sub := by
  unfold flushLocal
  split
  · next hflushes =>
      right
      split
      · have hhead : (producer.rxLocal.ship config.localRing lane).adcBuf lane =
            producer.rxLocal.head := by
          simp [Assembler.ship, Assembler.mint, Assembler.clear, Assembler.advance]
        refine ⟨by simp [Assembler.ship, Assembler.mint, Assembler.clear, Assembler.advance],
          fun other hne howns => ?_⟩
        simp only [hhead] at howns
        exact hkept.2.2 hflushes trivial hne (Assembler.mem_owned_ship howns).2
      · have hhead : ((producer.rxLocal.clear lane).advance config.localRing lane).adcBuf lane =
            producer.rxLocal.head := by
          simp [Assembler.clear, Assembler.advance]
        refine ⟨by simp [Assembler.clear, Assembler.advance], fun other hne howns => ?_⟩
        simp only [hhead] at howns
        exact hkept.2.2 hflushes trivial hne (Assembler.mem_owned_advance howns).2
  · next hstays => exact Or.inl ⟨hstays, rfl⟩

/-- A sub-buffer on the local lane; the lane of a dead consumer has no packet. -/
theorem localLane_seamless (hshipped : producer.ShippedContinuous)
    {before : Fin 4 → Option SubBuffer} (hloc : producer.rxLocal.Seamless before fun _ => false)
    (hkept : env.localAlive = true → producer.rxLocal.SeamKept lane config.localFull sub True)
    (hstream : ∀ prev ∈ before lane, sub.Continues prev) (heven : sub.size % 2 = 0)
    (hsize : sub.size ≠ 0)
    (hsource : ∀ position < sub.size,
      producer.slot.samples (producer.subRead + position) = sub.sample position) :
    (producer.localLane config lane sub env).ShippedContinuous ∧
      (producer.localLane config lane sub env).rxLocal.Seamless
        (Function.update before lane (some sub)) fun _ => false := by
  unfold localLane
  split
  · next halive =>
      have hflushed : (producer.flushLocal config lane sub env).ShippedContinuous ∧
          (producer.flushLocal config lane sub env).rxLocal.Seamless before fun _ => false :=
        flushLocal_seamless hshipped hloc
      have hto : Assembler.FlushedTo producer.rxLocal
          (producer.flushLocal config lane sub env).rxLocal lane config.localFull sub :=
        flushedTo_flushLocal (hkept halive)
      obtain ⟨rxLocal, localQueued, hframe⟩ := flushLocal_frame config producer lane sub env
      rw [hframe] at hflushed hto ⊢
      refine ⟨hflushed.1, ?_⟩
      have happend : (rxLocal.append lane sub producer.slot.samples producer.subRead true).Seamless
          _ _ := hflushed.2.appendAfter (hkept halive) hto hstream heven hsize hsource
      -- the local copy is never skipped
      have hwhole : (rxLocal.append lane sub producer.slot.samples producer.subRead true).Seamless
          (Function.update before lane (some sub)) fun _ => false := by
        simpa using happend
      exact hwhole
  · have hclear : (producer.rxLocal.clear lane).Seamless before fun _ => false := hloc.clear
    exact ⟨hshipped, (hclear.move (by simp [Assembler.clear]) (some sub)).markDiscont⟩

/-! ## Steps -/

/-- Where no header was rejected, the samples a sub-buffer is copied from are its own. -/
theorem Inv.source (h : producer.Inv) (hsub : producer.slot.subs[producer.index]? = some sub)
    (hearlier : ∀ earlier ∈ producer.slot.subs.take producer.index, earlier.lane?.isSome) :
    ∀ position < sub.size,
      producer.slot.samples (producer.subRead + position) = sub.sample position := by
  intro position hposition
  obtain ⟨hindex, -⟩ := List.getElem?_eq_some_iff.mp hsub
  rw [h.read hindex hearlier]
  exact h.written producer.index hindex sub hsub position hposition

/-- A pass cannot stand down with a slot under way. -/
theorem Inv.active_of_sub (h : producer.Inv)
    (hsub : producer.slot.subs[producer.index]? = some sub) :
    producer.standdownActive = false :=
  inactive_of_sub (fun hactive => (h.idle hactive).1) hsub

/-- An accepted sub-buffer that puts no seam into a packet keeps the invariant. -/
theorem acceptSub_inv (h : producer.Inv) (hsub : producer.slot.subs[producer.index]? = some sub)
    (hlane : sub.lane? = some lane) (hsize : sub.size ≠ 0)
    (hstream : FirmwareStream producer (.sub env)) (hkept : SeamKept config producer (.sub env)) :
    (producer.acceptSub config lane sub env).Inv := by
  obtain ⟨hearlier, husb, hwhole, hlocal⟩ := hkept sub hsub hsize lane hlane
  have hcontinues := hstream sub hsub hsize lane hlane
  have heven : sub.size % 2 = 0 := by
    have := (SubBuffer.size_of_lane hlane).1
    omega
  have hsource := h.source hsub hearlier
  have hto : Assembler.FlushedTo producer.rxUsb (producer.flushUsb config lane sub env).rxUsb lane
      config.elems sub := flushedTo_flushUsb h.usb.1 hlane husb.2.2
  obtain ⟨hshipped, hseamless⟩ := h.flushUsb hwhole
  obtain ⟨rxUsb, free, staged, usbShipped, hflush⟩ := flushUsb_frame config producer lane sub env
  rw [hflush] at hto hshipped hseamless
  have happend : (rxUsb.append lane sub producer.slot.samples producer.subRead
      env.copyOpen).Seamless _ _ :=
    hseamless.appendAfter husb hto hcontinues heven hsize hsource
  -- the local lane sees the producer with the USB lane filled
  have hfilled : ((producer.flushUsb config lane sub env).fillUsb lane sub
      env).ShippedContinuous := by
    rw [hflush]
    exact hshipped
  obtain ⟨rxLocal, localQueued, hframe⟩ := localLane_frame config
    ((producer.flushUsb config lane sub env).fillUsb lane sub env) lane sub env
  rw [acceptSub, hframe]
  rw [hflush] at hfilled hframe ⊢
  obtain ⟨hqueued, hloc⟩ := localLane_seamless hfilled h.loc hlocal hcontinues heven hsize hsource
  rw [hframe] at hqueued hloc
  refine ⟨hqueued, happend, hloc, fun hactive => ?_, h.written, fun hindex hall => ?_⟩
  · have hinactive := h.active_of_sub hsub
    exact absurd (hinactive.symm.trans hactive) Bool.false_ne_true
  · obtain ⟨hlt, -⟩ := List.getElem?_eq_some_iff.mp hsub
    show producer.subRead + sub.size = producer.slot.start (producer.index + 1)
    rw [h.read hlt hearlier, Slot.start_succ hsub]

/-- The loop body keeps the invariant. -/
theorem subStep_inv (h : producer.Inv) (hsub : producer.slot.subs[producer.index]? = some sub)
    (hstream : FirmwareStream producer (.sub env)) (hkept : SeamKept config producer (.sub env)) :
    (producer.subStep config env sub).Inv := by
  have hinactive := h.active_of_sub hsub
  unfold subStep
  split
  · -- a size of 0 ends the loop
    refine ⟨h.shipped, h.usb, h.loc, fun hactive => ?_, h.written, fun hindex => ?_⟩
    · exact absurd (hinactive.symm.trans hactive) Bool.false_ne_true
    · exact absurd hindex (Nat.lt_irrefl _)
  · next hsize =>
      split
      · next hrejected =>
          refine ⟨h.shipped, h.usb, h.loc, fun hactive => ?_, h.written, fun _ hall => ?_⟩
          · exact absurd (hinactive.symm.trans hactive) Bool.false_ne_true
          · -- the rejected header is one of those before the next sub-buffer
            have hmem : sub ∈ producer.slot.subs.take (producer.index + 1) := by
              simp [List.take_add_one, hsub]
            have := hall sub hmem
            simp [hrejected] at this
      · next lane hlane => exact acceptSub_inv h hsub hlane hsize hstream hkept

/-- A step that changes only requests keeps the invariant. -/
theorem Inv.ofRequests (h : producer.Inv) (free untracked : Nat) (staged inflight : List Nat) :
    { producer with
      free := free
      untracked := untracked
      staged := staged
      inflight := inflight : Producer }.Inv :=
  ⟨h.shipped, h.usb, h.loc, h.idle, h.written, h.read⟩

/-- A step that puts no seam into a packet keeps the invariant. -/
theorem next_inv (h : producer.Inv) (hstream : FirmwareStream producer event)
    (hkept : SeamKept config producer event)
    (hnext : producer.next config event = some following) : following.Inv := by
  cases event with
  | sub env =>
      obtain ⟨sub, hsub, rfl⟩ := Option.map_eq_some_iff.mp hnext
      exact subStep_inv h hsub hstream hkept
  | slot slot =>
      obtain ⟨-, rfl⟩ := of_guard hnext
      exact ⟨h.shipped, h.usb, h.loc, fun hactive => absurd hactive Bool.false_ne_true, hstream,
        fun _ _ => rfl⟩
  | flushPartial lane usbAlive headGrace =>
      obtain ⟨hdone, rfl⟩ := of_guard hnext
      unfold flushPartial
      split
      · exact h
      · next hship =>
          simp only [not_or, not_not] at hship
          obtain ⟨hshipped, hseamless⟩ := h.shipUsb (hkept hship.1 hship.2)
          refine ⟨hshipped, hseamless, h.loc, fun hactive => ?_, h.written, h.read⟩
          exact absurd (congrFun (h.idle hactive).2.1 lane) hship.1
  | idlePass =>
      obtain ⟨-, rfl⟩ := of_guard hnext
      exact ⟨h.shipped, h.usb, h.loc, fun hactive => absurd hactive Bool.false_ne_true, h.written,
        h.read⟩
  | jumpForward =>
      obtain ⟨-, rfl⟩ := of_guard hnext
      exact ⟨h.shipped, h.usb.markAll, h.loc.markAll,
        fun hactive => absurd hactive Bool.false_ne_true, h.written, h.read⟩
  | standDown =>
      obtain ⟨hdone, rfl⟩ := of_guard hnext
      unfold standDown
      split
      · next hactive =>
          -- what is skipped now has no partial packet to be missing from
          obtain ⟨-, husb, hloc⟩ := h.idle hactive
          exact ⟨h.shipped, Assembler.seamless_of_clear husb, Assembler.seamless_of_clear hloc,
            h.idle, h.written, h.read⟩
      · exact ⟨h.shipped, Assembler.seamless_of_clear rfl, Assembler.seamless_of_clear rfl,
          fun _ => ⟨hdone, rfl, rfl⟩, h.written, h.read⟩
  | reset =>
      obtain ⟨hdone, rfl⟩ := of_guard hnext
      exact ⟨h.shipped, Assembler.seamless_of_clear rfl, Assembler.seamless_of_clear rfl,
        fun _ => ⟨hdone, rfl, rfl⟩, h.written, h.read⟩
  | _ =>
      obtain ⟨free, untracked, staged, inflight, rfl, -⟩ := next_requests hnext trivial
      exact h.ofRequests ..

/-! ## Runs -/

/-- In every run in which the firmware delivers what it should, and no step puts a seam into a
packet, every packet handed to a request or queued for the local consumer is continuous. -/
theorem continuous_of_seamKept (config : Config) (usbBuf localBuf : Nat → Packet)
    (events : List Event)
    (hstream : Guarded (next config) FirmwareStream (Producer.init usbBuf localBuf) events)
    (hkept : Guarded (next config) (SeamKept config) (Producer.init usbBuf localBuf) events) :
    Always (next config) ShippedContinuous (Producer.init usbBuf localBuf) events := by
  have hboth : Guarded (next config)
      (fun producer event => FirmwareStream producer event ∧ SeamKept config producer event)
      (Producer.init usbBuf localBuf) events := EveryStep.and hstream hkept
  have halways : Always (next config) Inv (Producer.init usbBuf localBuf) events := by
    refine always_of_guarded (fun state event following h hcondition hnext => ?_)
      (init_inv usbBuf localBuf) hboth
    exact next_inv h hcondition.1 hcondition.2 hnext
  exact halways.mono fun state h => h.shipped

/-- Two sub-buffers of one lane shipped in one packet, and the one after them begins the next. -/
theorem continuous_of_seamKept_run :
    Always (next Config.driver) ShippedContinuous (Producer.init blank blank)
      [.enroll, .slot (slotOf [⟨0x0#32, 64, 1000, 2⟩, ⟨0x0#32, 64, 1064, 2⟩]),
        .sub ⟨true, true, true, true, true⟩, .sub ⟨true, true, true, true, true⟩,
        .flushPartial 0 true true, .slot (slotOf [⟨0x0#32, 64, 1128, 2⟩]),
        .sub ⟨true, true, true, true, true⟩] :=
  continuous_of_seamKept Config.driver blank blank _ (by decide) (by decide)

/-- The jump skips 1025 slots of 64 samples each. The lane's partial local packet is continued
behind it, and queued with the skipped time inside. -/
theorem jump_forward_leaves_seam :
    ¬∀ (config : Config) (usbBuf localBuf : Nat → Packet) (events : List Event),
      Guarded (next config) FirmwareStream (Producer.init usbBuf localBuf) events →
        Always (next config) ShippedContinuous (Producer.init usbBuf localBuf) events := by
  intro h
  have hqueued : Always (next Config.driver) ShippedContinuous (Producer.init blank blank)
      [.slot (slotOf [⟨0x0#32, 64, 1000, 2⟩]),
        .sub ⟨false, false, false, true, true⟩,
        .jumpForward,
        .slot (slotOf [⟨0x0#32, 64, 66664, 2⟩, ⟨0x100#32, 64, 70000, 2⟩]),
        .sub ⟨false, false, false, true, true⟩, .sub ⟨false, false, false, true, true⟩] :=
    h _ _ _ _ (by decide)
  exact absurd hqueued (by decide +kernel)

end Producer

end RfnmDriver.Rx
