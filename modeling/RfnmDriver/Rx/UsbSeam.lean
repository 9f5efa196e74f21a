import RfnmDriver.Rx.Producer
import RfnmDriver.Rx.SeamLog

/-!
# Seams between the packets of a USB lane

The host takes two packets of a lane with consecutive `usb_cc`, one epoch and no DISCONT on the
second for one stretch of samples. `UsbWatch` is the producer with the log of what each lane staged,
and `SeamsHonest` the property of the logs. A lane that drops, jumps or stands down marks itself;
two things go unmarked, and `SeamDeclared` is the condition that they do not happen: a header
overwritten by another lane in the same slot, and a stream reset. `stagedHonest_of_declared` is the
result for runs, `stagedHonest_of_oneLane` what it says where one lane streams, and
`shared_slot_breaks_seam` the run of two lanes with a seam.
-/

namespace RfnmDriver.Rx

open StepSystem Ownership

/-- The producer, and what each USB lane handed to requests. -/
structure UsbWatch where
  producer : Producer
  logs : Fin 4 → LaneLog

namespace UsbWatch

variable (config : Config) (watch : UsbWatch)

/-- The module init. -/
def init (usbBuf localBuf : Nat → Packet) : UsbWatch :=
  ⟨Producer.init usbBuf localBuf, fun _ => .fresh⟩

/-- The lane's packet is staged. -/
def staged (lane : Fin 4) : Fin 4 → LaneLog :=
  Function.update watch.logs lane ((watch.logs lane).ship (watch.producer.rxUsb.minted lane)
    (rateOf (watch.producer.history.last lane)))

/-- The logs after a step: a packet is staged by a sub-buffer that forces it out, or because it
aged, if there is a request for it. -/
def logged : Event → Fin 4 → LaneLog
  | .sub env =>
      match watch.producer.accepted with
      | some (lane, sub) =>
          if watch.producer.rxUsb.Flushes lane config.elems sub ∧
              ¬watch.producer.Refused config env.usbAlive env.headGrace then watch.staged lane
          else watch.logs
      | none => watch.logs
  | .flushPartial lane usbAlive headGrace =>
      if watch.producer.rxUsb.Filling lane ∧ ¬watch.producer.Refused config usbAlive headGrace then
        watch.staged lane
      else watch.logs
  | _ => watch.logs

/-- A step of the producer. -/
def next (event : Event) : Option UsbWatch :=
  (watch.producer.next config event).map fun following => ⟨following, watch.logged config event⟩

/-! ## The property and the condition -/

/-- On every lane, each packet staged is honest with the one staged before it. -/
def SeamsHonest : Prop :=
  ∀ lane, (watch.logs lane).shipped.IsChain Shipment.Honest

/-- A packet the sub-buffer begins goes into a slot no other lane's partial packet is in; and the
first sub-buffer of a lane after a stream reset is flagged, or resumes what the lane staged last. -/
def DeclaredFor (env : SubEnv) (lane : Fin 4) (sub : SubBuffer) : Prop :=
  (¬watch.producer.rxUsb.Flushes lane config.elems sub → ¬watch.producer.rxUsb.Filling lane →
    Unowned watch.producer.rxUsb.owned lane (watch.producer.rxUsb.adcBuf lane) ∧
      (watch.producer.history.last lane = none →
        watch.producer.rxUsb.Ready lane (watch.logs lane) sub)) ∧
  (watch.producer.rxUsb.Flushes lane config.elems sub →
    ¬watch.producer.Refused config env.usbAlive env.headGrace →
      Unowned watch.producer.rxUsb.owned lane watch.producer.rxUsb.head)

/-- No step but a sub-buffer begins a packet. -/
def SeamDeclared : Event → Prop
  | .sub env => ∀ pair ∈ watch.producer.accepted, watch.DeclaredFor config env pair.1 pair.2
  | _ => True

instance (env : SubEnv) (lane : Fin 4) (sub : SubBuffer) :
    Decidable (watch.DeclaredFor config env lane sub) :=
  inferInstanceAs (Decidable ((_ → _ → _ ∧ (_ → _)) ∧ (_ → _ → _)))

instance (event : Event) : Decidable (watch.SeamDeclared config event) := by
  rcases event <;> unfold SeamDeclared
  case sub => exact Option.decidableForallMem _
  all_goals infer_instance

instance : Decidable watch.SeamsHonest :=
  inferInstanceAs (Decidable (∀ _, _))

/-- The firmware's side, for the producer watched. -/
def StampsContinue (event : Event) : Prop :=
  watch.producer.StampsContinue event

instance (event : Event) : Decidable (watch.StampsContinue event) :=
  inferInstanceAs (Decidable (watch.producer.StampsContinue event))

variable {config watch} {following : UsbWatch} {lane : Fin 4} {sub : SubBuffer} {env : SubEnv}
  {event : Event}

/-! ## The invariant -/

/-- Every lane keeps its trail, and during a stand-down there is no partial packet. -/
structure Inv (watch : UsbWatch) : Prop where
  trails : watch.producer.rxUsb.Trails watch.producer.history.last watch.logs
  idle : watch.producer.standdownActive = true → watch.producer.SlotDone ∧
    watch.producer.rxUsb.adcBufSize = fun _ => 0

/-- Trails are honest. -/
theorem Inv.seamsHonest (h : watch.Inv) : watch.SeamsHonest := by
  intro lane
  exact (h.trails.lane lane).linked.isChain.imp fun first second hjoins => hjoins.honest

/-- The module init. -/
theorem init_inv (usbBuf localBuf : Nat → Packet) : (init usbBuf localBuf).Inv where
  trails :=
    { slots := fun first second slot hfirst => by
        rw [Assembler.owned_of_clear rfl] at hfirst
        cases hfirst
      lane := fun lane => Assembler.trail_init usbBuf lane }
  idle := by simp [init, Producer.init]

/-! ## Steps -/

/-- Whatever becomes of the packet it forces out, the sub-buffer finds the lane poised. -/
theorem Inv.flushUsb (h : watch.Inv) (haccepted : watch.producer.accepted = some (lane, sub))
    (hstream : watch.StampsContinue (.sub env))
    (hdeclared : watch.SeamDeclared config (.sub env)) :
    (watch.producer.flushUsb config lane sub env).rxUsb.Poised lane sub
      watch.producer.history.last (watch.logged config (.sub env)) := by
  obtain ⟨hstay, hmove⟩ := hdeclared (lane, sub) haccepted
  have hcontinues := hstream (lane, sub) haccepted
  have hsize := (Producer.size_of_accepted haccepted).2.2
  have hfull := config.elemsFit
  unfold Producer.flushUsb
  simp only [logged, haccepted]
  split
  · next hflushes =>
      have hfilling : watch.producer.rxUsb.Filling lane := by
        rcases hflushes with hover | hseam
        · intro hempty
          omega
        · exact hseam.1
      split
      · next hrefused =>
          rw [if_neg fun hship => hship.2 hrefused]
          exact h.trails.dropFor hfilling
      · next hship =>
          rw [if_pos ⟨hflushes, hship⟩]
          exact h.trails.shipFor hfilling hcontinues (hmove hflushes hship)
  · next hstays =>
      rw [if_neg fun hship => hstays hship.1]
      exact h.trails.stay hstays hcontinues (fun hidle => (hstay hstays hidle).1)
        fun hidle => (hstay hstays hidle).2

/-- A declared step keeps the invariant. -/
theorem next_inv (h : watch.Inv) (hstream : watch.StampsContinue event)
    (hdeclared : watch.SeamDeclared config event)
    (hnext : watch.next config event = some following) : following.Inv := by
  obtain ⟨producer, hproducer, rfl⟩ := Option.map_eq_some_iff.mp hnext
  cases event with
  | sub env =>
      -- sub-buffers come only while the stand-down is over
      have hinactive : watch.producer.standdownActive = false :=
        Producer.inactive_of_next (fun hactive => (h.idle hactive).1) hproducer
      rcases Producer.next_sub hproducer with
        ⟨hnone, index, rfl⟩ | ⟨lane, sub, haccepted, rfl⟩
      · have hlogs : watch.logged config (.sub env) = watch.logs := by
          simp only [logged, hnone]
        rw [hlogs]
        refine ⟨h.trails, fun hactive => ?_⟩
        exact absurd (hinactive.symm.trans hactive) Bool.false_ne_true
      · -- a full packet is shipped first, then the sub-buffer is appended to what remains
        obtain ⟨hlast, hactive, -, -⟩ := Producer.acceptSub_frame config watch.producer
          lane sub env
        obtain ⟨hsize, heven, -⟩ := Producer.size_of_accepted haccepted
        refine ⟨?_, fun hstanddown => ?_⟩
        · show Assembler.Trails _ _ (watch.logged config (.sub env))
          rw [hlast, Producer.acceptSub_rxUsb]
          exact (h.flushUsb haccepted hstream hdeclared).append (hstream (lane, sub) haccepted)
            heven hsize
        · exact absurd (hinactive.symm.trans (hactive.symm.trans hstanddown))
            Bool.false_ne_true
  | slot | idlePass =>
      obtain ⟨-, rfl⟩ := of_guard hproducer
      exact ⟨h.trails, fun hactive => absurd hactive Bool.false_ne_true⟩
  | flushPartial lane usbAlive headGrace =>
      obtain ⟨hdone, rfl⟩ := of_guard hproducer
      unfold Producer.flushPartial
      simp only [logged]
      split
      · next hkept =>
          rw [if_neg fun hship => hkept.elim (fun hidle => hidle hship.1) hship.2]
          exact h
      · next hship =>
          simp only [not_or, not_not] at hship
          rw [if_pos hship]
          refine ⟨h.trails.ship hship.1, fun hactive => ?_⟩
          exact absurd (congrFun (h.idle hactive).2 lane) hship.1
  | jumpForward =>
      obtain ⟨-, rfl⟩ := of_guard hproducer
      exact ⟨h.trails.markAll, fun hactive => absurd hactive Bool.false_ne_true⟩
  | standDown =>
      obtain ⟨hdone, rfl⟩ := of_guard hproducer
      unfold Producer.standDown
      split
      · next hactive => exact ⟨h.trails.emptied rfl (h.idle hactive).2, h.idle⟩
      · exact ⟨h.trails.emptied rfl rfl, fun _ => ⟨hdone, rfl⟩⟩
  | reset =>
      obtain ⟨hdone, rfl⟩ := of_guard hproducer
      exact ⟨h.trails.emptied rfl rfl, fun _ => ⟨hdone, rfl⟩⟩
  | _ =>
      obtain ⟨free, untracked, staged, inflight, rfl, -⟩ :=
        Producer.next_requests hproducer trivial
      exact ⟨h.trails, h.idle⟩

/-! ## Runs -/

/-- In every run in which the firmware delivers sub-buffers that continue each other, and every
step declares its seams, the packets staged on every lane are honest. -/
theorem stagedHonest_of_declared (config : Config) (usbBuf localBuf : Nat → Packet)
    (events : List Event)
    (hstream : Guarded (next config) StampsContinue (init usbBuf localBuf) events)
    (hdeclared : Guarded (next config) (SeamDeclared config) (init usbBuf localBuf) events) :
    Always (next config) SeamsHonest (init usbBuf localBuf) events := by
  have hboth : Guarded (next config)
      (fun watch event => watch.StampsContinue event ∧ watch.SeamDeclared config event)
      (init usbBuf localBuf) events := EveryStep.and hstream hdeclared
  have halways : Always (next config) Inv (init usbBuf localBuf) events := by
    refine always_of_guarded (fun state event following h hcondition hnext => ?_)
      (init_inv usbBuf localBuf) hboth
    exact next_inv h hcondition.1 hcondition.2 hnext
  exact halways.mono fun state h => h.seamsHonest

/-- Three packets of one lane: the second after a drop for want of a request, which flags it, and
the third one sub-buffer after the second. -/
theorem stagedHonest_of_declared_run :
    Always (next Config.driver) SeamsHonest (init Producer.blank Producer.blank)
      [.enroll, .slot (Producer.slotOf [⟨0x0#32, 64, 1000, 2⟩]),
        .sub ⟨true, true, true, false, false⟩, .flushPartial 0 true true,
        .slot (Producer.slotOf [⟨0x0#32, 64, 1064, 2⟩, ⟨0x100#32, 64, 1200, 2⟩]),
        .sub ⟨true, true, true, false, false⟩, .sub ⟨true, true, true, false, false⟩,
        .enroll, .enroll, .flushPartial 0 true true,
        .slot (Producer.slotOf [⟨0x0#32, 64, 1264, 2⟩]),
        .sub ⟨true, true, true, false, false⟩, .flushPartial 0 true true] :=
  stagedHonest_of_declared Config.driver Producer.blank Producer.blank _ (by decide) (by decide)

/-! ## The logs and the producer's history -/

/-- A step stages one packet and logs it, or does neither. -/
theorem next_staged (hnext : watch.next config event = some following) :
    (following.producer.history.usbShipped = watch.producer.history.usbShipped ∧
        following.logs = watch.logs) ∨
      ∃ lane, following.producer.history.usbShipped =
          watch.producer.history.usbShipped ++ [watch.producer.rxUsb.minted lane] ∧
        following.logs = watch.staged lane := by
  obtain ⟨producer, hproducer, rfl⟩ := Option.map_eq_some_iff.mp hnext
  cases event with
  | sub env =>
      -- a sub-buffer ships the packet before it if that is full and not refused
      rcases Producer.next_sub hproducer with
        ⟨hnone, index, rfl⟩ | ⟨lane, sub, haccepted, rfl⟩
      · exact Or.inl ⟨rfl, by simp only [logged, hnone]⟩
      · simp only [Producer.acceptSub_usbShipped, logged, haccepted]
        unfold Producer.flushUsb
        split
        · next hflushes =>
            split
            · next hrefused =>
                rw [if_neg fun hship => hship.2 hrefused]
                exact Or.inl ⟨rfl, rfl⟩
            · next hship =>
                rw [if_pos ⟨hflushes, hship⟩]
                exact Or.inr ⟨lane, rfl, rfl⟩
        · next hstays =>
            rw [if_neg fun hship => hstays hship.1]
            exact Or.inl ⟨rfl, rfl⟩
  | flushPartial lane usbAlive headGrace =>
      obtain ⟨-, rfl⟩ := of_guard hproducer
      unfold Producer.flushPartial
      simp only [logged]
      split
      · next hkept =>
          rw [if_neg fun hship => hkept.elim (fun hidle => hidle hship.1) hship.2]
          exact Or.inl ⟨rfl, rfl⟩
      · next hship =>
          simp only [not_or, not_not] at hship
          rw [if_pos hship]
          exact Or.inr ⟨lane, rfl, rfl⟩
  | slot | idlePass | jumpForward | reset =>
      obtain ⟨-, rfl⟩ := of_guard hproducer
      exact Or.inl ⟨rfl, rfl⟩
  | standDown =>
      obtain ⟨-, rfl⟩ := of_guard hproducer
      unfold Producer.standDown
      split <;> exact Or.inl ⟨rfl, rfl⟩
  | _ =>
      obtain ⟨free, untracked, staged, inflight, rfl, -⟩ :=
        Producer.next_requests hproducer trivial
      exact Or.inl ⟨rfl, rfl⟩

/-- In every run the logs hold the packets handed to a request. -/
theorem logs_hold (config : Config) (usbBuf localBuf : Nat → Packet) (events : List Event) :
    Always (next config)
      (fun watch => LogsHold watch.producer.history.usbShipped watch.logs)
      (init usbBuf localBuf) events := by
  refine always_of_inductive (fun watch event following h hnext => ?_) List.Perm.nil
  rcases next_staged hnext with ⟨hshipped, hlogs⟩ | ⟨lane, hshipped, hlogs⟩
  · rw [hshipped, hlogs]
    exact h
  · rw [hshipped, hlogs]
    exact h.ship lane ..

/-! ## Where one lane streams -/

/-- Every sub-buffer accepted is of this lane, and the stream is not reset. -/
def OneLane (lane : Fin 4) (watch : UsbWatch) : Event → Prop
  | .sub _ => ∀ pair ∈ watch.producer.accepted, pair.1 = lane
  | .reset => False
  | _ => True

/-- The other lanes have no partial packet; and where the producer passed over sub-buffers of the
lane, the lane is marked. -/
structure Alone (lane : Fin 4) (watch : UsbWatch) : Prop extends watch.Inv where
  others : ∀ other, other ≠ lane → watch.producer.rxUsb.adcBufSize other = 0
  known : watch.producer.history.last lane = none →
    watch.producer.rxUsb.jumpDiscont lane = true ∨
      (watch.logs lane = .fresh ∧ watch.producer.rxUsb.adcBufSize lane = 0)
  marked : watch.producer.standdownActive = true → watch.producer.rxUsb.jumpDiscont lane = true

/-- Then every slot is free for the lane, and it is ready for its first sub-buffer. -/
theorem Alone.declared (h : watch.Alone lane) (hone : watch.OneLane lane event) :
    watch.SeamDeclared config event := by
  cases event with
  | sub env =>
      intro pair hpair
      obtain rfl : pair.1 = lane := hone pair hpair
      have hfree : ∀ slot, Unowned watch.producer.rxUsb.owned pair.1 slot := by
        intro slot other hne howns
        exact (Assembler.mem_owned.mp howns).1 (h.others other hne)
      refine ⟨fun _ _ => ⟨hfree _, fun hnone => ?_⟩, fun _ _ => hfree _⟩
      rcases h.known hnone with hmark | ⟨hfresh, -⟩
      · exact Or.inl hmark
      · rw [hfresh]
        exact Or.inr (Or.inr ⟨rfl, nofun⟩)
  | _ => trivial

/-- A flush leaves the fill of the other lanes alone. -/
theorem flushUsb_others {producer : Producer} {other : Fin 4} (hne : other ≠ lane) :
    (producer.flushUsb config lane sub env).rxUsb.adcBufSize other =
      producer.rxUsb.adcBufSize other := by
  unfold Producer.flushUsb
  split
  · split
    · exact (Assembler.spared_drop hne).size
    · exact (Assembler.spared_ship hne).size
  · rfl

/-- A sub-buffer of the lane leaves it alone. -/
theorem Alone.accept (h : watch.Alone lane) (hone : watch.OneLane lane (.sub env))
    (hnext : watch.next config (.sub env) = some following) (hinv : following.Inv) :
    following.Alone lane := by
  obtain ⟨producer, hproducer, rfl⟩ := Option.map_eq_some_iff.mp hnext
  have hinactive : watch.producer.standdownActive = false :=
    Producer.inactive_of_next (fun hactive => (h.idle hactive).1) hproducer
  rcases Producer.next_sub hproducer with ⟨hnone, index, rfl⟩ | ⟨other, sub, haccepted, rfl⟩
  · have hlogs : watch.logged config (.sub env) = watch.logs := by
      simp only [logged, hnone]
    refine ⟨hinv, h.others, ?_, h.marked⟩
    show _ → _ ∨ (watch.logged config (.sub env) lane = .fresh ∧ _)
    rw [hlogs]
    exact h.known
  · obtain rfl : other = lane := hone (other, sub) haccepted
    obtain ⟨hlast, hactive, -, -⟩ := Producer.acceptSub_frame config watch.producer other sub env
    refine ⟨hinv, fun third hne => ?_, fun hnone => ?_, fun hstanddown => ?_⟩
    · show (watch.producer.acceptSub config other sub env).rxUsb.adcBufSize third = 0
      rw [Producer.acceptSub_rxUsb]
      simp only [Assembler.append, Function.update_of_ne hne]
      exact (flushUsb_others hne).trans (h.others third hne)
    · simp [hlast] at hnone
    · exact absurd (hinactive.symm.trans (hactive.symm.trans hstanddown)) Bool.false_ne_true

/-- A flush of a partial packet is one of the lane's, or does nothing. -/
theorem Alone.flushPartial (h : watch.Alone lane) {other : Fin 4} {usbAlive headGrace : Bool}
    (hnext : watch.next config (.flushPartial other usbAlive headGrace) = some following)
    (hinv : following.Inv) : following.Alone lane := by
  obtain ⟨producer, hproducer, rfl⟩ := Option.map_eq_some_iff.mp hnext
  obtain ⟨-, rfl⟩ := of_guard hproducer
  by_cases hship : watch.producer.rxUsb.Filling other ∧
      ¬watch.producer.Refused config usbAlive headGrace
  · obtain rfl : other = lane := by
      by_contra hne
      exact hship.1 (h.others other hne)
    -- a packet begun before sub-buffers were passed over is that of a marked lane
    have hmark : watch.producer.history.last other = none →
        watch.producer.rxUsb.jumpDiscont other = true := by
      intro hnone
      exact (h.known hnone).resolve_right fun hidle => hship.1 hidle.2
    have hflush : watch.producer.flushPartial config other usbAlive headGrace =
        watch.producer.shipUsb config other := by
      unfold Producer.flushPartial
      rw [if_neg fun hkept => hkept.elim (fun hidle => hidle hship.1) hship.2]
    rw [hflush] at hinv ⊢
    refine ⟨hinv, fun third hne => ?_, fun hnone => Or.inl (hmark hnone), h.marked⟩
    exact (Assembler.spared_ship hne).size.trans (h.others third hne)
  · have hflush : watch.producer.flushPartial config other usbAlive headGrace =
        watch.producer := by
      unfold Producer.flushPartial
      rw [if_pos ((not_and_or.mp hship).imp_right not_not.mp)]
    have hlogs : watch.logged config (.flushPartial other usbAlive headGrace) = watch.logs := by
      simp only [logged, if_neg hship]
    rw [hflush, hlogs]
    exact h

/-- A step of one lane leaves it alone. -/
theorem Alone.step (h : watch.Alone lane) (hstream : watch.StampsContinue event)
    (hone : watch.OneLane lane event) (hnext : watch.next config event = some following) :
    following.Alone lane := by
  have hinv : following.Inv := next_inv h.toInv hstream (h.declared hone) hnext
  cases event with
  | sub env => exact h.accept hone hnext hinv
  | flushPartial other usbAlive headGrace => exact h.flushPartial hnext hinv
  | reset => exact hone.elim
  | slot | idlePass =>
      obtain ⟨producer, hproducer, rfl⟩ := Option.map_eq_some_iff.mp hnext
      obtain ⟨-, rfl⟩ := of_guard hproducer
      exact ⟨hinv, h.others, h.known, fun hactive => absurd hactive Bool.false_ne_true⟩
  | jumpForward =>
      obtain ⟨producer, hproducer, rfl⟩ := Option.map_eq_some_iff.mp hnext
      obtain ⟨-, rfl⟩ := of_guard hproducer
      exact ⟨hinv, h.others, fun _ => Or.inl rfl,
        fun hactive => absurd hactive Bool.false_ne_true⟩
  | standDown =>
      obtain ⟨producer, hproducer, rfl⟩ := Option.map_eq_some_iff.mp hnext
      obtain ⟨-, rfl⟩ := of_guard hproducer
      unfold Producer.standDown at hinv ⊢
      split at hinv
      · next hactive =>
          rw [if_pos hactive]
          exact ⟨hinv, h.others, fun _ => Or.inl (h.marked hactive), h.marked⟩
      · next hinactive =>
          rw [if_neg hinactive]
          exact ⟨hinv, fun _ _ => rfl, fun _ => Or.inl rfl, fun _ => rfl⟩
  | _ =>
      obtain ⟨producer, hproducer, rfl⟩ := Option.map_eq_some_iff.mp hnext
      obtain ⟨free, untracked, staged, inflight, rfl, -⟩ :=
        Producer.next_requests hproducer trivial
      exact ⟨hinv, h.others, h.known, h.marked⟩

/-- In every run in which one lane streams and no stream reset falls, whatever is dropped, jumped
over, stood down or flushed early, the packets it stages are honest. -/
theorem stagedHonest_of_oneLane (config : Config) (usbBuf localBuf : Nat → Packet) (lane : Fin 4)
    (events : List Event)
    (hstream : Guarded (next config) StampsContinue (init usbBuf localBuf) events)
    (hone : Guarded (next config) (OneLane lane) (init usbBuf localBuf) events) :
    Always (next config) SeamsHonest (init usbBuf localBuf) events := by
  have hboth : Guarded (next config)
      (fun watch event => watch.StampsContinue event ∧ watch.OneLane lane event)
      (init usbBuf localBuf) events := EveryStep.and hstream hone
  have hstart : (init usbBuf localBuf).Alone lane :=
    ⟨init_inv usbBuf localBuf, fun _ _ => rfl, fun _ => Or.inr ⟨rfl, rfl⟩, nofun⟩
  have halways : Always (next config) (Alone lane) (init usbBuf localBuf) events := by
    refine always_of_guarded (fun state event following h hcondition hnext => ?_) hstart hboth
    exact h.step hcondition.1 hcondition.2 hnext
  exact halways.mono fun state h => h.seamsHonest

/-- From the module init every lane is parked on slot 0, and lane 0 gets slot 0 once more after its
first packet. It begins the next one over the header of lane 1, whose packet is staged with that
stamp; the next one of lane 1 overlaps it and is not flagged. -/
theorem shared_slot_breaks_seam :
    ¬∀ (config : Config) (usbBuf localBuf : Nat → Packet) (events : List Event),
      Guarded (next config) StampsContinue (init usbBuf localBuf) events →
        Always (next config) SeamsHonest (init usbBuf localBuf) events := by
  intro h
  have hstaged : Always (next Config.driver) SeamsHonest (init Producer.blank Producer.blank)
      [.enroll, .enroll, .enroll,
        .slot (Producer.slotOf [⟨0x0#32, 64, 1000, 2⟩, ⟨0x1#32, 64, 1000, 2⟩]),
        .sub ⟨true, true, true, false, false⟩, .sub ⟨true, true, true, false, false⟩,
        .flushPartial 0 true true,
        .slot (Producer.slotOf [⟨0x0#32, 64, 1064, 2⟩, ⟨0x1#32, 64, 1064, 2⟩]),
        .sub ⟨true, true, true, false, false⟩, .sub ⟨true, true, true, false, false⟩,
        .flushPartial 1 true true,
        .slot (Producer.slotOf [⟨0x1#32, 64, 1128, 2⟩]),
        .sub ⟨true, true, true, false, false⟩, .flushPartial 1 true true] :=
    h _ _ _ _ (by decide)
  exact absurd hstaged (by decide)

end UsbWatch

end RfnmDriver.Rx
