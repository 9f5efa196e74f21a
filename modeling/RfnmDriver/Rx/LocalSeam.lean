import RfnmDriver.Rx.LocalDelivery

/-!
# Seams between the packets of a local lane

A consumer that gets two packets of a lane with consecutive `usb_cc`, one epoch and no DISCONT on
the second takes them for one stretch of samples. A cull needs no flag for that, since the packets
it takes off have their `usb_cc` already: whatever the consumers miss, the numbers tell whether two
packets were neighbours when they were queued. A packet for which there is no element gets no
number, and the lane is not marked for it; and a slot may get a new header while its packet is still
queued. `SeamDeclared` is the condition that neither shows. `deliveredHonest_of_declared` is the
result for runs, and `lost_packet_undeclared` the run with a hole.
-/

namespace RfnmDriver.Rx

open StepSystem Ownership NumberedLog

namespace Shipment

/-- What a consumer may conclude about losses: where complete packets of the lane are missing
between two that it got, the second carries DISCONT or its `usb_cc` does not follow. -/
def LossDeclared (first second : Shipment) : Prop :=
  second.serial ≠ first.serial + 1 →
    second.packet.discont = true ∨ second.packet.usbCc ≠ first.packet.usbCc + 1

/-- The same for the first packet a consumer gets. -/
def FirstDeclared (shipment : Shipment) : Prop :=
  shipment.serial ≠ 1 → shipment.packet.discont = true ∨ shipment.packet.usbCc ≠ 1

instance (first second : Shipment) : Decidable (first.LossDeclared second) :=
  inferInstanceAs (Decidable (_ → _))

instance (shipment : Shipment) : Decidable shipment.FirstDeclared :=
  inferInstanceAs (Decidable (_ → _))

/-- A packet read later: its header is the original's, but that it may have been flagged since. -/
structure Shows (shipment original : Shipment) : Prop where
  rate : shipment.rate = original.rate
  serial : shipment.serial = original.serial
  phytimer : shipment.packet.phytimer = original.packet.phytimer
  epoch : shipment.packet.epoch = original.packet.epoch
  elemCnt : shipment.packet.elemCnt = original.packet.elemCnt
  usbCc : shipment.packet.usbCc = original.packet.usbCc
  discont : original.packet.discont = true → shipment.packet.discont = true

instance (shipment original : Shipment) : Decidable (shipment.Shows original) :=
  decidable_of_iff (shipment.rate = original.rate ∧ shipment.serial = original.serial ∧
      shipment.packet.phytimer = original.packet.phytimer ∧
      shipment.packet.epoch = original.packet.epoch ∧
      shipment.packet.elemCnt = original.packet.elemCnt ∧
      shipment.packet.usbCc = original.packet.usbCc ∧
      (original.packet.discont = true → shipment.packet.discont = true))
    ⟨fun ⟨hrate, hserial, hphytimer, hepoch, helemCnt, hcc, hdiscont⟩ =>
      ⟨hrate, hserial, hphytimer, hepoch, helemCnt, hcc, hdiscont⟩,
    fun h => ⟨h.rate, h.serial, h.phytimer, h.epoch, h.elemCnt, h.usbCc, h.discont⟩⟩

variable {first second original next : Shipment}

/-- Packets whose originals are neighbours in a log are honest and declare their losses. -/
theorem Shows.declared (hfirst : first.Shows original) (hsecond : second.Shows next)
    (hjoins : next.packet.usbCc = original.packet.usbCc + 1 → Joins (some original) next) :
    first.Honest second ∧ first.LossDeclared second := by
  have hend : first.endTick = original.endTick := by
    rw [endTick, endTick, hfirst.phytimer, hfirst.rate, hfirst.elemCnt]
  constructor
  · intro hcc hepoch hdiscont
    rw [hsecond.usbCc, hfirst.usbCc] at hcc
    rw [hsecond.epoch, hfirst.epoch] at hepoch
    rw [hsecond.phytimer, hend]
    rcases (hjoins hcc).2 with hmarked | hresumes
    · exact absurd ((hsecond.discont hmarked).symm.trans hdiscont) (by decide)
    · exact hresumes.2 original rfl hepoch
  · intro hserial
    by_cases hcc : second.packet.usbCc = first.packet.usbCc + 1
    · left
      rw [hsecond.usbCc, hfirst.usbCc] at hcc
      rw [hsecond.serial, hfirst.serial] at hserial
      exact hsecond.discont ((hjoins hcc).2.resolve_right fun hresumes => hserial hresumes.1)
    · exact Or.inr hcc

/-- A packet whose original may be the first of a log declares what is missing before it. -/
theorem Shows.firstDeclared (hfirst : first.Shows original)
    (hjoins : original.packet.usbCc = 1 → Joins none original) : first.FirstDeclared := by
  intro hserial
  by_cases hcc : first.packet.usbCc = 1
  · left
    rw [hfirst.usbCc] at hcc
    rw [hfirst.serial] at hserial
    exact hfirst.discont ((hjoins hcc).2.resolve_right fun hresumes => hserial hresumes.1)
  · exact Or.inr hcc

end Shipment

namespace LocalDelivery

variable (config : Config) (delivery : LocalDelivery)

/-! ## The property and the condition -/

/-- On every lane, each packet the consumers got is honest with the one before it, and declares the
packets missing between the two. -/
def SeamsHonest : Prop :=
  ∀ lane,
    (delivery.delivered lane).IsChain
      (fun first second => first.Honest second ∧ first.LossDeclared second) ∧
    ∀ first ∈ (delivery.delivered lane).head?, first.FirstDeclared

/-- A packet the sub-buffer begins goes into a slot no other lane's partial packet is in; a packet
that it forces out finds an element, or the loss is flagged; and the first sub-buffer of a lane
after a stream reset is flagged, or resumes what the lane queued last. -/
def DeclaredFor (env : SubEnv) (lane : Fin 4) (sub : SubBuffer) : Prop :=
  (¬delivery.producer.rxLocal.Flushes lane config.localFull sub →
    ¬delivery.producer.rxLocal.Filling lane →
      Unowned delivery.producer.rxLocal.owned lane (delivery.producer.rxLocal.adcBuf lane) ∧
        (delivery.producer.history.last lane = none →
          delivery.producer.rxLocal.Ready lane (delivery.logs lane) sub)) ∧
  (delivery.producer.rxLocal.Flushes lane config.localFull sub →
    delivery.producer.rxLocal.Filling lane ∧
      Unowned delivery.producer.rxLocal.owned lane delivery.producer.rxLocal.head ∧
      (env.localFree = false →
        delivery.producer.rxLocal.jumpDiscont lane = true ∨ sub.discont = true))

/-- Only a sub-buffer that finds the local consumer alive begins or completes a packet. -/
def StepDeclared : Event → Prop
  | .sub env => env.localAlive = true → ∀ pair ∈ delivery.producer.accepted,
      delivery.DeclaredFor config env pair.1 pair.2
  | _ => True

/-- A packet that a consumer gets is still in its slot. -/
def SeamDeclared : DeliveryEvent → Prop
  | .producer event => delivery.StepDeclared config event
  | .dequeueRef | .copyDequeue =>
      ∀ ele ∈ delivery.queue.head?, (delivery.seen ele).Shows ele.shipment
  | _ => True

/-- The firmware's side. -/
def StampsContinue : DeliveryEvent → Prop
  | .producer event => delivery.producer.StampsContinue event
  | _ => True

instance : Decidable delivery.SeamsHonest :=
  have (lane : Fin 4) : Decidable (∀ first ∈ (delivery.delivered lane).head?,
      first.FirstDeclared) := Option.decidableForallMem _
  inferInstanceAs (Decidable (∀ _, _ ∧ _))

instance (env : SubEnv) (lane : Fin 4) (sub : SubBuffer) :
    Decidable (delivery.DeclaredFor config env lane sub) :=
  inferInstanceAs (Decidable ((_ → _ → _ ∧ (_ → _)) ∧ (_ → _ ∧ _ ∧ (_ → _ ∨ _))))

instance (event : Event) : Decidable (delivery.StepDeclared config event) := by
  rcases event <;> unfold StepDeclared
  case sub env =>
    have : Decidable (∀ pair ∈ delivery.producer.accepted,
        delivery.DeclaredFor config env pair.1 pair.2) := Option.decidableForallMem _
    infer_instance
  all_goals infer_instance

instance (event : DeliveryEvent) : Decidable (delivery.SeamDeclared config event) := by
  have : Decidable (∀ ele ∈ delivery.queue.head?, (delivery.seen ele).Shows ele.shipment) :=
    Option.decidableForallMem _
  rcases event <;> unfold SeamDeclared <;> infer_instance

instance (event : DeliveryEvent) : Decidable (delivery.StampsContinue event) := by
  rcases event <;> unfold StampsContinue <;> infer_instance

/-! ## The invariant -/

variable {config delivery} {following : LocalDelivery} {lane : Fin 4} {sub : SubBuffer}
  {env : SubEnv} {assembler : Assembler} {logs : Fin 4 → LaneLog} {rest : List QueueEle}

/-- Every lane keeps its trail, every element queued is in the log of its lane, and so is what the
consumers got. -/
structure Inv (delivery : LocalDelivery) : Prop where
  trails : delivery.producer.rxLocal.Trails delivery.producer.history.last delivery.logs
  queued : ∀ ele ∈ delivery.queue, ele.shipment ∈ (delivery.logs ele.lane).shipped
  got : ∀ lane, ∀ shipment ∈ delivery.delivered lane,
    ∃ original ∈ (delivery.logs lane).shipped, shipment.Shows original
  idle : delivery.producer.standdownActive = true → delivery.producer.SlotDone ∧
    delivery.producer.rxLocal.adcBufSize = fun _ => 0

/-- The numbers tell which packets were neighbours. -/
theorem Inv.seamsHonest (h : delivery.Inv) : delivery.SeamsHonest := by
  intro lane
  have hlinked := (h.trails.lane lane).linked
  constructor
  · refine List.isChain_iff_getElem.mpr fun index hindex => ?_
    have hbefore : index < (delivery.delivered lane).length := by omega
    obtain ⟨original, horiginal, hshows⟩ := h.got lane _ (List.getElem_mem hbefore)
    obtain ⟨next, hnext, hnextShows⟩ := h.got lane _ (List.getElem_mem hindex)
    refine hshows.declared hnextShows fun hsucc => ?_
    exact hlinked.of_succ Shipment.numbers_joins horiginal hnext hsucc
  · intro first hfirst
    obtain ⟨original, horiginal, hshows⟩ := h.got lane first (List.mem_of_mem_head? hfirst)
    refine hshows.firstDeclared fun hone => ?_
    exact hlinked.of_next Shipment.numbers_joins horiginal hone

/-- The module init. -/
theorem init_inv (config : Config) (usbBuf localBuf : Nat → Packet) :
    (init config usbBuf localBuf).Inv where
  trails :=
    { slots := fun first second slot hfirst => by
        have howned : (init config usbBuf localBuf).producer.rxLocal.owned = fun _ => none :=
          Assembler.owned_of_clear rfl
        rw [howned] at hfirst
        cases hfirst
      lane := fun lane => Assembler.trail_init localBuf lane }
  queued := nofun
  got := nofun
  idle := nofun

/-! ## What the producer does to the queue -/

/-- A log of another lane, or one that grew, has what it had. -/
theorem subset_update {log : LaneLog} (hlog : (logs lane).shipped ⊆ log.shipped) (other : Fin 4) :
    (logs other).shipped ⊆ (Function.update logs lane log other).shipped := by
  by_cases hsame : other = lane
  · subst hsame
    rw [Function.update_self]
    exact hlog
  · rw [Function.update_of_ne hsame]
    exact List.Subset.refl _

/-- The logs only grow, what is queued is logged, and what the consumers got is not touched. -/
theorem Inv.onProducer (h : delivery.Inv) (config : Config) (event : Event) :
    (∀ other, (delivery.logs other).shipped ⊆
        ((delivery.onProducer config event).logs other).shipped) ∧
      (∀ ele ∈ (delivery.onProducer config event).queue,
        ele.shipment ∈ ((delivery.onProducer config event).logs ele.lane).shipped) ∧
      (delivery.onProducer config event).delivered = delivery.delivered := by
  have hkept : ∀ other, (delivery.logs other).shipped ⊆ (delivery.logs other).shipped :=
    fun _ => List.Subset.refl _
  cases event with
  | sub env =>
      simp only [LocalDelivery.onProducer]
      split
      · next lane sub haccepted =>
          split
          · split
            · have hgrows : ∀ other, (delivery.logs other).shipped ⊆
                  ((delivery.enqueue lane).logs other).shipped :=
                subset_update (List.subset_append_left ..)
              refine ⟨hgrows, fun ele hele => ?_, rfl⟩
              rcases List.mem_append.mp hele with hqueued | hnew
              · exact hgrows ele.lane (h.queued ele hqueued)
              · obtain rfl := List.mem_singleton.mp hnew
                simp [enqueue, shipment, LaneLog.ship]
            · have hgrows : ∀ other, (delivery.logs other).shipped ⊆
                  ((delivery.lose lane).logs other).shipped :=
                subset_update (List.Subset.refl _)
              exact ⟨hgrows, fun ele hele => hgrows ele.lane (h.queued ele hele), rfl⟩
          · exact ⟨hkept, h.queued, rfl⟩
      · exact ⟨hkept, h.queued, rfl⟩
  | reset => exact ⟨hkept, fun ele hele => absurd hele List.not_mem_nil, rfl⟩
  | _ => exact ⟨hkept, h.queued, rfl⟩

/-- With the lanes in order, the rest of the invariant follows. -/
theorem Inv.afterProducer (h : delivery.Inv) {event : Event} {producer : Producer}
    (htrails : producer.rxLocal.Trails producer.history.last
      (delivery.onProducer config event).logs)
    (hidle : producer.standdownActive = true → producer.SlotDone ∧
      producer.rxLocal.adcBufSize = fun _ => 0) :
    { delivery.onProducer config event with producer := producer : LocalDelivery }.Inv := by
  obtain ⟨hgrows, hqueued, hdelivered⟩ := h.onProducer config event
  refine ⟨htrails, hqueued, fun lane shipment hshipment => ?_, hidle⟩
  obtain ⟨original, horiginal, hshows⟩ := h.got lane shipment (hdelivered ▸ hshipment)
  exact ⟨original, hgrows lane horiginal, hshows⟩

/-! ## The producer's steps -/

/-- Queued, lost or kept, the packet before it leaves the lane poised for the sub-buffer. -/
theorem Inv.flushLocal (h : delivery.Inv)
    (haccepted : delivery.producer.accepted = some (lane, sub))
    (hstream : ∀ before ∈ delivery.producer.history.last lane, sub.Continues before)
    (halive : env.localAlive = true) (hdeclared : delivery.DeclaredFor config env lane sub) :
    (delivery.producer.flushLocal config lane sub env).rxLocal.Poised lane sub
      delivery.producer.history.last (delivery.onProducer config (.sub env)).logs := by
  obtain ⟨hstay, hmove⟩ := hdeclared
  unfold Producer.flushLocal
  simp only [LocalDelivery.onProducer, haccepted, halive, true_and]
  split
  · next hflushes =>
      obtain ⟨hfilling, hunowned, hflagged⟩ := hmove hflushes
      split
      · exact h.trails.shipFor hfilling hstream hunowned
      · next hnone => exact h.trails.loseFor (hflagged (by simpa using hnone)) hunowned
  · next hstays =>
      exact h.trails.stay hstays hstream (fun hidle => (hstay hstays hidle).1)
        fun hidle => (hstay hstays hidle).2

/-- The local lane takes the sub-buffer, or is marked for a dead consumer. -/
theorem Inv.localLane (h : delivery.Inv)
    (haccepted : delivery.producer.accepted = some (lane, sub))
    (hstream : ∀ before ∈ delivery.producer.history.last lane, sub.Continues before)
    (hdeclared : delivery.StepDeclared config (.sub env)) :
    (delivery.producer.localLane config lane sub env).rxLocal.Trails
      (Function.update delivery.producer.history.last lane (some sub))
      (delivery.onProducer config (.sub env)).logs := by
  obtain ⟨hsize, heven, -⟩ := Producer.size_of_accepted haccepted
  unfold Producer.localLane
  split
  · next halive =>
      have hpoised := h.flushLocal haccepted hstream halive
        (hdeclared halive (lane, sub) haccepted)
      exact hpoised.append hstream heven hsize
  · next hdead =>
      have hpool : delivery.onProducer config (.sub env) = delivery := by
        simp only [LocalDelivery.onProducer, haccepted]
        rw [if_neg fun hships => hdead hships.1]
      rw [hpool]
      exact h.trails.drop fun other hne => Function.update_of_ne hne ..

/-- A declared step of the producer keeps the invariant. -/
theorem onProducer_inv (h : delivery.Inv) {event : Event}
    (hstream : delivery.producer.StampsContinue event)
    (hdeclared : delivery.StepDeclared config event) {producer : Producer}
    (hproducer : delivery.producer.next config event = some producer) :
    { delivery.onProducer config event with producer := producer : LocalDelivery }.Inv := by
  cases event with
  | sub env =>
      -- sub-buffers come only while the stand-down is over
      have hinactive : delivery.producer.standdownActive = false :=
        Producer.inactive_of_next (fun hactive => (h.idle hactive).1) hproducer
      rcases Producer.next_sub hproducer with
        ⟨hnone, index, rfl⟩ | ⟨lane, sub, haccepted, rfl⟩
      · have hpool : delivery.onProducer config (.sub env) = delivery := by
          simp only [onProducer, hnone]
        rw [hpool]
        refine ⟨h.trails, h.queued, h.got, fun hactive => ?_⟩
        exact absurd (hinactive.symm.trans hactive) Bool.false_ne_true
      · obtain ⟨hlast, hactive, -, -⟩ := Producer.acceptSub_frame config delivery.producer lane sub
          env
        refine h.afterProducer ?_ fun hstanddown => ?_
        · rw [hlast, (Producer.acceptSub_rxLocal config delivery.producer lane sub env).1]
          exact h.localLane haccepted (hstream (lane, sub) haccepted) hdeclared
        · exact absurd (hinactive.symm.trans (hactive.symm.trans hstanddown))
            Bool.false_ne_true
  | slot | idlePass =>
      obtain ⟨-, rfl⟩ := of_guard hproducer
      exact ⟨h.trails, h.queued, h.got, fun hactive => absurd hactive Bool.false_ne_true⟩
  | flushPartial lane usbAlive headGrace =>
      obtain ⟨-, rfl⟩ := of_guard hproducer
      unfold Producer.flushPartial
      split <;> exact ⟨h.trails, h.queued, h.got, h.idle⟩
  | jumpForward =>
      obtain ⟨-, rfl⟩ := of_guard hproducer
      exact ⟨h.trails.markAll, h.queued, h.got,
        fun hactive => absurd hactive Bool.false_ne_true⟩
  | standDown =>
      obtain ⟨hdone, rfl⟩ := of_guard hproducer
      unfold Producer.standDown
      split
      · next hactive =>
          exact ⟨h.trails.emptied rfl (h.idle hactive).2, h.queued, h.got, h.idle⟩
      · exact ⟨h.trails.emptied rfl rfl, h.queued, h.got, fun _ => ⟨hdone, rfl⟩⟩
  | reset =>
      obtain ⟨hdone, rfl⟩ := of_guard hproducer
      exact ⟨h.trails.emptied rfl rfl, fun ele hele => absurd hele List.not_mem_nil, h.got,
        fun _ => ⟨hdone, rfl⟩⟩
  | _ =>
      obtain ⟨free, untracked, staged, inflight, rfl, -⟩ :=
        Producer.next_requests hproducer trivial
      exact ⟨h.trails, h.queued, h.got, h.idle⟩

/-! ## The consumers' steps -/

/-- The slot of a queued packet may have become that of a partial one: a flag there marks it too. -/
theorem Inv.flag (h : delivery.Inv) (addr : Nat) : (delivery.flag addr).Inv := by
  refine ⟨⟨h.trails.slots, fun lane => ?_⟩, h.queued, h.got, h.idle⟩
  have hlane := h.trails.lane lane
  by_cases hsame : delivery.producer.rxLocal.adcBuf lane = addr
  · subst hsame
    refine ⟨⟨hlane.linked, hlane.cc⟩, hlane.even, fun _ => Or.inl ?_, fun hfilling hmark => ?_,
      hlane.ready⟩
    · simp [LocalDelivery.flag, Assembler.packet]
    · simpa [LocalDelivery.flag, Assembler.packet] using hlane.reaches hfilling hmark
  · refine hlane.spare ?_
    constructor <;> simp [LocalDelivery.flag, Assembler.packet, hsame]

/-- Elements taken off the queue keep the invariant. -/
theorem Inv.trim (h : delivery.Inv) (hqueue : rest ⊆ delivery.queue) (free : Nat) (depth : Int) :
    { delivery with free := free, queue := rest, queueDepth := depth : LocalDelivery }.Inv :=
  ⟨h.trails, fun ele hele => h.queued ele (hqueue hele), h.got, h.idle⟩

/-- The cull keeps it. -/
theorem Inv.cullStale (h : delivery.Inv) (bound : Int) : (delivery.cullStale bound).Inv := by
  unfold LocalDelivery.cullStale
  split
  · exact h
  · have htrimmed := h.trim (cullLoop_subset bound delivery.queue delivery.queueDepth)
      (delivery.free + (delivery.queue.length -
        (cullLoop bound delivery.queue delivery.queueDepth).1.length))
      (cullLoop bound delivery.queue delivery.queueDepth).2
    simp only
    split
    · exact htrimmed
    · unfold markSeam
      split
      · exact htrimmed
      · exact htrimmed.flag _

/-- A dequeue keeps it if the packet a consumer gets is the one queued. -/
theorem Inv.dequeue (h : delivery.Inv) (counted got : Bool)
    (hshows : got = true → ∀ ele ∈ delivery.queue.head?,
      (delivery.seen ele).Shows ele.shipment) : (delivery.dequeue counted got).Inv := by
  unfold LocalDelivery.dequeue
  split
  · exact h
  · next ele rest hqueue =>
      have hrest : ∀ other ∈ rest, other.shipment ∈ (delivery.logs other.lane).shipped := by
        intro other hother
        refine h.queued other ?_
        rw [hqueue]
        exact List.mem_cons_of_mem ele hother
      refine ⟨h.trails, hrest, fun lane shipment hshipment => ?_, h.idle⟩
      simp only at hshipment
      split at hshipment
      · next hgot =>
          by_cases hsame : lane = ele.lane
          · subst hsame
            rw [Function.update_self] at hshipment
            rcases List.mem_append.mp hshipment with hbefore | hnew
            · exact h.got ele.lane shipment hbefore
            · obtain rfl := List.mem_singleton.mp hnew
              refine ⟨ele.shipment, h.queued ele ?_, hshows hgot ele ?_⟩
              · rw [hqueue]
                exact List.mem_cons_self
              · rw [hqueue]
                rfl
          · rw [Function.update_of_ne hsame] at hshipment
            exact h.got lane shipment hshipment
      · exact h.got lane shipment hshipment

/-! ## The logs and the producer's history -/

/-- A step of the producer logs the packet it queues, if any. -/
theorem next_logged (h : LogsHold delivery.producer.history.localQueued delivery.logs)
    {event : Event} {producer : Producer}
    (hproducer : delivery.producer.next config event = some producer) :
    LogsHold producer.history.localQueued (delivery.onProducer config event).logs := by
  cases event with
  | sub env =>
      rcases Producer.next_sub hproducer with
        ⟨hnone, index, rfl⟩ | ⟨lane, sub, haccepted, rfl⟩
      · simp only [LocalDelivery.onProducer, hnone]
        exact h
      · rw [(Producer.acceptSub_rxLocal config delivery.producer lane sub env).2]
        simp only [LocalDelivery.onProducer, haccepted]
        -- a full packet is queued or lost; both end its log
        unfold Producer.localLane Producer.flushLocal
        split
        · next halive =>
            simp only [halive, true_and]
            split
            · split
              · exact h.ship lane ..
              · exact h.lose lane
            · exact h
        · next hdead =>
            rw [if_neg fun hships => hdead hships.1]
            exact h
  | flushPartial lane usbAlive headGrace =>
      obtain ⟨-, rfl⟩ := of_guard hproducer
      unfold Producer.flushPartial
      split <;> exact h
  | slot | idlePass | jumpForward | reset =>
      obtain ⟨-, rfl⟩ := of_guard hproducer
      exact h
  | standDown =>
      obtain ⟨-, rfl⟩ := of_guard hproducer
      unfold Producer.standDown
      split <;> exact h
  | _ =>
      obtain ⟨free, untracked, staged, inflight, rfl, -⟩ :=
        Producer.next_requests hproducer trivial
      exact h

/-- The consumers queue nothing. -/
theorem dequeue_logged (counted got : Bool) :
    (delivery.dequeue counted got).logs = delivery.logs ∧
      (delivery.dequeue counted got).producer = delivery.producer := by
  unfold LocalDelivery.dequeue
  split <;> exact ⟨rfl, rfl⟩

theorem cullStale_logged (bound : Int) :
    (delivery.cullStale bound).logs = delivery.logs ∧
      (delivery.cullStale bound).producer.history = delivery.producer.history := by
  unfold LocalDelivery.cullStale
  split
  · exact ⟨rfl, rfl⟩
  · simp only
    split
    · exact ⟨rfl, rfl⟩
    · unfold markSeam
      split <;> exact ⟨rfl, rfl⟩

/-- In every run the logs hold the packets queued for the consumer. -/
theorem logs_hold (config : Config) (usbBuf localBuf : Nat → Packet)
    (events : List DeliveryEvent) :
    Always (next config)
      (fun delivery => LogsHold delivery.producer.history.localQueued delivery.logs)
      (init config usbBuf localBuf) events := by
  refine always_of_inductive (fun delivery event following h hnext => ?_) List.Perm.nil
  cases event with
  | producer event =>
      simp only [next, Option.ite_none_right_eq_some, Option.map_eq_some_iff] at hnext
      obtain ⟨-, producer, hproducer, rfl⟩ := hnext
      exact next_logged h hproducer
  | cull bound =>
      obtain rfl := Option.some.inj hnext
      rw [(cullStale_logged bound).1, (cullStale_logged bound).2]
      exact h
  | dequeueRef | copyDequeue | getFault =>
      obtain rfl := Option.some.inj hnext
      simp only [dequeueRef, copyDequeue, getFault, dequeue_logged]
      exact h
  | release =>
      simp only [next, Option.ite_none_left_eq_some, Option.some.injEq] at hnext
      obtain ⟨-, rfl⟩ := hnext
      exact h

/-! ## Runs -/

/-- A declared step keeps the invariant. -/
theorem next_inv (h : delivery.Inv) {event : DeliveryEvent}
    (hstream : delivery.StampsContinue event) (hdeclared : delivery.SeamDeclared config event)
    (hnext : delivery.next config event = some following) : following.Inv := by
  cases event with
  | producer event =>
      simp only [next, Option.ite_none_right_eq_some, Option.map_eq_some_iff] at hnext
      obtain ⟨-, producer, hproducer, rfl⟩ := hnext
      exact onProducer_inv h hstream hdeclared hproducer
  | cull bound =>
      obtain rfl := Option.some.inj hnext
      exact h.cullStale bound
  | dequeueRef | copyDequeue =>
      obtain rfl := Option.some.inj hnext
      exact h.dequeue _ _ fun _ => hdeclared
  | getFault =>
      obtain rfl := Option.some.inj hnext
      exact h.dequeue _ _ nofun
  | release =>
      simp only [next, Option.ite_none_left_eq_some, Option.some.injEq] at hnext
      obtain ⟨-, rfl⟩ := hnext
      exact ⟨h.trails, h.queued, h.got, h.idle⟩

/-- In every run in which the firmware delivers sub-buffers that continue each other, and every
step declares its seams, the packets the consumers get on every lane are honest and declare their
losses. -/
theorem deliveredHonest_of_declared (config : Config) (usbBuf localBuf : Nat → Packet)
    (events : List DeliveryEvent)
    (hstream : Guarded (next config) StampsContinue (init config usbBuf localBuf) events)
    (hdeclared : Guarded (next config) (SeamDeclared config) (init config usbBuf localBuf)
      events) :
    Always (next config) SeamsHonest (init config usbBuf localBuf) events := by
  have hboth : Guarded (next config)
      (fun delivery event => delivery.StampsContinue event ∧ delivery.SeamDeclared config event)
      (init config usbBuf localBuf) events := EveryStep.and hstream hdeclared
  have halways : Always (next config) Inv (init config usbBuf localBuf) events := by
    refine always_of_guarded (fun state event following h hcondition hnext => ?_)
      (init_inv config usbBuf localBuf) hboth
    exact next_inv h hcondition.1 hcondition.2 hnext
  exact halways.mono fun state h => h.seamsHonest

/-- A ring of two slots, and packets of one ADC slot. -/
def twoSlots : Config :=
  { Config.driver with localRing := 2, shipSlots := 1 }

/-- The producer reads a slot with this sub-buffer, and the local lane takes it. -/
def reads (sub : SubBuffer) (localFree : Bool) : List DeliveryEvent :=
  [.producer (.slot (Producer.slotWith sub)),
    .producer (.sub ⟨false, false, false, true, localFree⟩)]

/-- Three packets; the first, whose slot the second begins in, is culled. -/
theorem deliveredHonest_of_declared_run :
    Always (next twoSlots) SeamsHonest (init twoSlots Producer.blank Producer.blank)
      (reads ⟨0x0#32, 256, 1000, 2⟩ true ++ reads ⟨0x0#32, 256, 1256, 2⟩ true ++
        reads ⟨0x0#32, 256, 1512, 2⟩ true ++ [.cull 1, .dequeueRef] ++
        reads ⟨0x0#32, 256, 1768, 2⟩ true ++ [.dequeueRef]) :=
  deliveredHonest_of_declared twoSlots Producer.blank Producer.blank _ (by decide) (by decide)

/-- The consumers hold both elements when the third packet is complete, and it is lost. The fourth
carries the next number and no DISCONT. -/
theorem lost_packet_undeclared :
    ¬∀ (config : Config) (usbBuf localBuf : Nat → Packet) (events : List DeliveryEvent),
      Guarded (next config) StampsContinue (init config usbBuf localBuf) events →
        Always (next config) SeamsHonest (init config usbBuf localBuf) events := by
  intro h
  have hdelivered : Always (next twoSlots) SeamsHonest
      (init twoSlots Producer.blank Producer.blank)
      (reads ⟨0x0#32, 256, 1000, 2⟩ true ++ reads ⟨0x100#32, 256, 5000, 2⟩ true ++
        [.dequeueRef] ++ reads ⟨0x0#32, 256, 5256, 2⟩ true ++ [.dequeueRef] ++
        reads ⟨0x0#32, 256, 5512, 2⟩ false ++ [.release, .release] ++
        reads ⟨0x0#32, 256, 5768, 2⟩ true ++ [.dequeueRef]) :=
    h _ _ _ _ (by decide)
  exact absurd hdelivered (by decide)

end LocalDelivery

end RfnmDriver.Rx
