import RfnmDriver.Rx.Producer
import RfnmDriver.Rx.SeamLog

/-!
# From the local lanes to the local consumer

A local packet leaves in an element of a pool: the producer takes one off `rfnm_local_buffer_in`,
points it at the lane's slot and queues it on `rfnm_local_buffer_in_user`. A consumer dequeues it
and reads the packet in the slot. `rfnm_local_rx_cull_stale` trims the queue and flags the oldest
packet left. The pool's lists are taken as lists here. An event is one step of the producer or one
critical section of a consumer. Read `next` first.
-/

namespace RfnmDriver.Rx

/-- An element of `rfnm_local_buffer_in_user`. -/
structure QueueEle where
  /-- The slot its packet is in. -/
  addr : Nat
  /-- What the code does not keep: the lane it is from, and the packet as it was queued. -/
  lane : Fin 4
  shipment : Shipment

/-- The producer, the elements of the pool, and what the consumers got. -/
structure LocalDelivery where
  producer : Producer
  /-- The elements of `rfnm_local_buffer_in`. -/
  free : Nat
  /-- `rfnm_local_buffer_in_user`, oldest first. -/
  queue : List QueueEle
  /-- `rfnm_local_rx_queue_depth`. -/
  queueDepth : Int
  /-- The elements the consumers hold. -/
  held : Nat
  /-- What each lane completed and queued. -/
  logs : Fin 4 → LaneLog
  /-- What the consumers got of each lane, as they read it. -/
  delivered : Fin 4 → List Shipment

/-- One step of the producer, or one critical section of a consumer. -/
inductive DeliveryEvent
  | producer (event : Event)
  /-- `rfnm_local_rx_cull_stale` under the given `rfnm_local_rx_queue_bound`. -/
  | cull (bound : Int)
  /-- `rfnm_dequeue_local_buffer_rx_ref`, for `RFNM_LOCAL_RX_GET` or an Ethernet worker. -/
  | dequeueRef
  /-- `rfnm_dequeue_local_buffer_rx`. -/
  | copyDequeue
  /-- `RFNM_LOCAL_RX_GET` whose `put_user` faults: the packet reaches nobody. -/
  | getFault
  /-- `rfnm_release_local_buffer_rx_ref`. -/
  | release

namespace LocalDelivery

variable (config : Config) (delivery : LocalDelivery)

/-- The module init: one free element for each slot of the ring. -/
def init (usbBuf localBuf : Nat → Packet) : LocalDelivery where
  producer := Producer.init usbBuf localBuf
  free := config.localRing
  queue := []
  queueDepth := 0
  held := 0
  logs := fun _ => .fresh
  delivered := fun _ => []

/-! ## The producer's side -/

/-- The lane's packet as it is queued. -/
def shipment (lane : Fin 4) : Shipment where
  packet := delivery.producer.rxLocal.minted lane
  rate := rateOf (delivery.producer.history.last lane)
  serial := (delivery.logs lane).formed + 1

/-- The lane's packet is queued in a free element. -/
def enqueue (lane : Fin 4) : LocalDelivery :=
  { delivery with
    free := delivery.free - 1
    queue := delivery.queue ++
      [⟨delivery.producer.rxLocal.adcBuf lane, lane, delivery.shipment lane⟩]
    queueDepth := delivery.queueDepth + 1
    logs := Function.update delivery.logs lane ((delivery.logs lane).ship
      (delivery.producer.rxLocal.minted lane) (rateOf (delivery.producer.history.last lane))) }

/-- There is no element for the lane's packet. -/
def lose (lane : Fin 4) : LocalDelivery :=
  { delivery with logs := Function.update delivery.logs lane (delivery.logs lane).lose }

/-- What the producer's next step does to the pool: a sub-buffer that forces a packet out queues it
or loses it, and the stream reset recycles what is queued and leaves the depth as it is. -/
def onProducer : Event → LocalDelivery
  | .sub env =>
      match delivery.producer.accepted with
      | some (lane, sub) =>
          if env.localAlive = true ∧
              delivery.producer.rxLocal.Flushes lane config.localFull sub then
            if env.localFree then delivery.enqueue lane else delivery.lose lane
          else delivery
      | none => delivery
  | .reset => { delivery with free := delivery.free + delivery.queue.length, queue := [] }
  | _ => delivery

/-- The producer finds an element exactly when there is one. -/
def Agrees : Event → Prop
  | .sub env => env.localFree = decide (0 < delivery.free)
  | _ => True

instance (event : Event) : Decidable (delivery.Agrees event) := by
  rcases event <;> unfold Agrees <;> infer_instance

/-! ## The consumers' side -/

/-- The packet of an element, as the consumer reads it in its slot. -/
def seen (ele : QueueEle) : Shipment :=
  { ele.shipment with packet := delivery.producer.rxLocal.buf ele.addr }

/-- The loop of `rfnm_local_rx_cull_stale`: the queue and the depth it leaves. -/
def cullLoop (bound : Int) : List QueueEle → Int → List QueueEle × Int
  | [], depth => ([], depth)
  | ele :: rest, depth =>
      if depth > bound then cullLoop bound rest (depth - 1) else (ele :: rest, depth)

/-- `rx_flags |= RFNM_RX_FLAG_DISCONT` in a slot. -/
def flag (addr : Nat) : LocalDelivery :=
  { delivery with
    producer := { delivery.producer with
      rxLocal := { delivery.producer.rxLocal with
        buf := Function.update delivery.producer.rxLocal.buf addr
          { delivery.producer.rxLocal.buf addr with discont := true } } } }

/-- The end of `rfnm_local_rx_cull_stale`: the survivor is the seam. -/
def markSeam : LocalDelivery :=
  match delivery.queue with
  | [] => delivery
  | ele :: _ => delivery.flag ele.addr

/-- `rfnm_local_rx_cull_stale`. -/
def cullStale (bound : Int) : LocalDelivery :=
  if bound ≤ 0 then delivery
  else
    let (rest, depth) := cullLoop bound delivery.queue delivery.queueDepth
    let culled := delivery.queue.length - rest.length
    let trimmed : LocalDelivery :=
      { delivery with free := delivery.free + culled, queue := rest, queueDepth := depth }
    if culled = 0 then trimmed else trimmed.markSeam

/-- The first queued element goes to a consumer, which sees its packet. -/
def dequeue (counted got : Bool) : LocalDelivery :=
  match delivery.queue with
  | [] => delivery
  | ele :: rest =>
      { delivery with
        queue := rest
        queueDepth := if counted then delivery.queueDepth - 1 else delivery.queueDepth
        held := delivery.held + 1
        delivered := if got then Function.update delivery.delivered ele.lane
          (delivery.delivered ele.lane ++ [delivery.seen ele]) else delivery.delivered }

/-- `rfnm_dequeue_local_buffer_rx_ref`. -/
def dequeueRef : LocalDelivery :=
  delivery.dequeue true true

/-- `rfnm_dequeue_local_buffer_rx`, which leaves the depth as it is. -/
def copyDequeue : LocalDelivery :=
  delivery.dequeue false true

/-- `RFNM_LOCAL_RX_GET` with a faulting `put_user`. -/
def getFault : LocalDelivery :=
  delivery.dequeue true false

/-- One step; `none` when it is not enabled. -/
def next : DeliveryEvent → Option LocalDelivery
  | .producer event =>
      if delivery.Agrees event then
        (delivery.producer.next config event).map fun following =>
          { delivery.onProducer config event with producer := following }
      else none
  | .cull bound => some (delivery.cullStale bound)
  | .dequeueRef => some delivery.dequeueRef
  | .copyDequeue => some delivery.copyDequeue
  | .getFault => some delivery.getFault
  | .release =>
      if delivery.held = 0 then none
      else some { delivery with held := delivery.held - 1, free := delivery.free + 1 }

/-- The cull leaves elements that were queued. -/
theorem cullLoop_subset (bound : Int) (queue : List QueueEle) (depth : Int) :
    (cullLoop bound queue depth).1 ⊆ queue := by
  induction queue generalizing depth with
  | nil => exact List.Subset.refl _
  | cons ele rest ih =>
      simp only [cullLoop]
      split
      · exact List.subset_cons_of_subset ele (ih (depth - 1))
      · exact List.Subset.refl _

end LocalDelivery

end RfnmDriver.Rx
