import RfnmDriver.Library.PoolAccount
import RfnmDriver.Library.StepSystem

/-!
# The USB IN request pool

The requests of `rfnm_usb_req_buffer_in` (free), `rfnm_usb_req_buffer_in_usb` (staged) and
`rfnm_usb_req_inflight_in` (in flight), and the requests a context holds between two critical
sections. An event is one critical section or one unlocked step of the RX producer
(`rfnm_handler_in`, `rfnm_rx_flush_partial_usb`), the USB worker (`rfnm_handler_usb`), a
completion (`rfnm_submit_usb_req_in`), the stream reset or the pool top-up. The gates that decide
whether a packet is shipped at all are left to the event. Read `next` first.
-/

namespace RfnmDriver.Usb

open KernelList

/-- The three list heads of the pool. -/
inductive Head
  | reqBufferIn
  | reqBufferInUsb
  | reqInflightIn
  deriving DecidableEq, Repr

open Head

instance : Fintype Head where
  elems := {reqBufferIn, reqBufferInUsb, reqInflightIn}
  complete := by rintro (_ | _ | _) <;> simp

/-- A list node: a head, or the `usb_ep_queue_ele` of a request. Elements are numbered in the
order in which they are allocated. -/
abbrev Node := Head ⊕ Nat

/-- `RFNM_USB_INFLIGHT_CAP`. -/
def usbInflightCap : Nat := 64

/-- Where the RX producer is in shipping a packet. -/
inductive Producer
  | idle
  /-- The full-packet ship saw this element at the head of the free list and fills its request. -/
  | peeked (ele : Nat)
  /-- `usb_ep_queue_ele_tmp` holds a copy of the element's pointers. -/
  | copied (ele : Nat) (before after : Node)
  /-- The partial flush took this element off the free list. -/
  | holding (ele : Nat)
  deriving DecidableEq

/-- Where the USB worker is in queueing a request. -/
inductive Worker
  | idle
  /-- It saw this element at the head of the staged list. -/
  | peeked (ele : Nat)
  /-- It took the element off the staged list. -/
  | holding (ele : Nat)
  /-- The element is on the in-flight list and `usb_ep_queue` is about to be called. -/
  | tracked (ele : Nat)
  /-- `usb_ep_queue` failed and the element is off the in-flight list again. -/
  | failed (ele : Nat)
  /-- Flush mode saw this element at the head of a list. -/
  | flushing (ele : Nat)
  deriving DecidableEq

/-- The pool. -/
structure Pool where
  links : Links Node
  /-- `rfnm_rx18.req_created`: elements `0 … created - 1` were allocated. -/
  created : Nat
  /-- The requests freed so far; `rfnm_rx18.req_destroyed` counts them. -/
  freed : List Nat
  /-- `rfnm_usb_inflight_cnt`. -/
  inflightCnt : Nat
  /-- Requests the gadget controller will complete, with their element as context. -/
  atUdc : List Nat
  producer : Producer
  worker : Worker
  /-- Elements in the hand of a running completion. -/
  completing : List Nat
  /-- The element the reset carries from the staged to the free list. -/
  resetting : Option Nat
  /-- Requests `rfnm_usb_in_pool_topup` has still to mint. -/
  deficit : Nat

/-- One step of one context. -/
inductive Event
  /-- A request without context completes and `rfnm_submit_usb_req_in` allocates its element. -/
  | adopt
  /-- A tracked request completes and leaves the in-flight list. -/
  | complete (ele : Nat)
  /-- The completion returns the element to the free list. -/
  | readd (ele : Nat)
  /-- The completion was a teardown (`-ESHUTDOWN`, or no endpoint): it frees the request. -/
  | completeDestroy (ele : Nat)
  /-- The full-packet ship looks at the head of the free list. -/
  | shipPeek
  /-- The full-packet ship copies the element with `memcpy`, outside the locks. -/
  | shipCopy
  /-- The full-packet ship moves the element to the staged list, under both locks. -/
  | shipMove
  /-- The partial flush pops the free list. -/
  | partialPop
  /-- The partial flush appends its element to the staged list. -/
  | partialStage
  /-- The worker looks at the head of the staged list. -/
  | workerPeek
  /-- The worker unlinks the element it saw. -/
  | workerTake
  /-- The worker appends the element to the in-flight list. -/
  | workerTrack
  /-- `usb_ep_queue` succeeds. -/
  | workerQueued
  /-- `usb_ep_queue` fails and the worker takes the element off the in-flight list. -/
  | workerFail
  /-- A transient failure: the element goes back to the free list. -/
  | workerRecycle
  /-- A teardown failure: the request is freed. -/
  | workerDestroy
  /-- Flush mode looks at the head of the free or of the staged list. -/
  | flushPeek (head : Head)
  /-- Flush mode unlinks the element, queues its request without context and frees the element. -/
  | flushTake
  /-- `rfnm_usb_in_pool_topup` computes the deficit. -/
  | topupCount
  /-- `rfnm_usb_in_pool_topup` mints one request into the free list. -/
  | topupAdd
  /-- The reset pops the staged list; the workers are stopped. -/
  | resetPop
  /-- The reset appends the element to the free list. -/
  | resetPush
  deriving DecidableEq

/-- The module init: three empty lists. -/
def Pool.init : Pool where
  links := (((⟨id, id⟩ : Links Node).initHead (.inl reqBufferIn)).initHead
    (.inl reqBufferInUsb)).initHead (.inl reqInflightIn)
  created := 0
  freed := []
  inflightCnt := 0
  atUdc := []
  producer := .idle
  worker := .idle
  completing := []
  resetting := none
  deficit := 0

/-- The elements of one list, read off the pointers. -/
def Pool.contents (pool : Pool) (head : Head) : List Nat :=
  pool.links.read pool.created head

/-- The first element of a list. -/
def first (pool : Pool) (head : Head) : Option Nat :=
  (pool.links.firstEntryOrNull (.inl head)).bind Sum.getRight?

/-- `list_add_tail` of an element. -/
def append (pool : Pool) (ele : Nat) (head : Head) : Pool :=
  { pool with links := pool.links.addTail (.inr ele) (.inl head) }

/-- `list_del` of an element. -/
def unlink (pool : Pool) (ele : Nat) : Pool :=
  { pool with links := pool.links.del (.inr ele) }

/-- `rfnm_submit_usb_req_in`: a fresh element in the completion's hand. -/
def adopt (pool : Pool) : Pool :=
  { pool with created := pool.created + 1, completing := pool.created :: pool.completing }

/-- `rfnm_submit_usb_req_in`: the context is cleared and the element leaves the in-flight list. -/
def complete (pool : Pool) (ele : Nat) : Pool :=
  { unlink pool ele with
    inflightCnt := pool.inflightCnt - 1
    atUdc := pool.atUdc.erase ele
    completing := ele :: pool.completing }

/-- `rfnm_submit_usb_req_in`: the element goes back to the free list. -/
def readd (pool : Pool) (ele : Nat) : Pool :=
  { append pool ele reqBufferIn with completing := pool.completing.erase ele }

/-- `rfnm_submit_usb_req_in`: request and element are freed. -/
def completeDestroy (pool : Pool) (ele : Nat) : Pool :=
  { pool with completing := pool.completing.erase ele, freed := ele :: pool.freed }

/-- `rfnm_usb_in_pool_topup`: the cap, less what is in flight and what is free. -/
def topupCount (pool : Pool) : Pool :=
  { pool with
    deficit := usbInflightCap - (pool.inflightCnt + (pool.contents reqBufferIn).length) }

/-- `rfnm_usb_in_pool_topup`: one fresh request into the free list. -/
def topupAdd (pool : Pool) : Pool :=
  { append pool pool.created reqBufferIn with
    created := pool.created + 1
    deficit := pool.deficit - 1 }

/-- One step of one context; `none` when the context is not at that point. -/
def next (pool : Pool) : Event → Option Pool
  | .adopt => some (adopt pool)
  | .complete ele => if ele ∈ pool.atUdc then some (complete pool ele) else none
  | .readd ele => if ele ∈ pool.completing then some (readd pool ele) else none
  | .completeDestroy ele =>
      if ele ∈ pool.completing then some (completeDestroy pool ele) else none
  | .shipPeek =>
      match pool.producer, first pool reqBufferIn with
      | .idle, some ele => some { pool with producer := .peeked ele }
      | .idle, none => some pool
      | _, _ => none
  | .shipCopy =>
      match pool.producer with
      | .peeked ele =>
          some { pool with
            producer := .copied ele (pool.links.prev (.inr ele)) (pool.links.next (.inr ele)) }
      | _ => none
  | .shipMove =>
      match pool.producer with
      | .copied ele before after =>
          some { pool with
            links := pool.links.moveSnapshot (.inr ele) (.inl reqBufferInUsb) before after
            producer := .idle }
      | _ => none
  | .partialPop =>
      match pool.producer, first pool reqBufferIn with
      | .idle, some ele => some { unlink pool ele with producer := .holding ele }
      | .idle, none => some pool
      | _, _ => none
  | .partialStage =>
      match pool.producer with
      | .holding ele => some { append pool ele reqBufferInUsb with producer := .idle }
      | _ => none
  | .workerPeek =>
      match pool.worker, first pool reqBufferInUsb with
      | .idle, some ele => some { pool with worker := .peeked ele }
      | .idle, none => some pool
      | _, _ => none
  | .workerTake =>
      match pool.worker with
      | .peeked ele => some { unlink pool ele with worker := .holding ele }
      | _ => none
  | .workerTrack =>
      match pool.worker with
      | .holding ele =>
          some { append pool ele reqInflightIn with
            worker := .tracked ele
            inflightCnt := pool.inflightCnt + 1 }
      | _ => none
  | .workerQueued =>
      match pool.worker with
      | .tracked ele => some { pool with worker := .idle, atUdc := ele :: pool.atUdc }
      | _ => none
  | .workerFail =>
      match pool.worker with
      | .tracked ele =>
          some { unlink pool ele with
            worker := .failed ele
            inflightCnt := pool.inflightCnt - 1 }
      | _ => none
  | .workerRecycle =>
      match pool.worker with
      | .failed ele => some { append pool ele reqBufferIn with worker := .idle }
      | _ => none
  | .workerDestroy =>
      match pool.worker with
      | .failed ele => some { pool with worker := .idle, freed := ele :: pool.freed }
      | _ => none
  | .flushPeek head =>
      match pool.worker, head, first pool head with
      | .idle, .reqInflightIn, _ => none
      | .idle, _, some ele => some { pool with worker := .flushing ele }
      | .idle, _, none => some pool
      | _, _, _ => none
  | .flushTake =>
      match pool.worker with
      | .flushing ele => some { unlink pool ele with worker := .idle }
      | _ => none
  | .topupCount => some (topupCount pool)
  | .topupAdd => if pool.deficit = 0 then none else some (topupAdd pool)
  | .resetPop =>
      match pool.producer, pool.worker, pool.resetting, first pool reqBufferInUsb with
      | .idle, .idle, none, some ele => some { unlink pool ele with resetting := some ele }
      | .idle, .idle, none, none => some pool
      | _, _, _, _ => none
  | .resetPush =>
      match pool.resetting with
      | some ele => some { append pool ele reqBufferIn with resetting := none }
      | none => none

/-! ## Where the requests are -/

/-- The element the producer has off the lists. -/
def Producer.hand : Producer → List Nat
  | .holding ele => [ele]
  | _ => []

/-- The element the worker has off the lists. -/
def Worker.hand : Worker → List Nat
  | .holding ele => [ele]
  | .failed ele => [ele]
  | _ => []

/-- The elements a context carries between two critical sections. -/
def Pool.inHand (pool : Pool) : List Nat :=
  pool.producer.hand ++ pool.worker.hand ++ pool.completing ++ pool.resetting.toList

/-- The three lists are well linked and disjoint, and with the hands and the freed requests they
hold every request ever created exactly once. -/
def Pool.HoldsAll (pool : Pool) (contents : Head → List Nat) : Prop :=
  pool.links.Represents contents ∧
    (contents reqBufferIn ++ contents reqBufferInUsb ++ contents reqInflightIn ++ pool.inHand ++
      pool.freed).Perm (List.range pool.created)

/-- Every live request is on exactly one of the three lists or in one hand, and the requests
created, less the ones freed, are as many as these. -/
def Pool.Conserved (pool : Pool) : Prop :=
  pool.HoldsAll pool.contents ∧
    pool.created - pool.freed.length = (pool.contents reqBufferIn).length +
      (pool.contents reqBufferInUsb).length + (pool.contents reqInflightIn).length +
        pool.inHand.length

instance (pool : Pool) (contents : Head → List Nat) : Decidable (pool.HoldsAll contents) :=
  inferInstanceAs (Decidable (_ ∧ _))

instance (pool : Pool) : Decidable pool.Conserved :=
  inferInstanceAs (Decidable (pool.HoldsAll _ ∧ _))

/-- The full-packet ship moves an element that is still free, between the neighbours it was copied
with; flush mode finds no request to take. -/
def Undisturbed (pool : Pool) (event : Event) : Prop :=
  match event, pool.producer with
  | .shipMove, .copied ele before after =>
      ele ∈ pool.contents reqBufferIn ∧ pool.links.prev (.inr ele) = before ∧
        pool.links.next (.inr ele) = after
  | .flushPeek head, _ => pool.contents head = []
  | _, _ => True

instance (pool : Pool) (event : Event) : Decidable (Undisturbed pool event) := by
  unfold Undisturbed
  split <;> infer_instance

end RfnmDriver.Usb
