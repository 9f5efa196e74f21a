import Mathlib.Data.List.Perm.Basic
import RfnmDriver.Eth.TxIngest
import RfnmDriver.Tx.Pool

/-!
# USB OUT ingest

The OUT requests, their buffers, and the two threads that take a completed request off its list: the
worker `rfnm_handler_usb`, and whoever runs `rfnm_tx_flush_staging`. Each looks at the head of the
list under the list lock, drops the lock, takes it again for the `list_del`, and drops it before
`usb_ep_queue`; between these steps the worker gives the request a spare buffer. It then copies the
full one into a pool element and keeps it as a spare. The pool is the local TX pool with all its
other users. Read `next` first.
-/

namespace RfnmDriver.Usb.Out

open KernelList StepSystem

variable {size : Nat}

/-- The sizes of a TX packet, in bytes. -/
structure Sizes where
  /-- `RFNM_USB_TX_PACKET_HEAD_SIZE`. -/
  headSize : Nat
  /-- `LA_TX_BASE_BUFSIZE_12`. -/
  baseBufsize12 : Nat
  /-- `RFNM_TX_USB_BUF_MULTI`. -/
  multiMax : Nat

/-- What a completion leaves in the buffer of its request, and `req->actual`. -/
structure Packet where
  magic : BitVec 32
  multi : Nat
  usbCc : Nat
  actual : Nat
  deriving DecidableEq, Repr

/-- `struct usb_ep_queue_ele`: a completed request. Elements are numbered in the order in which they
are allocated. -/
structure Element where
  id : Nat
  req : Nat
  packet : Packet
  deriving DecidableEq, Repr

/-- What the worker does once a request is back at the controller. -/
inductive After
  /-- Nothing: the packet is dropped. -/
  | drop
  /-- Copy the buffer it has detached. -/
  | copy (buf usbCc : Nat)
  /-- Count the packet that it queued from the buffer of the request. -/
  | count
  deriving DecidableEq, Repr

/-- Where the packet is that goes into the pool. -/
inductive Source
  /-- In a detached buffer, with the tries that are left. -/
  | detached (buf tries : Nat)
  /-- In the buffer of a completed request: no spare was left. -/
  | inPlace (ele : Element)
  deriving DecidableEq, Repr

/-- Where the USB worker is. -/
inductive Worker (size : Nat)
  | idle
  /-- It has seen the element at the head of the list. -/
  | looked (ele : Element)
  /-- In `rfnm_usb_buffer_done_out`, before `list_del`. -/
  | unlinking (ele : Element) (after : After)
  /-- In `rfnm_usb_buffer_done_out`, before `usb_ep_queue`. -/
  | submitting (req : Nat) (after : After)
  /-- Before the first half of `rfnm_queue_local_buffer_tx`. -/
  | copying (source : Source) (usbCc : Nat)
  /-- Before its second half, with a pool element. -/
  | inserting (source : Source) (usbCc : Nat) (free : Fin size)
  deriving DecidableEq

/-- The requests and buffers of the OUT direction, and the pool. -/
structure UsbOut (size : Nat) where
  pool : Tx.Pool size
  /-- Requests `0 … requests - 1` were allocated. -/
  requests : Nat
  /-- Buffers `0 … created - 1` were allocated. -/
  created : Nat
  /-- Elements `0 … elements - 1` were allocated. -/
  elements : Nat
  /-- `req->buf`. -/
  buf : Nat → Nat
  /-- Requests that the gadget controller will complete. -/
  atUdc : List Nat
  /-- `rfnm_usb_req_buffer_out`. -/
  active : List Element
  /-- `rfnm_usb_req_buffer_out_usb`. -/
  outUsb : List Element
  /-- `rfnm_tx_spare`, the last one first. -/
  txSpare : List Nat
  /-- `rfnm_tx_spare[0]` is set. -/
  sparesAllocated : Bool
  worker : Worker size
  /-- What the threads in `rfnm_tx_flush_staging` have seen at the head of the list. -/
  flushLooked : List Element
  /-- What they have taken off the list. -/
  flushUnlinked : List Element
  /-- Requests freed with their buffers. -/
  freed : List Nat
  usbTxOk : Nat
  usbTxError : Nat
  /-- `rfnm_tx_stat_ingested`. -/
  ingested : Nat
  /-- `rfnm_tx_stat_slow_requeue`. -/
  slowRequeue : Nat

/-- One step of one context. -/
inductive Event (size : Nat)
  /-- `source_sink_start_ep_out` allocates a request with its buffer and queues it. -/
  | start
  /-- `rfnm_submit_usb_req_out`; `enabled` says that the endpoint has its driver data. -/
  | complete (req : Nat) (packet : Packet) (status : Int) (enabled : Bool)
  /-- The worker looks at the first completed request. -/
  | look
  /-- Flush mode looks at it. -/
  | flushLook
  /-- The worker takes the first request off `rfnm_usb_req_buffer_out_usb`, in flush mode or after
  it. -/
  | takeOther
  /-- The worker checks the framing of what it has seen, and exchanges the buffer. -/
  | check
  /-- `list_del` of the worker. -/
  | unlink
  /-- `usb_ep_queue` of the worker, and its answer. -/
  | submit (accepted : Bool)
  /-- The first half of `rfnm_queue_local_buffer_tx`. -/
  | claim
  /-- The second half. -/
  | insert
  /-- A thread in `rfnm_tx_flush_staging` looks at the first completed request. -/
  | stagingLook
  /-- Its `list_del`. -/
  | stagingUnlink (ele : Element)
  /-- Its `usb_ep_queue`, and the answer. -/
  | stagingSubmit (ele : Element) (accepted : Bool)
  /-- The "Flush the USB OUT queue" loop of `rfnm_reset_stream_io_state`, with the worker
  stopped. -/
  | reset
  /-- A step of another user of the pool. -/
  | pool (event : Tx.Event size)
  deriving DecidableEq

/-- `RFNM_TX_INGEST_SPARES`. -/
def txIngestSpares : Nat := 4

/-- `-ESHUTDOWN`. -/
def eShutdown : Int := -108

/-- The module init. -/
def UsbOut.init (size : Nat) : UsbOut size where
  pool := Tx.Pool.init size
  requests := 0
  created := 0
  elements := 0
  buf := fun _ => 0
  atUdc := []
  active := []
  outUsb := []
  txSpare := []
  sparesAllocated := false
  worker := .idle
  flushLooked := []
  flushUnlinked := []
  freed := []
  usbTxOk := 0
  usbTxError := 0
  ingested := 0
  slowRequeue := 0

/-- The framing that the ingest accepts; the length that goes with it is `need`. -/
def Packet.Framed (sizes : Sizes) (packet : Packet) : Prop :=
  packet.magic = Eth.txMagic ∧ 1 ≤ packet.multi ∧ packet.multi ≤ sizes.multiMax ∧
    packet.actual = sizes.headSize + packet.multi * sizes.baseBufsize12

instance (sizes : Sizes) (packet : Packet) : Decidable (packet.Framed sizes) :=
  inferInstanceAs (Decidable (_ ∧ _))

/-- A request is allocated with its buffer and queued. -/
def start (usb : UsbOut size) : UsbOut size :=
  { usb with
    requests := usb.requests + 1
    created := usb.created + 1
    buf := Function.update usb.buf usb.requests usb.created
    atUdc := usb.atUdc ++ [usb.requests] }

/-- `rfnm_submit_usb_req_out`: the request is forgotten, freed, or appended for the worker. -/
def complete (usb : UsbOut size) (req : Nat) (packet : Packet) (status : Int) (enabled : Bool) :
    UsbOut size :=
  let usb := { usb with atUdc := usb.atUdc.erase req }
  if enabled = false then usb
  else if status = eShutdown then { usb with freed := req :: usb.freed }
  else { usb with
    active := usb.active ++ [⟨usb.elements, req, packet⟩]
    elements := usb.elements + 1 }

/-- The spares are allocated on the first pass. -/
def allocSpares (usb : UsbOut size) : UsbOut size :=
  if usb.txSpare = [] ∧ usb.sparesAllocated = false then
    { usb with
      txSpare := ((List.range txIngestSpares).map (usb.created + ·)).reverse
      created := usb.created + txIngestSpares
      sparesAllocated := true }
  else usb

/-- The worker's look at the first completed request. -/
def look (usb : UsbOut size) : UsbOut size :=
  let usb := allocSpares usb
  match usb.active with
  | [] => usb
  | ele :: _ => { usb with worker := .looked ele }

/-- The same in flush mode, which takes whatever it finds. -/
def flushLook (usb : UsbOut size) : UsbOut size :=
  match usb.active with
  | [] => usb
  | ele :: _ => { usb with worker := .unlinking ele .drop }

/-- The first request of `rfnm_usb_req_buffer_out_usb`, which nothing but the worker takes. -/
def takeOther (usb : UsbOut size) : UsbOut size :=
  match usb.outUsb with
  | [] => usb
  | ele :: rest => { usb with outUsb := rest, worker := .submitting ele.req .drop }

/-- The framing check, and the exchange of the full buffer for a spare. -/
def check (sizes : Sizes) (usb : UsbOut size) (ele : Element) : UsbOut size :=
  if ele.packet.Framed sizes then
    match usb.txSpare with
    | spare :: rest =>
        { usb with
          buf := Function.update usb.buf ele.req spare
          txSpare := rest
          worker := .unlinking ele (.copy (usb.buf ele.req) ele.packet.usbCc) }
    | [] =>
        -- the request stays where it is until the pool has taken the packet
        { usb with
          slowRequeue := usb.slowRequeue + 1
          worker := .copying (.inPlace ele) ele.packet.usbCc }
  else { usb with usbTxError := usb.usbTxError + 1, worker := .unlinking ele .drop }

/-- `list_del`, from whichever list the element is on. The source writes through the pointers of an
element that another thread has unlinked and freed; here that does nothing. -/
def listDel (usb : UsbOut size) (ele : Element) : UsbOut size :=
  { usb with active := usb.active.erase ele, outUsb := usb.outUsb.erase ele }

/-- `usb_ep_queue`. A request that is refused is not kept anywhere. -/
def epQueue (usb : UsbOut size) (req : Nat) (accepted : Bool) : UsbOut size :=
  { usb with atUdc := if accepted then usb.atUdc ++ [req] else usb.atUdc }

/-- The packet is counted. -/
def countOk (usb : UsbOut size) : UsbOut size :=
  { usb with usbTxOk := usb.usbTxOk + 1, ingested := usb.ingested + 1 }

/-- `usb_ep_queue` of the worker, and what follows it. -/
def submit (usb : UsbOut size) (req : Nat) (after : After) (accepted : Bool) : UsbOut size :=
  match after with
  | .drop => { epQueue usb req accepted with worker := .idle }
  | .copy buf usbCc =>
      { epQueue usb req accepted with worker := .copying (.detached buf 50) usbCc }
  | .count => { countOk (epQueue usb req accepted) with worker := .idle }

/-- The first free element of the pool. -/
def firstFree (pool : Tx.Pool size) : Option (Fin size) :=
  (pool.links.firstEntryOrNull (.inl .localBufferOutUser)).bind Sum.getRight?

/-- The detached buffer becomes a spare, and the packet is counted. -/
def finishCopy (usb : UsbOut size) (buf : Nat) : UsbOut size :=
  { countOk usb with txSpare := buf :: usb.txSpare, worker := .idle }

/-- The first half of `rfnm_queue_local_buffer_tx`. Where no element is free, the detached packet is
tried again until its tries are used up; then it is given up, and falls through to the counters. -/
def claim (usb : UsbOut size) (source : Source) (usbCc : Nat) : UsbOut size :=
  match firstFree usb.pool, source with
  | some free, _ => { usb with pool := Tx.claim usb.pool, worker := .inserting source usbCc free }
  | none, .inPlace _ => { usb with worker := .idle }
  | none, .detached buf tries =>
      if tries ≤ 1 then { finishCopy usb buf with usbTxError := usb.usbTxError + 1 }
      else { usb with worker := .copying (.detached buf (tries - 1)) usbCc }

/-- The second half, and what follows it. -/
def insert (usb : UsbOut size) (source : Source) (usbCc : Nat) (free : Fin size) :
    Option (UsbOut size) :=
  (Tx.next usb.pool (.commit free usbCc)).map fun pool =>
    match source with
    | .detached buf _ => { finishCopy usb buf with pool := pool }
    | .inPlace ele => { usb with pool := pool, worker := .unlinking ele .count }

/-- The pool element that the worker has claimed. -/
def Worker.claimed : Worker size → Option (Fin size)
  | .inserting _ _ free => some free
  | _ => none

/-- The pool element that a step takes out of the hand of the context whose step it is. -/
def handed : Tx.Event size → Option (Fin size)
  | .commit ele _ | .abort ele | .own ele => some ele
  | _ => none

/-- One step of one context; `none` when the context is not at that point. -/
def next (sizes : Sizes) (usb : UsbOut size) (event : Event size) : Option (UsbOut size) :=
  match event, usb.worker with
  | .start, _ => some (start usb)
  | .complete req packet status enabled, _ =>
      if req ∈ usb.atUdc then some (complete usb req packet status enabled) else none
  | .look, .idle => some (look usb)
  | .flushLook, .idle => some (flushLook usb)
  | .takeOther, .idle => some (takeOther usb)
  | .check, .looked ele => some (check sizes usb ele)
  | .unlink, .unlinking ele after =>
      some { listDel usb ele with worker := .submitting ele.req after }
  | .submit accepted, .submitting req after => some (submit usb req after accepted)
  | .claim, .copying source usbCc => some (claim usb source usbCc)
  | .insert, .inserting source usbCc free => insert usb source usbCc free
  | .stagingLook, _ => some { usb with flushLooked := usb.active.head?.toList ++ usb.flushLooked }
  | .stagingUnlink ele, _ =>
      if ele ∈ usb.flushLooked then
        some { listDel usb ele with
          flushLooked := usb.flushLooked.erase ele
          flushUnlinked := ele :: usb.flushUnlinked }
      else none
  | .stagingSubmit ele accepted, _ =>
      if ele ∈ usb.flushUnlinked then
        some { epQueue usb ele.req accepted with flushUnlinked := usb.flushUnlinked.erase ele }
      else none
  | .reset, .idle => some { usb with outUsb := usb.outUsb ++ usb.active, active := [] }
  | .pool event, worker =>
      if handed event = none ∨ handed event ≠ worker.claimed then
        (Tx.next usb.pool event).map fun pool => { usb with pool := pool }
      else none
  | _, _ => none

/-- The steps of the worker. -/
def Event.byWorker : Event size → Bool
  | .look | .flushLook | .takeOther | .check | .unlink | .submit _ | .claim | .insert => true
  | _ => false

/-! ## Where the requests and the buffers are -/

/-- The request that the worker has off the lists. -/
def Worker.request : Worker size → List Nat
  | .submitting req _ => [req]
  | _ => []

/-- The buffer that is to be copied afterwards. -/
def After.hand : After → List Nat
  | .copy buf _ => [buf]
  | _ => []

/-- The buffer that is being copied. -/
def Source.hand : Source → List Nat
  | .detached buf _ => [buf]
  | .inPlace _ => []

/-- The buffer that the worker has detached. -/
def Worker.hand : Worker size → List Nat
  | .unlinking _ after | .submitting _ after => after.hand
  | .copying source _ | .inserting source _ _ => source.hand
  | _ => []

/-- The requests: at the controller, completed, in the hands of the threads that took them off their
list, and freed. -/
def UsbOut.places (usb : UsbOut size) : List Nat :=
  usb.atUdc ++ usb.active.map (·.req) ++ usb.outUsb.map (·.req) ++ usb.worker.request ++
    usb.flushUnlinked.map (·.req) ++ usb.freed

/-- The buffers: with the requests, spare, and in the hand of the worker. -/
def UsbOut.buffers (usb : UsbOut size) : List Nat :=
  usb.places.map usb.buf ++ usb.txSpare ++ usb.worker.hand

/-- The element is on one of the two lists. -/
def UsbOut.Listed (usb : UsbOut size) (ele : Element) : Prop :=
  ele ∈ usb.active ∨ ele ∈ usb.outUsb

instance (usb : UsbOut size) (ele : Element) : Decidable (usb.Listed ele) :=
  inferInstanceAs (Decidable (_ ∨ _))

/-- The packets on the pending list of the pool. -/
def UsbOut.pending (usb : UsbOut size) : Nat :=
  (usb.pool.contents .localBufferOut).length

/-- A run with the number of packets that the steps of the worker have put on the pending list. -/
structure Watch (size : Nat) where
  usb : UsbOut size
  queued : Nat

/-- The packets are counted on the list itself, before and after the step. -/
def Watch.next (sizes : Sizes) (watch : Watch size) (event : Event size) : Option (Watch size) :=
  (Out.next sizes watch.usb event).map fun following =>
    ⟨following,
      if event.byWorker then watch.queued + (following.pending - watch.usb.pending)
      else watch.queued⟩

end RfnmDriver.Usb.Out
