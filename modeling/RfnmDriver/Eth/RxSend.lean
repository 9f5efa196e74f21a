import Mathlib.Data.List.Chain
import RfnmDriver.Library.StepSystem

/-!
# RX records into a TCP stream

The send loop of `tcp_data_tx_worker`: up to `RFNM_ETH_TX_BATCH` packets are dequeued from the
local RX pool, their records handed to the socket together, and what the socket leaves is offered
again until a call fails. The results of the socket and the state of the pool are in the event.
-/

namespace RfnmDriver.Eth

open StepSystem

/-- What the kernel tree says about `struct rfnm_rx_usb_buf`. -/
structure RxLayout where
  /-- `RFNM_USB_RX_PACKET_HEAD_SIZE`, in bytes. -/
  headSize : Nat
  /-- `RFNM_PACKET_FMT_PACKED12`. -/
  fmtPacked12 : Nat
  /-- `RFNM_PACKET_FMT_CS16`. -/
  fmtCs16 : Nat
  /-- `RFNM_USB_RX_PACKET_ELEM_CNT`. -/
  elemCntMax : Nat
  headSize_pos : 0 < headSize

/-- A packet of the local RX pool: its handle, two fields of its head, and the memory from its
first byte on. -/
structure RxSlot where
  handle : Nat
  fmt : Nat
  elemCnt : Nat
  pkt : Nat → BitVec 8

/-- A byte on the wire, and where it stands in its record: `offset` bytes are before it and `left`
bytes behind it. -/
structure Octet where
  handle : Nat
  offset : Nat
  left : Nat
  byte : BitVec 8
  deriving DecidableEq, Repr

/-- What may follow a byte on the wire: the next byte of its record, or the start of another. -/
def Octet.Follows (following octet : Octet) : Prop :=
  if octet.left = 0 then following.offset = 0
  else following.handle = octet.handle ∧ following.offset = octet.offset + 1

/-- One `kvec` of a batch: a record, and the handle to release. -/
structure Iov where
  handle : Nat
  octets : List Octet
  deriving DecidableEq, Repr

/-- `RFNM_ETH_TX_BATCH`. -/
def txBatch : Nat :=
  4

/-- The batches of one look at the connection together: `drained < 16`. -/
def drainedMax : Nat :=
  16

/-- The head violates nothing of the protocol. -/
def RxLayout.headOk (layout : RxLayout) (slot : RxSlot) : Prop :=
  (slot.fmt = layout.fmtPacked12 ∨ slot.fmt = layout.fmtCs16) ∧
    slot.elemCnt ≠ 0 ∧ slot.elemCnt ≤ layout.elemCntMax

/-- `iov_len`: the head and exactly the payload it declares. -/
def RxLayout.iovLen (layout : RxLayout) (slot : RxSlot) : Nat :=
  layout.headSize + slot.elemCnt * if slot.fmt = layout.fmtCs16 then 4 else 3

/-- The bytes of the record. -/
def RxLayout.record (layout : RxLayout) (slot : RxSlot) : List Octet :=
  (List.range (layout.iovLen slot)).map fun offset =>
    { handle := slot.handle
      offset := offset
      left := layout.iovLen slot - 1 - offset
      byte := slot.pkt offset }

instance RxLayout.decidableHeadOk (layout : RxLayout) (slot : RxSlot) :
    Decidable (layout.headOk slot) :=
  inferInstanceAs (Decidable (_ ∧ _))

instance (following octet : Octet) : Decidable (following.Follows octet) :=
  inferInstanceAs (Decidable (ite _ _ _))

/-- Where the worker is. -/
inductive SendPhase
  /-- At the top of its loop, about to look at the connection. -/
  | top
  /-- Filling `batch` from the pool. -/
  | gather (batch : List Iov)
  /-- Offering the batch to the socket, which has taken `sent` bytes of it. -/
  | send (batch : List Iov) (sent : Nat)
  deriving DecidableEq, Repr

/-- The batch the worker has in hand. -/
def SendPhase.batch : SendPhase → List Iov
  | .top => []
  | .gather batch => batch
  | .send batch _ => batch

/-- The worker, and what it has done. -/
structure SendWorker where
  sock : Option Nat
  phase : SendPhase
  drained : Nat
  /-- The bytes the socket has accepted on this connection. -/
  accepted : List Octet
  /-- The handles taken from the pool. -/
  dequeued : List Nat
  released : List Nat
  deriving DecidableEq, Repr

/-- What the stack and the pool do. -/
inductive SendEvent
  /-- `tcp_worker_track_sock` finds this connection. -/
  | track (conn : Option Nat)
  /-- `rfnm_dequeue_local_buffer_rx_ref` returns this packet, or `NULL`. -/
  | dequeue (slot : Option RxSlot)
  /-- `kernel_sendmsg` returns: bytes taken, 0, or an error. -/
  | sendmsg (ret : Int)

/-- The worker thread has started. -/
def SendWorker.init : SendWorker where
  sock := none
  phase := .top
  drained := 0
  accepted := []
  dequeued := []
  released := []

/-- The bytes of a batch. -/
def batchOctets (batch : List Iov) : List Octet :=
  (batch.map Iov.octets).flatten

/-- The handles of a batch. -/
def batchHandles (batch : List Iov) : List Nat :=
  batch.map Iov.handle

/-- `kv`: the batch without the first `skip` bytes of it. -/
def kvecs : List Iov → Nat → List (List Octet)
  | [], _ => []
  | iov :: rest, skip =>
      if iov.octets.length ≤ skip then kvecs rest (skip - iov.octets.length)
      else iov.octets.drop skip :: kvecs rest 0

/-- The batch is as large as it gets: it goes to the socket, unless it is empty. -/
def SendWorker.close (worker : SendWorker) (batch : List Iov) : SendWorker :=
  if batch = [] then { worker with phase := .top }
  else { worker with phase := .send batch 0, drained := worker.drained + batch.length }

/-- The packet goes into the batch if its head is in order, and back to the pool if not. -/
def SendWorker.gather (layout : RxLayout) (worker : SendWorker) (batch : List Iov)
    (slot : RxSlot) : SendWorker :=
  let taken := { worker with dequeued := slot.handle :: worker.dequeued }
  if layout.headOk slot then
    let more := batch ++ [{ handle := slot.handle, octets := layout.record slot }]
    if more.length = txBatch then taken.close more else { taken with phase := .gather more }
  else { taken with phase := .gather batch, released := slot.handle :: worker.released }

/-- The packets of the batch go back to the pool. -/
def SendWorker.release (worker : SendWorker) (batch : List Iov) : SendWorker :=
  { worker with released := batchHandles batch ++ worker.released }

/-- The socket has taken `count` bytes more. -/
def SendWorker.took (worker : SendWorker) (batch : List Iov) (sent count : Nat) : SendWorker :=
  let told :=
    { worker with accepted := worker.accepted ++ (kvecs batch sent).flatten.take count }
  if sent + count < (batchOctets batch).length then
    { told with phase := .send batch (sent + count) }
  else
    { told.release batch with
      phase := if worker.drained < drainedMax then .gather [] else .top }

/-- One step; `none` says that the worker is not where the event needs it. -/
def SendWorker.next (layout : RxLayout) (worker : SendWorker) : SendEvent → Option SendWorker
  | .track conn =>
      if worker.phase = .top then
        some { worker with
          sock := conn
          phase := if conn = none then .top else .gather []
          drained := 0
          accepted := if conn = worker.sock then worker.accepted else [] }
      else none
  | .dequeue slot =>
      match worker.phase with
      | .gather batch =>
          match slot with
          | none => some (worker.close batch)
          | some slot => some (worker.gather layout batch slot)
      | _ => none
  | .sendmsg ret =>
      match worker.phase with
      | .send batch sent =>
          if ret ≤ 0 then some { worker.release batch with phase := .top }
          else if sent + ret.toNat ≤ (batchOctets batch).length then
            some (worker.took batch sent ret.toNat)
          else none
      | _ => none

/-! ## Framing -/

/-- The bytes of a whole record. -/
def RxLayout.IsRecord (layout : RxLayout) (octets : List Octet) : Prop :=
  ∃ slot, layout.headOk slot ∧ octets = layout.record slot

/-- What the socket has accepted is the start of a list of whole records, and a record that was cut
goes on where it was cut. -/
structure SendWorker.Framed (layout : RxLayout) (worker : SendWorker) : Prop where
  records : ∃ records : List (List Octet), (∀ record ∈ records, layout.IsRecord record) ∧
    worker.accepted <+: records.flatten
  resumes : worker.accepted.IsChain fun octet following => following.Follows octet

/-- The socket accepts the first bytes of a batch only where the record before them has ended. -/
def SendWorker.StartsRecord (worker : SendWorker) (event : SendEvent) : Prop :=
  ∀ ret batch, event = .sendmsg ret → 0 < ret → worker.phase = .send batch 0 →
    ∀ octet ∈ worker.accepted.getLast?, octet.left = 0

end RfnmDriver.Eth
