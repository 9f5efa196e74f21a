import Mathlib.Data.List.Perm.Basic
import RfnmDriver.Library.FrameStream
import RfnmDriver.Library.StepSystem

/-!
# TX frames out of a TCP stream

The receive loop of `tcp_data_worker`: the header goes into `hdr_buf`, a pool slot is taken for the
frame, the payload goes into the slot, and the slot is committed. What the stack returns to a
receive call, and whether the pool has a slot, is in the event. The loop sizes every payload as
packed 12-bit samples, where the consumer in `rfnm_handler_out` goes by the format of the header.
-/

namespace RfnmDriver.Eth

open StepSystem FrameStream

/-- A byte of the stream. -/
abbrev Byte := BitVec 8

/-- What the kernel tree says about `struct rfnm_tx_usb_buf`, in bytes. -/
structure TxLayout where
  /-- `RFNM_USB_TX_PACKET_HEAD_SIZE`. -/
  headSize : Nat
  magic : List Byte → BitVec 32
  multi : List Byte → Nat
  fmt : List Byte → Nat
  /-- `RFNM_PACKET_FMT_CS16`. -/
  fmtCs16 : Nat
  /-- `LA_TX_BASE_BUFSIZE`: a slot of 16-bit samples. -/
  baseBufsize : Nat
  /-- `LA_TX_BASE_BUFSIZE_12`: the slot packed to 12 bits. -/
  baseBufsize12 : Nat
  /-- `RFNM_TX_USB_BUF_MULTI`. -/
  multiMax : Nat
  headSize_pos : 0 < headSize
  baseBufsize12_pos : 0 < baseBufsize12
  packs : baseBufsize12 < baseBufsize

/-- The receive loop's view of one connection, and its dealings with the pool. -/
structure TxIngest where
  /-- `sock` is set. -/
  connected : Bool
  /-- The first `hdr_have` bytes of `hdr_buf`. -/
  hdr : List Byte
  /-- `slot_handle`. -/
  slot : Option Nat
  /-- The first `frame_have` bytes of the slot. -/
  frame : List Byte
  frameNeed : Nat
  /-- What was received on this connection. -/
  received : List Byte
  /-- The frames of this connection in the order they were committed. -/
  committed : List (List Byte)
  /-- The slots taken from the pool so far, and what became of them. -/
  taken : List Nat
  committedSlots : List Nat
  aborted : List Nat
  deriving DecidableEq, Repr

/-- What the stack and the pool do. -/
inductive IngestEvent
  /-- `tcp_worker_track_sock` takes a new connection. -/
  | connect
  /-- `kernel_recvmsg` delivers these bytes. -/
  | recv (bytes : List Byte)
  /-- `kernel_recvmsg` would block, or fails without ending the connection. -/
  | wouldBlock
  /-- The header is looked at; the pool has this free slot, or none. -/
  | header (free : Option Nat)
  /-- The peer has closed (0 bytes), or the connection is replaced. -/
  | closed
  deriving DecidableEq, Repr

/-- The magic number of a TX frame. -/
def txMagic : BitVec 32 :=
  0x758f4d4a#32

/-- The check of `magic` and `multi`. -/
def TxLayout.headOk (layout : TxLayout) (hdr : List Byte) : Prop :=
  layout.magic hdr = txMagic ∧ 1 ≤ layout.multi hdr ∧ layout.multi hdr ≤ layout.multiMax

/-- `frame_need`: what the loop takes a frame with this header to be long. -/
def TxLayout.frameNeed (layout : TxLayout) (hdr : List Byte) : Nat :=
  layout.headSize + layout.multi hdr * layout.baseBufsize12

instance (layout : TxLayout) (hdr : List Byte) : Decidable (layout.headOk hdr) :=
  inferInstanceAs (Decidable (_ ∧ _))

/-- The worker thread has started. -/
def TxIngest.init : TxIngest where
  connected := false
  hdr := []
  slot := none
  frame := []
  frameNeed := 0
  received := []
  committed := []
  taken := []
  committedSlots := []
  aborted := []

/-- How many bytes the next receive call asks for. -/
def TxIngest.wants (layout : TxLayout) (ingest : TxIngest) : Nat :=
  match ingest.slot with
  | none => layout.headSize - ingest.hdr.length
  | some _ => ingest.frameNeed - ingest.frame.length

/-- The bytes of a receive call go where it asked for them; a frame that is complete then is
committed. -/
def TxIngest.store (ingest : TxIngest) (bytes : List Byte) : TxIngest :=
  let got := { ingest with received := ingest.received ++ bytes }
  match ingest.slot with
  | none => { got with hdr := ingest.hdr ++ bytes }
  | some slot =>
      let frame := ingest.frame ++ bytes
      if frame.length = ingest.frameNeed then
        { got with
          slot := none
          frame := []
          committed := ingest.committed ++ [frame]
          committedSlots := slot :: ingest.committedSlots }
      else { got with frame := frame }

/-- A whole header is in `hdr_buf`: it is dropped, or copied into a claimed slot. -/
def TxIngest.parse (layout : TxLayout) (ingest : TxIngest) (free : Option Nat) : TxIngest :=
  if layout.headOk ingest.hdr then
    match free with
    | none => ingest
    | some slot =>
        { ingest with
          hdr := []
          slot := some slot
          frame := ingest.hdr
          frameNeed := layout.frameNeed ingest.hdr
          taken := slot :: ingest.taken }
  else { ingest with hdr := [] }

/-- The parse state is dropped, and a claimed slot goes back to the pool. -/
def TxIngest.drop (ingest : TxIngest) : TxIngest :=
  { ingest with
    connected := false
    hdr := []
    slot := none
    frame := []
    aborted := ingest.slot.toList ++ ingest.aborted }

/-- One step; `none` says that the loop is not where the event needs it. -/
def TxIngest.next (layout : TxLayout) (ingest : TxIngest) : IngestEvent → Option TxIngest
  | .connect =>
      if ingest.connected then none
      else some { ingest with connected := true, received := [], committed := [] }
  | .recv bytes =>
      if ingest.connected ∧ bytes ≠ [] ∧ bytes.length ≤ ingest.wants layout then
        some (ingest.store bytes)
      else none
  | .wouldBlock => if ingest.connected then some ingest else none
  | .header free =>
      if ingest.connected ∧ ingest.slot = none ∧ ingest.hdr.length = layout.headSize then
        some (ingest.parse layout free)
      else none
  | .closed => if ingest.connected then some ingest.drop else none

/-! ## Well-formed streams -/

/-- The header of a frame. -/
def TxLayout.head (layout : TxLayout) (frame : List Byte) : List Byte :=
  frame.take layout.headSize

/-- The frame carries 16-bit samples. -/
def TxLayout.Cs16 (layout : TxLayout) (frame : List Byte) : Prop :=
  layout.fmt (layout.head frame) = layout.fmtCs16

instance (layout : TxLayout) (frame : List Byte) : Decidable (layout.Cs16 frame) :=
  inferInstanceAs (Decidable (_ = _))

/-- A header that passes the check, and behind it the payload its `multi` and its format say. -/
structure TxLayout.WellFormed (layout : TxLayout) (frame : List Byte) : Prop where
  headOk : layout.headOk (layout.head frame)
  length : frame.length = layout.headSize + layout.multi (layout.head frame) *
    if layout.Cs16 frame then layout.baseBufsize else layout.baseBufsize12

/-- What was committed is what the stream has completed; every slot taken is committed, given
back, or in hand; and none is in hand without a connection. -/
structure TxIngest.Exact (ingest : TxIngest) (frames : List (List Byte)) : Prop where
  committed : ingest.committed = complete frames ingest.received.length
  conserved : ingest.taken.Perm
    (ingest.slot.toList ++ (ingest.committedSlots ++ ingest.aborted))
  returned : ingest.connected = false → ingest.slot = none

/-- Of a frame with 16-bit samples, as much is received as the loop takes for all of it. -/
def TxLayout.CutsShort (layout : TxLayout) (frames : List (List Byte)) (n : Nat) : Prop :=
  ∃ earlier frame later, frames = earlier ++ frame :: later ∧ layout.Cs16 frame ∧
    earlier.flatten.length + layout.frameNeed (layout.head frame) ≤ n

end RfnmDriver.Eth
