import RfnmDriver.Eth.IngestExactness
import RfnmDriver.Library.Lanes
import RfnmDriver.Tx.SinglePlacement

/-!
# How much of a packet the consumer reads

Both ingests take the payload of a TX packet for packed samples, whatever its format.
`rfnm_handler_out` reads as many bytes as the format says, so behind the payload of a packet with
16-bit samples it reads what an earlier packet left in the pool slot. Read `payloadRead_iff` first.
-/

namespace RfnmDriver.Tx

open Eth StepSystem Lanes

/-- The rest of what the kernel tree says about `struct rfnm_tx_usb_buf`, and its sizes in
samples. -/
structure BufLayout extends TxLayout where
  /-- `RFNM_TX_FLAG_TIME_VALID` of `tx_flags`. -/
  timeValid : List Byte → Bool
  /-- `RFNM_TX_FLAG_POS_VALID` of `tx_flags`. -/
  posValid : List Byte → Bool
  /-- `RFNM_TX_FLAG_EOB` of `tx_flags`. -/
  eob : List Byte → Bool
  phytimer : List Byte → BitVec 32
  usbCc : List Byte → BitVec 64
  dac : DacRing
  /-- `rfnm_unpack12to16_aarch64` ends on whole blocks of 256 bytes only. -/
  blocks : Nat
  baseBufsize_eq : baseBufsize = 256 * blocks
  elems_eq : baseBufsize = 4 * dac.elemsPerSlot
  baseBufsize12_eq : baseBufsize12 = 3 * dac.elemsPerSlot
  multiMax_eq : multiMax = dac.multiMax
  /-- Sizes are `uint32_t`. -/
  baseBufsize_lt : baseBufsize < 4294967296

/-- Bytes that are loaded: from an offset into the payload on, so many. -/
structure Load where
  offset : Nat
  length : Nat
  deriving DecidableEq, Repr

/-- The bytes that the loads take together. -/
def bytesRead (loads : List Load) : Nat :=
  (loads.map Load.length).sum

/-- No load goes past so many bytes. -/
def Within (received : Nat) (loads : List Load) : Prop :=
  ∀ load ∈ loads, load.offset + load.length ≤ received

/-! ## The ingests -/

namespace BufLayout

variable {layout : BufLayout} {frame : List Byte}

/-- The check of `rfnm_handler_usb` on a completed request; `actual` is the length of the frame. -/
def UsbAccepts (layout : BufLayout) (frame : List Byte) : Prop :=
  layout.headOk (layout.head frame) ∧ frame.length = layout.frameNeed (layout.head frame)

/-- `tcp_data_worker` commits the frame. -/
def TcpCommits (layout : BufLayout) (frame : List Byte) : Prop :=
  ∃ events ingest, run (TxIngest.next layout.toTxLayout) .init events = some ingest ∧
    frame ∈ ingest.committed

/-- One of the ingests takes the frame. -/
def Accepts (layout : BufLayout) (frame : List Byte) : Prop :=
  layout.UsbAccepts frame ∨ layout.TcpCommits frame

instance (layout : BufLayout) (frame : List Byte) : Decidable (layout.UsbAccepts frame) :=
  inferInstanceAs (Decidable (_ ∧ _))

/-- The payload bytes that were received. -/
def received (layout : BufLayout) (frame : List Byte) : Nat :=
  frame.length - layout.headSize

/-- The pool slot with a frame in it, over what was there before. -/
def reuse (old : Bytes) (frame : List Byte) : Bytes := fun offset =>
  frame.getD offset (old offset)

/-! ## The consumer -/

/-- The header in a slot. -/
def hdr (layout : BufLayout) (slot : Bytes) : List Byte :=
  (List.range layout.headSize).map slot

/-- `lb_fmt`. -/
def lbFmt (layout : BufLayout) (slot : Bytes) : PacketFmt :=
  if layout.fmt (layout.hdr slot) = layout.fmtCs16 then .cs16 else .packed12

/-- The packet in a slot, with the samples that its payload has in its format. -/
def packet (layout : BufLayout) (slot : Bytes) : TxPacket where
  timeValid := layout.timeValid (layout.hdr slot)
  posValid := layout.posValid (layout.hdr slot)
  eob := layout.eob (layout.hdr slot)
  phytimer := layout.phytimer (layout.hdr slot)
  usbCc := layout.usbCc (layout.hdr slot)
  multi := layout.multi (layout.hdr slot)
  samples := fun k =>
    match layout.lbFmt slot with
    | .cs16 => sampleAtByte slot (layout.headSize + 4 * k)
    | .packed12 =>
        unpackStore (slot (layout.headSize + 3 * k)) (slot (layout.headSize + 3 * k + 1))
          (slot (layout.headSize + 3 * k + 2))

end BufLayout

/-- The copies out of a `CS16` payload by the loop for a `TIME_VALID` packet, after its first
rounds, and `done`. -/
def timedLoads (dac : DacRing) (grid : TxGrid) (packet : TxPacket) : Nat → List Load × Nat
  | 0 => ([], 0)
  | round + 1 =>
      let (before, done) := timedLoads dac grid packet round
      let s0 := if round = 0 then padSamples dac grid packet.phytimer else 0
      let n := min (dac.elemsPerSlot - s0) (dac.content packet - done)
      (before ++ [⟨4 * done, 4 * n⟩], done + n)

/-- The registers of `rfnm_unpack12to16_aarch64`, and what it has loaded. -/
structure UnpackLoads where
  src : Nat
  count : BitVec 64
  loads : List Load

/-- One round: four times `ld3` of 48 bytes. -/
def unpackLoadRound (loop : UnpackLoads) : UnpackLoads where
  src := loop.src + 192
  count := loop.count - 256
  loads := loop.loads ++
    [⟨loop.src, 48⟩, ⟨loop.src + 48, 48⟩, ⟨loop.src + 96, 48⟩, ⟨loop.src + 144, 48⟩]

/-- The loads of `rfnm_unpack12to16_aarch64`; there are no more rounds than bytes. -/
def unpackLoads (src : Nat) (bytes : BitVec 32) : Option (List Load) :=
  (doWhile unpackLoadRound (fun loop => loop.count != 0) bytes.toNat
    ⟨src, bytes.setWidth 64, []⟩).map UnpackLoads.loads

namespace BufLayout

/-- The unpacking of the first slots of a payload. -/
def unpackSlots (layout : BufLayout) : Nat → Option (List Load)
  | 0 => some []
  | w + 1 => do
      let before ← unpackSlots layout w
      let slot ← unpackLoads (w * layout.baseBufsize12) (BitVec.ofNat 32 layout.baseBufsize)
      pure (before ++ slot)

/-- What `rfnm_handler_out` loads from the payload of a packet that the judge has accepted;
`refused` says that a TDD pattern owns the drain. -/
def payloadLoads (layout : BufLayout) (grid : TxGrid) (refused : Bool) (slot : Bytes) :
    Option (List Load) :=
  let packet := layout.packet slot
  let lbMulti := layout.dac.lbMulti packet
  if packet.timeValid then
    match layout.lbFmt slot with
    | .cs16 => some (timedLoads layout.dac grid packet (span layout.dac grid packet)).1
    | .packed12 => layout.unpackSlots lbMulti
  else if packet.posValid then
    if refused then some []
    else if packet.OnGrid grid then
      match layout.lbFmt slot with
      | .cs16 => some ((List.range lbMulti).map fun w =>
          ⟨w * layout.baseBufsize, layout.baseBufsize⟩)
      | .packed12 => layout.unpackSlots lbMulti
    else some []
  else some []

/-- The packet in the slot is read no further than it was received, whatever was in the slot
before. -/
def ReadsReceived (layout : BufLayout) (frame : List Byte) : Prop :=
  ∀ grid refused old, ∃ loads,
    layout.payloadLoads grid refused (reuse old frame) = some loads ∧
      bytesRead loads ≤ layout.received frame ∧ Within (layout.received frame) loads

end BufLayout

/-! ## Loads -/

section Loads

variable {dac : DacRing} {grid : TxGrid} {packet : TxPacket} {first second : List Load}
  {received : Nat}

/-- Two rows of loads take what each takes. -/
theorem bytesRead_append (first second : List Load) :
    bytesRead (first ++ second) = bytesRead first + bytesRead second := by
  rw [bytesRead, List.map_append, List.sum_append]
  rfl

/-- Two rows of loads go no further than each goes. -/
theorem Within.append (hfirst : Within received first) (hsecond : Within received second) :
    Within received (first ++ second) := by
  intro load hload
  obtain hload | hload := List.mem_append.mp hload
  · exact hfirst load hload
  · exact hsecond load hload

/-- Loads may be given more room. -/
theorem Within.mono {more : Nat} (h : Within received first) (hmore : received ≤ more) :
    Within more first :=
  fun load hload => (h load hload).trans hmore

/-- The loop counts the samples it has copied as the placement does. -/
theorem timedLoads_done (dac : DacRing) (grid : TxGrid) (packet : TxPacket) (ring : RingBuf)
    (count : Nat) :
    (timedLoads dac grid packet count).2 = (placeTimed dac grid packet ring count).2 := by
  induction count with
  | zero => rfl
  | succ round ih =>
      show (timedLoads dac grid packet round).2 +
          min (dac.elemsPerSlot - if round = 0 then padSamples dac grid packet.phytimer else 0)
            (dac.content packet - (timedLoads dac grid packet round).2) = _
      rw [ih]
      rfl

/-- It loads four bytes for each of them. -/
theorem bytesRead_timedLoads (dac : DacRing) (grid : TxGrid) (packet : TxPacket) (count : Nat) :
    bytesRead (timedLoads dac grid packet count).1 = 4 * (timedLoads dac grid packet count).2 := by
  induction count with
  | zero => rfl
  | succ round ih =>
      unfold timedLoads
      dsimp only
      rw [bytesRead_append, ih, Nat.mul_add]
      rfl

/-- Over all the slots that a packet spans, its whole content is copied. -/
theorem bytesRead_timedLoads_span (dac : DacRing) (grid : TxGrid) (packet : TxPacket) :
    bytesRead (timedLoads dac grid packet (span dac grid packet)).1 = 4 * dac.content packet := by
  have hlast : padSamples dac grid packet.phytimer + dac.content packet ≤
      span dac grid packet * dac.elemsPerSlot := by
    have hceil := Nat.lt_mul_div_succ
      (padSamples dac grid packet.phytimer + dac.content packet + dac.elemsPerSlot - 1)
      dac.elemsPerSlot_pos
    rw [Nat.mul_succ, Nat.mul_comm] at hceil
    unfold span
    omega
  rw [bytesRead_timedLoads, timedLoads_done dac grid packet fun _ _ => 0, placeTimed_done,
    Nat.min_eq_left (by omega)]

/-- The rounds of the unpacking load 192 bytes each, one round behind the other. -/
theorem iterate_unpackLoadRound (src : Nat) (count : BitVec 64) (rounds : Nat) :
    (unpackLoadRound^[rounds] ⟨src, count, []⟩).src = src + 192 * rounds ∧
      bytesRead (unpackLoadRound^[rounds] ⟨src, count, []⟩).loads = 192 * rounds ∧
      Within (src + 192 * rounds) (unpackLoadRound^[rounds] ⟨src, count, []⟩).loads := by
  induction rounds with
  | zero => exact ⟨rfl, rfl, fun load hload => absurd hload List.not_mem_nil⟩
  | succ rounds ih =>
      obtain ⟨hsrc, hbytes, hwithin⟩ := ih
      rw [Function.iterate_succ_apply']
      refine ⟨?_, ?_, (hwithin.mono (by omega)).append fun load hload => ?_⟩
      · show (unpackLoadRound^[rounds] ⟨src, count, []⟩).src + 192 = _
        omega
      · show bytesRead (_ ++ _) = _
        rw [bytesRead_append, hbytes]
        rfl
      · simp only [List.mem_cons, List.not_mem_nil, or_false] at hload
        obtain rfl | rfl | rfl | rfl := hload <;> dsimp only <;> omega

/-- On whole blocks `rfnm_unpack12to16_aarch64` returns, with three bytes loaded for four. -/
theorem unpackLoads_eq (src : Nat) {blocks : Nat} {bytes : BitVec 32}
    (hbytes : bytes.toNat = 256 * blocks) (hblocks : 0 < blocks) :
    ∃ loads, unpackLoads src bytes = some loads ∧ bytesRead loads = 192 * blocks ∧
      Within (src + 192 * blocks) loads := by
  have hlt := bytes.isLt
  have hcount : (bytes.setWidth 64).toNat = 256 * blocks := by
    rw [BitVec.toNat_setWidth, Nat.mod_eq_of_lt (by omega), hbytes]
  have hrun : doWhile unpackLoadRound (fun loop => loop.count != 0) bytes.toNat
      ⟨src, bytes.setWidth 64, []⟩ =
        some (unpackLoadRound^[blocks] ⟨src, bytes.setWidth 64, []⟩) :=
    doWhile_count UnpackLoads.count (fun _ => rfl) hcount (show 0 < 256 by omega) hblocks (by omega)
  obtain ⟨-, hread, hwithin⟩ := iterate_unpackLoadRound src (bytes.setWidth 64) blocks
  exact ⟨_, by rw [unpackLoads, hrun, Option.map_some], hread, hwithin⟩

end Loads

namespace BufLayout

variable {layout : BufLayout} {frame : List Byte} {ingest following : TxIngest}

/-- The unpacking of a payload loads its packed slots. -/
theorem unpackSlots_eq (layout : BufLayout) (count : Nat) :
    ∃ loads, layout.unpackSlots count = some loads ∧
      bytesRead loads = count * layout.baseBufsize12 ∧
      Within (count * layout.baseBufsize12) loads := by
  have hsize := layout.baseBufsize_eq
  have helems := layout.elems_eq
  have hpacked := layout.baseBufsize12_eq
  have hpos := layout.baseBufsize12_pos
  have hslot : (BitVec.ofNat 32 layout.baseBufsize).toNat = 256 * layout.blocks := by
    rw [BitVec.toNat_ofNat, Nat.mod_eq_of_lt layout.baseBufsize_lt, hsize]
  have hblocks : 192 * layout.blocks = layout.baseBufsize12 := by omega
  induction count with
  | zero =>
      refine ⟨[], rfl, ?_, fun load hload => absurd hload List.not_mem_nil⟩
      rw [Nat.zero_mul]
      rfl
  | succ w ih =>
      obtain ⟨before, hbefore, hread, hwithin⟩ := ih
      obtain ⟨slot, hloads, hmore, hin⟩ :=
        unpackLoads_eq (w * layout.baseBufsize12) hslot (by omega)
      rw [hblocks] at hmore hin
      refine ⟨before ++ slot, ?_, ?_, ?_⟩
      · simp only [unpackSlots, hbefore, hloads, bind, Option.bind_some, pure]
      · rw [bytesRead_append, hread, hmore, Nat.succ_mul]
      · rw [Nat.succ_mul]
        exact (hwithin.mono (Nat.le_add_right _ _)).append hin

/-! ## What is accepted -/

/-- The frames that were committed are as long as the loop takes them to be, and the frame under way
begins with a header that passed. -/
structure Committed (layout : BufLayout) (ingest : TxIngest) : Prop where
  done : ∀ frame ∈ ingest.committed, layout.UsbAccepts frame
  underWay : ingest.slot ≠ none → layout.headOk (layout.head ingest.frame) ∧
    layout.headSize ≤ ingest.frame.length ∧
    ingest.frameNeed = layout.frameNeed (layout.head ingest.frame)

/-- Every step of the loop commits such frames only. -/
theorem Committed.next (h : layout.Committed ingest) {event : IngestEvent}
    (hnext : ingest.next layout.toTxLayout event = some following) :
    layout.Committed following := by
  cases event with
  | connect =>
      obtain ⟨-, hsome⟩ := Option.ite_none_left_eq_some.mp hnext
      obtain rfl := Option.some.inj hsome
      exact ⟨fun frame hframe => absurd hframe List.not_mem_nil, h.underWay⟩
  | recv bytes =>
      obtain ⟨-, rfl⟩ := of_guard hnext
      cases hslot : ingest.slot with
      | none =>
          rw [TxIngest.store_header hslot]
          exact ⟨h.done, fun hsome => absurd hslot hsome⟩
      | some slot =>
          obtain ⟨hok, hlong, hneed⟩ := h.underWay (by rw [hslot]; exact Option.some_ne_none slot)
          have hhead : layout.head (ingest.frame ++ bytes) = layout.head ingest.frame :=
            List.take_append_of_le_length hlong
          by_cases hlast : (ingest.frame ++ bytes).length = ingest.frameNeed
          · -- the frame is committed with the length its head asks for
            rw [TxIngest.store_last hslot hlast]
            refine ⟨fun frame hframe => ?_, fun hsome => absurd rfl hsome⟩
            obtain hframe | hframe := List.mem_append.mp hframe
            · exact h.done frame hframe
            · obtain rfl := List.mem_singleton.mp hframe
              exact ⟨by rwa [hhead], by rw [hlast, hneed, hhead]⟩
          · rw [TxIngest.store_more hslot hlast]
            refine ⟨h.done, fun _ => ?_⟩
            show layout.headOk (layout.head (ingest.frame ++ bytes)) ∧
              layout.headSize ≤ (ingest.frame ++ bytes).length ∧
              ingest.frameNeed = layout.frameNeed (layout.head (ingest.frame ++ bytes))
            rw [hhead, List.length_append]
            exact ⟨hok, by omega, hneed⟩
  | wouldBlock =>
      obtain ⟨-, rfl⟩ := of_guard hnext
      exact h
  | header free =>
      obtain ⟨⟨-, hslot, hwhole⟩, rfl⟩ := of_guard hnext
      unfold TxIngest.parse
      split
      next hok =>
        cases free with
        | none => exact h
        | some slot =>
            have hhead : layout.head ingest.hdr = ingest.hdr := List.take_of_length_le hwhole.le
            refine ⟨h.done, fun _ => ?_⟩
            show layout.headOk (layout.head ingest.hdr) ∧ layout.headSize ≤ ingest.hdr.length ∧
              layout.frameNeed ingest.hdr = layout.frameNeed (layout.head ingest.hdr)
            rw [hhead]
            exact ⟨hok, hwhole.ge, rfl⟩
      next => exact ⟨h.done, fun hsome => absurd hslot hsome⟩
  | closed =>
      obtain ⟨-, rfl⟩ := of_guard hnext
      exact ⟨h.done, fun hsome => absurd rfl hsome⟩

/-- Whichever ingest takes a frame, its header passed and it is as long as packed samples are. -/
theorem Accepts.usbAccepts (h : layout.Accepts frame) : layout.UsbAccepts frame := by
  obtain h | ⟨events, ingest, hrun, hframe⟩ := h
  · exact h
  · have hinit : layout.Committed TxIngest.init :=
      ⟨fun frame hframe => absurd hframe List.not_mem_nil, fun hsome => absurd rfl hsome⟩
    have hcommitted : layout.Committed ingest :=
      (always_of_inductive (fun _ _ _ h hnext => h.next hnext) hinit).final hrun
    exact hcommitted.done frame hframe

/-! ## What is read -/

/-- The header in the slot is that of the frame. -/
theorem hdr_reuse (h : layout.UsbAccepts frame) (old : Bytes) :
    layout.hdr (reuse old frame) = layout.head frame := by
  have hlong : layout.headSize ≤ frame.length := by
    rw [h.2, TxLayout.frameNeed]
    exact Nat.le_add_right _ _
  refine List.ext_getElem (by simp [hdr, TxLayout.head, hlong]) fun k hk _ => ?_
  have hin : k < frame.length := by
    simp only [hdr, List.length_map, List.length_range] at hk
    omega
  simp [hdr, reuse, TxLayout.head, hin]

/-- The consumer goes by the `multi` of the frame. -/
theorem lbMulti_reuse (h : layout.UsbAccepts frame) (old : Bytes) :
    layout.dac.lbMulti (layout.packet (reuse old frame)) = layout.multi (layout.head frame) := by
  obtain ⟨-, hlow, hhigh⟩ := h.1
  rw [layout.multiMax_eq] at hhigh
  show (if 1 ≤ layout.multi (layout.hdr (reuse old frame)) ∧
    layout.multi (layout.hdr (reuse old frame)) ≤ layout.dac.multiMax then
      layout.multi (layout.hdr (reuse old frame)) else layout.dac.multiMax) = _
  rw [hdr_reuse h, if_pos ⟨hlow, hhigh⟩]

/-- The payload that was received is one of packed samples. -/
theorem UsbAccepts.received_eq (h : layout.UsbAccepts frame) :
    layout.received frame = layout.multi (layout.head frame) * layout.baseBufsize12 := by
  rw [received, h.2, TxLayout.frameNeed, Nat.add_sub_cancel_left]

/-- A payload of 16-bit samples is longer. -/
theorem UsbAccepts.received_lt (h : layout.UsbAccepts frame) :
    layout.received frame < layout.multi (layout.head frame) * layout.baseBufsize := by
  rw [h.received_eq]
  exact Nat.mul_lt_mul_of_pos_left layout.packs h.1.2.1

/-- A packed payload is read as far as it was received, or not at all. -/
theorem readsReceived_of_packed (h : layout.UsbAccepts frame) (hpacked : ¬ layout.Cs16 frame) :
    layout.ReadsReceived frame := by
  intro grid refused old
  have hfmt : layout.lbFmt (reuse old frame) = .packed12 := by
    rw [lbFmt, hdr_reuse h]
    exact if_neg hpacked
  obtain ⟨loads, hloads, hread, hwithin⟩ :=
    layout.unpackSlots_eq (layout.multi (layout.head frame))
  rw [← h.received_eq] at hread hwithin
  have hnone : ∃ loads, some [] = some loads ∧ bytesRead loads ≤ layout.received frame ∧
      Within (layout.received frame) loads :=
    ⟨[], rfl, Nat.zero_le _, fun load hload => absurd hload List.not_mem_nil⟩
  simp only [payloadLoads, hfmt, lbMulti_reuse h]
  split
  · exact ⟨loads, hloads, hread.le, hwithin⟩
  · split
    · split
      · exact hnone
      · split
        · exact ⟨loads, hloads, hread.le, hwithin⟩
        · exact hnone
    · exact hnone

/-- A packet without a placement flag is not read. -/
theorem readsReceived_of_unstamped (h : layout.UsbAccepts frame)
    (htime : layout.timeValid (layout.head frame) = false)
    (hpos : layout.posValid (layout.head frame) = false) : layout.ReadsReceived frame := by
  intro grid refused old
  refine ⟨[], ?_, Nat.zero_le _, fun load hload => absurd hload List.not_mem_nil⟩
  simp only [payloadLoads, packet, hdr_reuse h, htime, hpos, Bool.false_eq_true, if_false]

/-- On a grid that begins with its stamp, all of a packet's 16-bit samples are read. -/
theorem bytesRead_cs16 (h : layout.UsbAccepts frame) (hcs16 : layout.Cs16 frame)
    (hflag : layout.timeValid (layout.head frame) = true ∨
      layout.posValid (layout.head frame) = true) (old : Bytes) :
    ∃ grid loads, layout.payloadLoads grid false (reuse old frame) = some loads ∧
      bytesRead loads = layout.multi (layout.head frame) * layout.baseBufsize := by
  let grid : TxGrid := ⟨layout.phytimer (layout.head frame), 0, Nat.zero_le _⟩
  have hfmt : layout.lbFmt (reuse old frame) = .cs16 := by
    rw [lbFmt, hdr_reuse h]
    exact if_pos hcs16
  have hmulti := lbMulti_reuse h old
  have htime : (layout.packet (reuse old frame)).timeValid = layout.timeValid (layout.head frame) :=
    congrArg layout.timeValid (hdr_reuse h old)
  have hpos : (layout.packet (reuse old frame)).posValid = layout.posValid (layout.head frame) :=
    congrArg layout.posValid (hdr_reuse h old)
  have hgrid : (layout.packet (reuse old frame)).OnGrid grid := by
    have hstamp :
        (layout.packet (reuse old frame)).phytimer = layout.phytimer (layout.head frame) :=
      congrArg layout.phytimer (hdr_reuse h old)
    show (_ - _ : BitVec 32).toNat % _ = 0
    rw [hstamp, BitVec.sub_self]
    exact Nat.zero_mod _
  refine ⟨grid, ?_⟩
  simp only [payloadLoads, hfmt, hmulti]
  by_cases htimed : layout.timeValid (layout.head frame) = true
  · rw [if_pos (htime.trans htimed)]
    refine ⟨_, rfl, ?_⟩
    rw [bytesRead_timedLoads_span, DacRing.content, hmulti, layout.elems_eq, Nat.mul_left_comm]
  · rw [← htime] at htimed
    rw [if_neg htimed, if_pos (hpos.trans (hflag.resolve_left (htime ▸ htimed))),
      if_neg Bool.false_ne_true, if_pos hgrid]
    refine ⟨_, rfl, ?_⟩
    simp [bytesRead, Function.comp_def]

/-- The samples that a packed packet places are those it was received with. -/
theorem samples_packed (h : layout.UsbAccepts frame) (hpacked : ¬ layout.Cs16 frame)
    (old old' : Bytes) {k : Nat}
    (hk : k < layout.dac.content (layout.packet (reuse old frame))) :
    (layout.packet (reuse old frame)).samples k = (layout.packet (reuse old' frame)).samples k := by
  have hfmt : ∀ old, layout.lbFmt (reuse old frame) = .packed12 := by
    intro old
    rw [lbFmt, hdr_reuse h]
    exact if_neg hpacked
  rw [DacRing.content, lbMulti_reuse h] at hk
  have hlength : frame.length = layout.headSize +
      3 * (layout.multi (layout.head frame) * layout.dac.elemsPerSlot) := by
    rw [h.2, TxLayout.frameNeed, layout.baseBufsize12_eq, Nat.mul_left_comm]
  have hin : ∀ byte < 3, reuse old frame (layout.headSize + 3 * k + byte) =
      reuse old' frame (layout.headSize + 3 * k + byte) := by
    intro byte hbyte
    have hlt : layout.headSize + 3 * k + byte < frame.length := by omega
    simp only [reuse, List.getD_eq_getElem?_getD, List.getElem?_eq_getElem hlt, Option.getD_some]
  have hzero := hin 0 (by omega)
  have hone := hin 1 (by omega)
  have htwo := hin 2 (by omega)
  rw [Nat.add_zero] at hzero
  simp only [packet, hfmt, hzero, hone, htwo]

/-- Behind what was received, a packet with 16-bit samples has those that were in the slot
before. -/
theorem samples_cs16 (h : layout.UsbAccepts frame) (hcs16 : layout.Cs16 frame) (old : Bytes)
    {k : Nat} (hk : layout.received frame ≤ 4 * k) :
    (layout.packet (reuse old frame)).samples k = sampleAtByte old (layout.headSize + 4 * k) := by
  have hfmt : layout.lbFmt (reuse old frame) = .cs16 := by
    rw [lbFmt, hdr_reuse h]
    exact if_pos hcs16
  have hout : ∀ offset, layout.headSize + 4 * k ≤ offset → reuse old frame offset = old offset := by
    intro offset hoffset
    have hge : frame.length ≤ offset := by
      rw [received] at hk
      omega
    rw [reuse, List.getD_eq_getElem?_getD, List.getElem?_eq_none hge, Option.getD_none]
  simp only [packet, hfmt, sampleAtByte]
  rw [hout _ (by omega), hout _ (by omega), hout _ (by omega), hout _ (by omega)]

/-- Of a frame that either ingest accepts, the consumer reads no more payload than was received, in
every placement and whatever the slot held before, exactly when the samples are packed or the frame
has no placement flag. -/
theorem payloadRead_iff (layout : BufLayout) (frame : List Byte) (haccepts : layout.Accepts frame) :
    layout.ReadsReceived frame ↔ ¬ layout.Cs16 frame ∨
      layout.timeValid (layout.head frame) = false ∧
        layout.posValid (layout.head frame) = false := by
  have h := haccepts.usbAccepts
  constructor
  · intro hreads
    by_contra hnot
    obtain ⟨hcs16, hflag⟩ := not_or.mp hnot
    obtain ⟨grid, loads, hloads, hall⟩ :=
      bytesRead_cs16 h (not_not.mp hcs16) (by grind) fun _ => 0
    obtain ⟨loads', hloads', hread, -⟩ := hreads grid false fun _ => 0
    obtain rfl := Option.some.inj (hloads.symm.trans hloads')
    have hmore := h.received_lt
    omega
  · rintro (hpacked | ⟨htime, hpos⟩)
    · exact readsReceived_of_packed h hpacked
    · exact readsReceived_of_unstamped h htime hpos

/-- A header of three bytes, `multi`, `fmt` and `tx_flags`, and slots of one block. -/
def sample : BufLayout where
  headSize := 3
  magic := fun _ => txMagic
  multi := fun hdr => (hdr.getD 0 0).toNat
  fmt := fun hdr => (hdr.getD 1 0).toNat
  fmtCs16 := 2
  baseBufsize := 256
  baseBufsize12 := 192
  multiMax := 4
  headSize_pos := by omega
  baseBufsize12_pos := by omega
  packs := by omega
  timeValid := fun hdr => hdr.getD 2 0 == 1
  posValid := fun hdr => hdr.getD 2 0 == 2
  eob := fun _ => false
  phytimer := fun _ => 0
  usbCc := fun _ => 0
  dac := ⟨4, 64, 4, by omega, by omega, by omega, by omega⟩
  blocks := 1
  baseBufsize_eq := rfl
  elems_eq := rfl
  baseBufsize12_eq := rfl
  multiMax_eq := rfl
  baseBufsize_lt := by omega

/-- A packet of one slot with an explicit tick. -/
def sampleFrame (fmt : Byte) : List Byte :=
  [1, fmt, 1] ++ List.replicate 192 9

/-- Its header passes, and it is as long as a packed one. -/
theorem sampleFrame_usbAccepts (fmt : Byte) : sample.UsbAccepts (sampleFrame fmt) := by
  have hmulti : sample.multi (sample.head (sampleFrame fmt)) = 1 := rfl
  refine ⟨⟨rfl, hmulti.ge, by rw [hmulti]; decide⟩, ?_⟩
  rw [TxLayout.frameNeed, hmulti, sampleFrame, List.length_append, List.length_replicate]
  show 3 + 192 = 3 + 1 * 192
  omega

/-- A packed packet is read as far as it was received. -/
theorem payloadRead_iff_packed :
    sample.timeValid (sample.head (sampleFrame 0)) = true ∧
      sample.ReadsReceived (sampleFrame 0) :=
  ⟨rfl, (payloadRead_iff sample (sampleFrame 0) (.inl (sampleFrame_usbAccepts 0))).mpr
    (.inl (by decide))⟩

/-- Of a packet with 16-bit samples either ingest takes 192 bytes of payload, and the consumer reads
256. -/
theorem cs16_reads_stale :
    sample.UsbAccepts (sampleFrame 2) ∧ sample.TcpCommits (sampleFrame 2) ∧
      sample.received (sampleFrame 2) = 192 ∧
      (sample.payloadLoads sampleGrid false (reuse (fun _ => 7) (sampleFrame 2))).map bytesRead =
        some 256 ∧
      ¬ sample.ReadsReceived (sampleFrame 2) := by
  have haccepts := sampleFrame_usbAccepts 2
  have hreceived : sample.received (sampleFrame 2) = 192 := haccepts.received_eq
  have hread : (sample.payloadLoads sampleGrid false
      (reuse (fun _ => 7) (sampleFrame 2))).map bytesRead = some 256 := by
    decide
  have hrun : (run (TxIngest.next sample.toTxLayout) .init [.connect, .recv [1, 2, 1],
      .header (some 0), .recv (List.replicate 192 9)]).map TxIngest.committed =
        some [sampleFrame 2] := by
    decide +kernel
  refine ⟨haccepts, ?_, hreceived, hread, fun hreads => ?_⟩
  · obtain ⟨ingest, hingest, hcommitted⟩ := Option.map_eq_some_iff.mp hrun
    exact ⟨_, ingest, hingest, hcommitted ▸ List.mem_singleton_self _⟩
  · obtain ⟨loads, hloads, hle, -⟩ := hreads sampleGrid false fun _ => 7
    rw [hloads] at hread
    have hmore := Option.some.inj hread
    omega

end BufLayout

end RfnmDriver.Tx
