import RfnmDriver.Rx.AgcPeak
import RfnmDriver.Rx.PayloadOffset

/-!
# What the copies of a sub-buffer read and write

The header checks of `rfnm_handler_in` look at one descriptor at a time, and the read offset is the
samples of all those accepted before it. Nothing holds their sum to the 768 samples of a slot, so a
read may leave the unpacked samples (`overlong_slot`); the block that would say so is under
`if(0)`. The writes are held to the packet by the flush before them: `FillInv`.
-/

namespace RfnmDriver.Rx

open StepSystem AgcPeak

/-- A copy, in bytes: from where in `tmp_buff_uncompress`, to where in a payload. -/
structure Copy where
  source : Nat
  read : Nat
  dest : Nat
  write : Nat
  deriving DecidableEq, Repr

/-- The copy reads inside so many bytes and writes inside so many. -/
def Copy.Inside (unpacked payload : Nat) (copy : Copy) : Prop :=
  copy.source + copy.read ≤ unpacked ∧ copy.dest + copy.write ≤ payload

instance (unpacked payload : Nat) : DecidablePred (Copy.Inside unpacked payload) :=
  fun _ => inferInstanceAs (Decidable (_ ∧ _))

/-- The samples a slot is unpacked to. -/
def slotCapacity : Nat := 768

/-- The bytes of the two payloads: a USB packet holds `RFNM_RX_USB_BUF_SIZE_ELEMS` packed samples,
and a local one as many widened to four bytes. -/
structure Payloads (config : Config) where
  usb : Nat
  localRx : Nat
  usbFits : 3 * config.elems ≤ usb
  localFits : 4 * config.elems ≤ localRx

/-- The bytes of a sample. -/
def sampleBytes : LocalRxFmt → Nat
  | .packed12 => 3
  | .cs16 => 4

/-- The producer, and the format each lane's partial local packet was begun in. -/
structure CopyLog where
  producer : Producer
  /-- `rx_local_cb.fmt`. -/
  fmt : Fin 4 → LocalRxFmt

/-- An event of the producer, and what it finds in `rfnm_local_rx_fmt` and `rx_ship_slots`. -/
structure Moment where
  event : Event
  localRxFmt : LocalRxFmt
  rxShipSlots : Nat

/-- The constants, with the value `rx_ship_slots` has now. -/
def Moment.config (moment : Moment) (config : Config) : Config :=
  { config with shipSlots := moment.rxShipSlots }

namespace CopyLog

open Producer

/-! ## The copies -/

section Copies

variable (config : Config) (log : CopyLog) (moment : Moment) (lane : Fin 4) (sub : SubBuffer)
  (env : SubEnv)

/-- The `memcpy` of the USB lane, behind the flush. -/
def usbCopy : Option Copy :=
  if env.copyOpen then
    some {
      source := 3 * log.producer.subRead
      read := 3 * sub.size
      dest := 3 * (log.producer.flushUsb (moment.config config) lane sub env).rxUsb.adcBufSize lane
      write := 3 * sub.size }
  else none

/-- `local_write_pos` behind the flush. -/
def localWritePos : Nat :=
  (log.producer.flushLocal (moment.config config) lane sub env).rxLocal.adcBufSize lane

/-- The format the local packet is filled in: a new one takes that of the moment. -/
def fillFmt : LocalRxFmt :=
  if log.localWritePos config moment lane sub env = 0 then moment.localRxFmt else log.fmt lane

/-- `rfnm_local_fill_cs16` or the `memcpy` of the local lane, which runs only for a consumer. -/
def localCopy : Option Copy :=
  if env.localAlive then
    let bytes := sampleBytes (log.fillFmt config moment lane sub env)
    some {
      source := 3 * log.producer.subRead
      read := 3 * sub.size
      dest := bytes * log.localWritePos config moment lane sub env
      write := bytes * sub.size }
  else none

/-- The formats after the moment. -/
def latch : Fin 4 → LocalRxFmt :=
  match moment.event, log.producer.accepted with
  | .sub env, some (lane, sub) =>
      if env.localAlive then
        Function.update log.fmt lane (log.fillFmt config moment lane sub env)
      else log.fmt
  | _, _ => log.fmt

/-- One moment. -/
def next : Option CopyLog :=
  (log.producer.next (moment.config config) moment.event).map fun producer =>
    ⟨producer, log.latch config moment⟩

end Copies

/-- The module init. -/
def init (usbBuf localBuf : Nat → Packet) : CopyLog where
  producer := .init usbBuf localBuf
  fmt := fun _ => .packed12

/-! ## What a copy touches -/

/-- A sub-buffer appended changes the samples that its copy writes, in its packet alone. -/
theorem payload_append (assembler : Assembler) (lane : Fin 4) (sub : SubBuffer)
    (source : Nat → Sample) (offset : Nat) (copied : Bool) {slot k : Nat}
    (hout : slot = assembler.adcBuf lane →
      k < assembler.adcBufSize lane ∨ assembler.adcBufSize lane + sub.size ≤ k) :
    ((assembler.append lane sub source offset copied).buf slot).payload k =
      (assembler.buf slot).payload k := by
  show (Function.update assembler.buf _ _ slot).payload k = _
  by_cases hslot : slot = assembler.adcBuf lane
  · have hnone : ¬(assembler.adcBufSize lane ≤ k ∧ k < assembler.adcBufSize lane + sub.size) := by
      have := hout hslot
      omega
    rw [hslot, Function.update_self]
    unfold Assembler.filled
    cases copied
    · rw [if_neg Bool.false_ne_true]
      split <;> rfl
    · rw [if_pos rfl]
      split <;> exact if_neg hnone
  · rw [Function.update_of_ne hslot]

/-- It reads no samples but those of its copy. -/
theorem append_congr (assembler : Assembler) (lane : Fin 4) (sub : SubBuffer)
    {source other : Nat → Sample} {offset : Nat} (copied : Bool)
    (hsource : ∀ position < sub.size, source (offset + position) = other (offset + position)) :
    assembler.append lane sub source offset copied =
      assembler.append lane sub other offset copied := by
  have hcopy : (assembler.packet lane).copy source offset (assembler.adcBufSize lane) sub.size =
      (assembler.packet lane).copy other offset (assembler.adcBufSize lane) sub.size := by
    unfold Packet.copy
    congr 1
    funext k
    split
    · next hin => exact hsource _ (by omega)
    · rfl
  unfold Assembler.append Assembler.filled
  rw [hcopy]

/-- A widened sample is read from its three bytes. -/
theorem fillByte_congr {src other : Lanes.Mem 8} {sample : Nat}
    (h : ∀ reg < 3, src (3 * sample + reg) = other (3 * sample + reg)) (byte : Nat) :
    Cs16Fill.fillByte src sample byte = Cs16Fill.fillByte other sample byte := by
  have hzero := h 0 (by omega)
  have hone := h 1 (by omega)
  have htwo := h 2 (by omega)
  match byte with
  | 0 =>
      show src (3 * sample + 1) >>> 4 <<< 4 = other (3 * sample + 1) >>> 4 <<< 4
      rw [hone]
  | 1 => exact htwo
  | 2 =>
      show src (3 * sample + 0) <<< 4 = other (3 * sample + 0) <<< 4
      rw [hzero]
  | 3 =>
      show src (3 * sample + 0) >>> 4 ||| src (3 * sample + 1) <<< 4 =
        other (3 * sample + 0) >>> 4 ||| other (3 * sample + 1) <<< 4
      rw [hzero, hone]
  | _ + 4 => rfl

/-- `rfnm_local_fill_cs16` reads three bytes and writes four for every sample of a sub-buffer that
passed the header checks, and no others. -/
theorem localFillCs16_footprint {lane : Fin 4} {sub : SubBuffer} (hlane : sub.lane? = some lane)
    (hsize : sub.size ≠ 0) {src other : Lanes.Mem 8} (dest : Lanes.Mem 8)
    (hsource : ∀ addr < 3 * sub.size, src addr = other addr) {fuel : Nat}
    (hfuel : sub.size ≤ fuel) :
    ∃ out, Cs16Fill.localFillCs16 fuel dest src (BitVec.ofNat 32 sub.size) = some out ∧
      Cs16Fill.localFillCs16 fuel dest other (BitVec.ofNat 32 sub.size) = some out ∧
      ∀ addr, 4 * sub.size ≤ addr → out addr = dest addr := by
  obtain ⟨hblock, -, -⟩ := Cs16Fill.vector_of_lane hlane hsize
  obtain ⟨hmod, hle⟩ := SubBuffer.size_of_lane hlane
  have hbytes : (BitVec.ofNat 32 sub.size * 4).toNat = 256 * (sub.size / 64) := by
    rw [BitVec.toNat_mul, BitVec.toNat_ofNat]
    show sub.size % 2 ^ 32 * 4 % 2 ^ 32 = _
    omega
  have hfill : ∀ mem, Cs16Fill.localFillCs16 fuel dest mem (BitVec.ofNat 32 sub.size) =
      some (Cs16Fill.filled dest mem (64 * (sub.size / 64))) := by
    intro mem
    rw [Cs16Fill.localFillCs16, if_pos hblock]
    exact Cs16Fill.unpack12to16_eq dest mem hbytes (by omega) (by omega)
  have hsamples : 64 * (sub.size / 64) = sub.size := by omega
  have hsame : Cs16Fill.filled dest other sub.size = Cs16Fill.filled dest src sub.size := by
    funext addr
    unfold Cs16Fill.filled
    refine if_ctx_congr Iff.rfl (fun hin => ?_) fun _ => rfl
    exact fillByte_congr (fun reg hreg => (hsource _ (by omega)).symm) _
  rw [hfill, hfill, hsamples, hsame]
  refine ⟨_, rfl, rfl, fun addr haddr => ?_⟩
  unfold Cs16Fill.filled
  rw [if_neg (by omega)]

/-! ## The property and the condition -/

/-- What is copied for an accepted sub-buffer is read from the unpacked samples of the slot and
written into the payload of its packet. -/
def CopiesInside (config : Config) (payloads : Payloads config) (log : CopyLog)
    (moment : Moment) : Prop :=
  match moment.event with
  | .sub env => ∀ pair ∈ log.producer.accepted,
      (∀ copy ∈ log.usbCopy config moment pair.1 pair.2 env,
        copy.Inside (3 * slotCapacity) payloads.usb) ∧
      ∀ copy ∈ log.localCopy config moment pair.1 pair.2 env,
        copy.Inside (3 * slotCapacity) payloads.localRx
  | _ => True

/-- Where a lane copies an accepted sub-buffer, the slot holds the samples of all those accepted up
to it. -/
def SlotHolds (log : CopyLog) (moment : Moment) : Prop :=
  match moment.event with
  | .sub env => ∀ pair ∈ log.producer.accepted, env.copyOpen = true ∨ env.localAlive = true →
      acceptedStart log.producer.slot log.producer.index + pair.2.size ≤ slotCapacity
  | _ => True

/-! ## The fill of the packets -/

variable {config : Config} {log following : CopyLog} {moment : Moment} {lane other : Fin 4}
  {sub : SubBuffer} {env : SubEnv} {assembler : Assembler} {full : Nat} {producer : Producer}

/-- No lane has more samples than a packet. -/
def Fits (full : Nat) (assembler : Assembler) : Prop :=
  ∀ lane, assembler.adcBufSize lane ≤ full

/-- What a flush leaves of the fills: the lane's is back at zero, or the sub-buffer fits. -/
def Flushed (full : Nat) (lane : Fin 4) (sub : SubBuffer) (assembler flushed : Assembler) : Prop :=
  flushed.adcBufSize = Function.update assembler.adcBufSize lane 0 ∨
    flushed.adcBufSize = assembler.adcBufSize ∧ assembler.adcBufSize lane + sub.size ≤ full

/-- Behind a flush the sub-buffer fits. -/
theorem Flushed.room {flushed : Assembler} (h : Flushed full lane sub assembler flushed)
    (hsize : sub.size ≤ full) : flushed.adcBufSize lane + sub.size ≤ full := by
  obtain hzero | ⟨hsame, hroom⟩ := h
  · rw [hzero, Function.update_self, Nat.zero_add]
    exact hsize
  · rw [hsame]
    exact hroom

/-- Behind a flush and with the sub-buffer appended, the packets hold what they have. -/
theorem Flushed.fits_append {flushed : Assembler} {source : Nat → Sample} {offset : Nat}
    {copied : Bool} (h : Flushed full lane sub assembler flushed) (hfits : Fits full assembler)
    (hsize : sub.size ≤ full) : Fits full (flushed.append lane sub source offset copied) := by
  intro other
  show Function.update flushed.adcBufSize lane (flushed.adcBufSize lane + sub.size) other ≤ full
  by_cases hother : other = lane
  · rw [hother, Function.update_self]
    exact h.room hsize
  · rw [Function.update_of_ne hother]
    obtain hzero | ⟨hsame, -⟩ := h
    · rw [hzero, Function.update_of_ne hother]
      exact hfits other
    · rw [hsame]
      exact hfits other

/-- The flush of the USB lane. -/
theorem flushed_usb (config : Config) (producer : Producer) (lane : Fin 4) (sub : SubBuffer)
    (env : SubEnv) :
    Flushed config.elems lane sub producer.rxUsb (producer.flushUsb config lane sub env).rxUsb := by
  unfold flushUsb
  split
  · split
    · exact .inl rfl
    · exact .inl rfl
  · next hflushes => exact .inr ⟨rfl, Nat.le_of_not_lt fun hover => hflushes (.inl hover)⟩

/-- The flush of the local lane. -/
theorem flushed_local (config : Config) (producer : Producer) (lane : Fin 4) (sub : SubBuffer)
    (env : SubEnv) :
    Flushed config.elems lane sub producer.rxLocal
      (producer.flushLocal config lane sub env).rxLocal := by
  have hfull : config.localFull ≤ config.elems := by
    unfold Config.localFull
    split <;> omega
  unfold flushLocal
  split
  · split
    · exact .inl rfl
    · exact .inl rfl
  · next hflushes =>
      have hroom := Nat.le_of_not_lt fun hover => hflushes (.inl hover)
      exact .inr ⟨rfl, hroom.trans hfull⟩

/-- Lanes set back to zero. -/
theorem Fits.of_le {cleared : Assembler} (h : Fits full assembler)
    (hsizes : ∀ lane, cleared.adcBufSize lane = 0 ∨
      cleared.adcBufSize lane = assembler.adcBufSize lane) : Fits full cleared := by
  intro lane
  obtain hzero | hsame := hsizes lane
  · rw [hzero]
    exact Nat.zero_le full
  · rw [hsame]
    exact h lane

/-- One lane set back to zero. -/
theorem Fits.clear {cleared : Assembler} (h : Fits full assembler)
    (hsizes : cleared.adcBufSize = Function.update assembler.adcBufSize lane 0) :
    Fits full cleared := by
  refine h.of_le fun other => ?_
  rw [hsizes]
  by_cases hother : other = lane
  · exact .inl (by rw [hother, Function.update_self])
  · exact .inr (Function.update_of_ne hother _ _)

/-- The packets of both assemblers hold what they have. -/
def FillInv (config : Config) (producer : Producer) : Prop :=
  Fits config.elems producer.rxUsb ∧ Fits config.elems producer.rxLocal

/-- An accepted sub-buffer keeps the fills. -/
theorem FillInv.acceptSub (h : FillInv config producer)
    (haccepted : producer.accepted = some (lane, sub)) (env : SubEnv) :
    FillInv config (producer.acceptSub config lane sub env) := by
  obtain ⟨hfitsUsb, hfitsLocal⟩ := h
  have hsize : sub.size ≤ config.elems := (size_of_accepted haccepted).2.2.trans config.elemsFit
  constructor
  · rw [acceptSub_rxUsb]
    exact (flushed_usb config producer lane sub env).fits_append hfitsUsb hsize
  · rw [(acceptSub_rxLocal config producer lane sub env).1]
    unfold localLane
    split
    · obtain ⟨rxLocal, localQueued, hflush⟩ := flushLocal_frame config producer lane sub env
      have hflushed := flushed_local config producer lane sub env
      rw [hflush] at hflushed ⊢
      exact hflushed.fits_append hfitsLocal hsize
    · exact hfitsLocal.clear rfl

/-- Every step of the producer keeps the fills. -/
theorem FillInv.next {event : Event} {reached : Producer} (h : FillInv config producer)
    (hnext : producer.next config event = some reached) : FillInv config reached := by
  cases event with
  | sub env =>
      obtain ⟨-, index, rfl⟩ | ⟨lane, sub, haccepted, rfl⟩ := next_sub hnext
      · exact h
      · exact h.acceptSub haccepted env
  | flushPartial lane usbAlive headGrace =>
      obtain ⟨-, rfl⟩ := of_guard hnext
      unfold Producer.flushPartial
      split
      · exact h
      · exact ⟨h.1.clear rfl, h.2⟩
  | standDown =>
      obtain ⟨-, rfl⟩ := of_guard hnext
      unfold Producer.standDown
      split
      · exact h
      · exact ⟨h.1.of_le fun _ => .inl rfl, h.2.of_le fun _ => .inl rfl⟩
  | reset =>
      obtain ⟨-, rfl⟩ := of_guard hnext
      exact ⟨h.1.of_le fun _ => .inl rfl, h.2.of_le fun _ => .inl rfl⟩
  | slot | idlePass | jumpForward =>
      obtain ⟨-, rfl⟩ := of_guard hnext
      exact h
  | _ =>
      obtain ⟨free, untracked, staged, inflight, rfl, -⟩ := next_requests hnext trivial
      exact h

/-! ## The copies and the slot -/

/-- What holds between the moments: the running offset, and the fills. -/
structure Inv (config : Config) (log : CopyLog) : Prop where
  read : log.producer.ReadInv
  fills : FillInv config log.producer

theorem init_inv (config : Config) (usbBuf localBuf : Nat → Packet) :
    (init usbBuf localBuf).Inv config where
  read := fun hindex => absurd hindex (Nat.not_lt_zero _)
  fills := ⟨fun _ => Nat.zero_le _, fun _ => Nat.zero_le _⟩

/-- Every moment keeps them, whatever it finds in the module parameter. -/
theorem Inv.next (h : log.Inv config) (hnext : log.next config moment = some following) :
    following.Inv config := by
  obtain ⟨producer, hstep, rfl⟩ := Option.map_eq_some_iff.mp hnext
  have hfills : FillInv (moment.config config) log.producer := h.fills
  exact ⟨h.read.next hstep, hfills.next hstep⟩

/-- The USB copy reads from the running offset and writes inside the packet. -/
theorem usbCopy_inside (payloads : Payloads config) (hsize : sub.size ≤ 256) {copy : Copy}
    (hcopy : copy ∈ log.usbCopy config moment lane sub env) :
    copy.Inside (3 * slotCapacity) payloads.usb ↔
      log.producer.subRead + sub.size ≤ slotCapacity := by
  obtain ⟨-, hcopy⟩ := Option.ite_none_right_eq_some.mp hcopy
  obtain rfl := Option.some.inj hcopy
  have hroom := (flushed_usb (moment.config config) log.producer lane sub env).room
    (hsize.trans config.elemsFit)
  have hpayload := payloads.usbFits
  have helems : (moment.config config).elems = config.elems := rfl
  unfold Copy.Inside
  rw [← Nat.mul_add, ← Nat.mul_add, Nat.mul_le_mul_left_iff (by omega)]
  exact and_iff_left (by omega)

/-- The local copy does so in either format. -/
theorem localCopy_inside (payloads : Payloads config) (hsize : sub.size ≤ 256) {copy : Copy}
    (hcopy : copy ∈ log.localCopy config moment lane sub env) :
    copy.Inside (3 * slotCapacity) payloads.localRx ↔
      log.producer.subRead + sub.size ≤ slotCapacity := by
  obtain ⟨-, hcopy⟩ := Option.ite_none_right_eq_some.mp hcopy
  obtain rfl := Option.some.inj hcopy
  have hroom := (flushed_local (moment.config config) log.producer lane sub env).room
    (hsize.trans config.elemsFit)
  have helems : (moment.config config).elems = config.elems := rfl
  have hbytes : sampleBytes (log.fillFmt config moment lane sub env) ≤ 4 := by
    cases log.fillFmt config moment lane sub env <;> decide
  unfold Copy.Inside
  rw [← Nat.mul_add, ← Nat.mul_add, Nat.mul_le_mul_left_iff (by omega)]
  refine and_iff_left ?_
  calc sampleBytes (log.fillFmt config moment lane sub env) *
        (log.localWritePos config moment lane sub env + sub.size) ≤ 4 * config.elems :=
        Nat.mul_le_mul hbytes hroom
    _ ≤ payloads.localRx := payloads.localFits

/-- Where the offset and the fills are kept, the copies stay inside exactly when the slot holds what
they read. -/
theorem Inv.copiesInside_iff (payloads : Payloads config) (h : log.Inv config)
    (hnext : log.next config moment = some following) :
    log.CopiesInside config payloads moment ↔ log.SlotHolds moment := by
  obtain ⟨producer, hstep, -⟩ := Option.map_eq_some_iff.mp hnext
  unfold CopiesInside SlotHolds
  split
  · next env hevent =>
      rw [hevent] at hstep
      obtain ⟨found, hfound, -⟩ := Option.map_eq_some_iff.mp hstep
      obtain ⟨hindex, -⟩ := List.getElem?_eq_some_iff.mp hfound
      obtain ⟨-, hread⟩ := h.read hindex
      refine forall_congr' fun pair => forall_congr' fun hpair => ?_
      have hsize := (size_of_accepted hpair).2.2
      rw [← hread]
      -- each of the two copies is made only while its consumer is there
      constructor
      · rintro ⟨husb, hlocal⟩ (hopen | halive)
        · have hcopy : ∃ copy, log.usbCopy config moment pair.1 pair.2 env = some copy := by
            rw [usbCopy, if_pos hopen]
            exact ⟨_, rfl⟩
          obtain ⟨copy, hcopy⟩ := hcopy
          exact (usbCopy_inside payloads hsize hcopy).mp (husb copy hcopy)
        · have hcopy : ∃ copy, log.localCopy config moment pair.1 pair.2 env = some copy := by
            rw [localCopy, if_pos halive]
            exact ⟨_, rfl⟩
          obtain ⟨copy, hcopy⟩ := hcopy
          exact (localCopy_inside payloads hsize hcopy).mp (hlocal copy hcopy)
      · intro hholds
        constructor
        · intro copy hcopy
          obtain ⟨hopen, -⟩ := Option.ite_none_right_eq_some.mp hcopy
          exact (usbCopy_inside payloads hsize hcopy).mpr (hholds (.inl hopen))
        · intro copy hcopy
          obtain ⟨halive, -⟩ := Option.ite_none_right_eq_some.mp hcopy
          exact (localCopy_inside payloads hsize hcopy).mpr (hholds (.inr halive))
  · exact Iff.rfl

/-- In every run, every copy for an accepted sub-buffer stays inside the unpacked samples of its slot
and inside the payload it goes to, exactly when every slot holds the samples of the sub-buffers
accepted of it, up to the last one that a lane copies. -/
theorem copiesInside_iff_slotHolds (config : Config) (payloads : Payloads config)
    (usbBuf localBuf : Nat → Packet) (moments : List Moment) :
    Guarded (next config) (CopiesInside config payloads) (init usbBuf localBuf) moments ↔
      Guarded (next config) SlotHolds (init usbBuf localBuf) moments :=
  everyStep_iff_guarded (fun _ _ _ h hnext => h.copiesInside_iff payloads hnext)
    (fun _ _ _ h _ hnext => h.next hnext) (init_inv config usbBuf localBuf)

/-- A slot of four sub-buffers of 256 samples on lane 0, each with a header that passes the
checks. -/
def overlong : Slot :=
  ⟨List.replicate 4 ⟨0#32, 256, 0#32, 2⟩, fun _ => ⟨0, 0⟩⟩

/-- Every copy is open and every consumer alive. -/
def openMoment (event : Event) : Moment :=
  ⟨event, .packed12, 0⟩

/-- Payloads of the size the comments give: 20480 packed samples, and 40960 of four bytes. -/
def driverPayloads : Payloads Config.driver where
  usb := 61440
  localRx := 163840
  usbFits := by decide
  localFits := by decide

/-- The fourth sub-buffer is read from behind the unpacked samples. -/
theorem overlong_slot :
    ((run (next Config.driver) (init blank blank)
        (openMoment (.slot overlong) ::
          List.replicate 3 (openMoment (.sub ⟨true, true, true, true, true⟩)))).bind fun log =>
        log.producer.accepted.bind fun pair =>
          log.usbCopy Config.driver (openMoment (.sub ⟨true, true, true, true, true⟩)) pair.1
            pair.2 ⟨true, true, true, true, true⟩) = some ⟨2304, 768, 2304, 768⟩ ∧
      ¬ Guarded (next Config.driver) (CopiesInside Config.driver driverPayloads) (init blank blank)
          (openMoment (.slot overlong) ::
            List.replicate 4 (openMoment (.sub ⟨true, true, true, true, true⟩))) := by
  constructor
  · decide
  · intro h
    obtain ⟨-, hfirst⟩ := h _ rfl
    obtain ⟨-, hsecond⟩ := hfirst _ rfl
    obtain ⟨-, hthird⟩ := hsecond _ rfl
    obtain ⟨-, hfourth⟩ := hthird _ rfl
    obtain ⟨hinside, -⟩ := hfourth _ rfl
    exact absurd ((hinside _ rfl).1 _ rfl) (by decide)

end CopyLog

end RfnmDriver.Rx
