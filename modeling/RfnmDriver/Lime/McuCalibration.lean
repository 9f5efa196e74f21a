import Mathlib.Data.List.Range
import RfnmDriver.Library.DeviceLog

/-!
# Calibration by the MCU of the chip

`rfnm_lime_mcu.c`, for a chip that may answer anything. The MCU has the chip while register 0x0006
is one. `rxLpfCal_spec` says that it is given back on every path, that the driver keeps to the
registers of the MCU meanwhile, and that the program goes up in order, sixty-four bytes for each
time the buffer was found empty, and as a whole or not at all where the calibration succeeds.
-/

namespace RfnmDriver.Lime.Mcu

open DeviceLog

/-- An operation of `lms7002m_spi_read` or `lms7002m_spi_write`. -/
abbrev SpiOp := Op Nat (BitVec 16)

/-- `rfnm_lime_mcu.c` is made of these. -/
abbrev Spi := Proc Nat (BitVec 16)

/-- What the functions return: zero or the status of the MCU, or an error. -/
inductive McuRet
  | status (val : BitVec 16)
  | einval
  | etimedout
  | eio
  deriving DecidableEq, Repr

/-- `RFNM_LIME_MCU_PROGRAM_SIZE`. -/
def programSize : Nat := 16384

/-- `RFNM_LIME_MCU_CAL_IMAGE_ID`. -/
def calImageId : BitVec 16 := 0x05#16

/-- The loop of `rfnm_lime_mcu_wait`, with the polls it makes before the deadline. -/
def waitLoop : Nat → Spi (Option (BitVec 16))
  | 0 => do
      let v ← Proc.read 0x0001
      pure (if v &&& 0xFF#16 ≠ 0xFF#16 then some (v &&& 0xFF#16) else none)
  | early + 1 => do
      let v ← Proc.read 0x0001
      if v &&& 0xFF#16 ≠ 0xFF#16 then pure (some (v &&& 0xFF#16)) else waitLoop early

section Driver

variable (patience : List SpiOp → Nat) (calFw : Nat → BitVec 8)

/-- `rfnm_lime_mcu_wait`; `patience` is how many polls fit before the deadline. -/
def wait : Spi McuRet := do
  let early ← Proc.ask patience
  let v ← waitLoop early
  Proc.write 0x0006 0#16
  pure (match v with
    | some v => .status (v &&& 0x7F#16)
    | none => .etimedout)

/-- `rfnm_lime_mcu_run`. -/
def mcuRun (id : BitVec 8) : Spi Unit := do
  Proc.write 0x0006 1#16
  Proc.write 0x0000 (id.setWidth 16)
  let r2 ← Proc.read 0x0002
  Proc.write 0x0002 (r2 &&& ~~~0x08#16)
  Proc.write 0x0002 (r2 ||| 0x08#16)
  Proc.write 0x0002 (r2 &&& ~~~0x08#16)
  let _ ← Proc.read 0x0002
  pure ()

/-- `rfnm_lime_mcu_read_id`. -/
def readId : Spi McuRet := do
  mcuRun 255#8
  wait patience

/-- A loop that waits for a bit of register 0x0003; whether it came. -/
def waitFlag (mask : BitVec 16) : Nat → Spi Bool
  | 0 => pure false
  | left + 1 => do
      let v ← Proc.read 0x0003
      if v &&& mask ≠ 0#16 then pure true else waitFlag mask left

/-- The inner loop of `rfnm_lime_mcu_program` from a byte on. -/
def sendBytes : Nat → Nat → Spi Unit
  | _, 0 => pure ()
  | k, left + 1 => do
      Proc.write 0x0004 ((calFw k).setWidth 16)
      sendBytes (k + 1) left

/-- The outer loop from a byte on; whether it came to its end. -/
def sendChunks : Nat → Nat → Spi Bool
  | _, 0 => pure true
  | i, left + 1 => do
      let empty ← waitFlag 0x01#16 1000
      if empty then do
        sendBytes calFw i 64
        sendChunks (i + 64) left
      else pure false

/-- `rfnm_lime_mcu_program`. -/
def program : Spi McuRet := do
  let present ← readId patience
  if present = .status calImageId then pure (.status 0#16)
  else do
    Proc.write 0x0002 0#16
    Proc.write 0x0002 2#16
    let sent ← sendChunks calFw 0 (programSize / 64)
    if sent then do
      let programmed ← waitFlag 0x40#16 1000
      if programmed then do
        let readback ← readId patience
        pure (if readback = .status calImageId then .status 0#16 else .eio)
      else pure .etimedout
    else pure .etimedout

/-- The pulses of `rfnm_lime_mcu_set_freq_param`, from the last of its bytes. -/
def latchBytes (r2 : BitVec 16) : List (BitVec 8) → Spi Unit
  | [] => pure ()
  | byte :: rest => do
      Proc.write 0x0000 (byte.setWidth 16)
      Proc.write 0x0002 (r2 ||| 0x04#16)
      Proc.write 0x0002 (r2 &&& ~~~0x04#16)
      latchBytes r2 rest

/-- `rfnm_lime_mcu_set_freq_param`. -/
def setFreqParam (isRefClk : Bool) (hz : BitVec 32) : Spi Unit := do
  let r2 ← Proc.read 0x0002
  let fracKhz := (hz / 1000#32) % 1000#32
  latchBytes r2 [(fracKhz &&& 0xFF#32).setWidth 8, (fracKhz >>> 8).setWidth 8,
    (hz / 1000000#32).setWidth 8]
  mcuRun (if isRefClk then 4#8 else 3#8)

/-- The reads of `result_regs`. -/
def readResults : List Nat → Spi Unit
  | [] => pure ()
  | reg :: rest => do
      let _ ← Proc.read reg
      readResults rest

/-- `result_regs`. -/
def resultRegs : List Nat := [0x0112, 0x0114, 0x0115, 0x0116, 0x0117, 0x0118, 0x011A]

/-- `rfnm_lime_mcu_rx_lpf_cal`. -/
def rxLpfCal (bwHz refHz : BitVec 32) : Spi McuRet :=
  if bwHz < 1400000#32 ∨ 130000000#32 < bwHz then pure .einval
  else do
    let programmed ← program patience calFw
    if programmed = .status 0#16 then do
      setFreqParam true refHz
      setFreqParam false bwHz
      mcuRun 5#8
      let ret ← wait patience
      match ret with
      | .status val =>
          if val = 0#16 then do
            readResults resultRegs
            pure (.status 0#16)
          else pure .eio
      | err => pure err
    else pure programmed

end Driver

/-! ## What is asked of the operations -/

/-- The MCU has the chip. -/
def mcuOwns : List SpiOp → Bool
  | [] => false
  | .write 0x0006 val :: _ => val.getLsbD 0
  | _ :: rest => mcuOwns rest

/-- How many bytes the buffer still takes. -/
def room : List SpiOp → Nat
  | [] => 0
  | .read 0x0003 val :: rest => if val.getLsbD 0 then 64 else room rest
  | .write 0x0004 _ :: rest => room rest - 1
  | _ :: rest => room rest

/-- The bytes that have gone up, in order. -/
def uploaded : List SpiOp → List (BitVec 16)
  | [] => []
  | .write 0x0004 val :: rest => uploaded rest ++ [val]
  | _ :: rest => uploaded rest

/-- The status the MCU gave last, with the bits that `rfnm_lime_mcu_wait` keeps of it. -/
def answer : List SpiOp → BitVec 16
  | [] => 0x7F#16
  | .read 0x0001 val :: _ => val &&& 0x7F#16
  | _ :: rest => answer rest

/-- The operation is one the driver may do behind the others: it writes registers of the MCU only,
while the MCU has the chip it reads no others either, and a byte goes up where there is room. -/
def Allowed (before : List SpiOp) : SpiOp → Prop
  | .read reg _ => mcuOwns before = true → reg ≤ 0x0006
  | .write reg _ => reg ≤ 0x0006 ∧ (reg = 0x0004 → 0 < room before)

/-- All of the operations are. -/
def Polite : List SpiOp → Prop
  | [] => True
  | op :: before => Allowed before op ∧ Polite before

/-- What the operations come to: who has the chip, how many bytes fit, how many have gone up. -/
structure At (calFw : Nat → BitVec 8) (owned : Bool) (fits bytes : Nat) (log : List SpiOp) :
    Prop where
  owns : mcuOwns log = owned
  polite : Polite log
  fits : fits ≤ room log
  sent : uploaded log = (List.range bytes).map (fun k => (calFw k).setWidth 16)

section Operations

variable {calFw : Nat → BitVec 8} {owned : Bool} {fits bytes reg : Nat} {val : BitVec 16}
  {log : List SpiOp}

theorem mcuOwns_write (hreg : reg ≠ 0x0006) :
    mcuOwns (.write reg val :: log) = mcuOwns log := by
  rw [mcuOwns]
  intro other heq
  exact hreg (by injection heq)

theorem room_read (hreg : reg ≠ 0x0003) : room (.read reg val :: log) = room log := by
  rw [room]
  · intro other heq
    exact hreg (by injection heq)
  · intro other heq
    cases heq

theorem room_write (hreg : reg ≠ 0x0004) : room (.write reg val :: log) = room log := by
  rw [room]
  · intro other heq
    cases heq
  · intro other heq
    exact hreg (by injection heq)

theorem uploaded_write (hreg : reg ≠ 0x0004) :
    uploaded (.write reg val :: log) = uploaded log := by
  rw [uploaded]
  intro other heq
  exact hreg (by injection heq)

theorem answer_read (hreg : reg ≠ 0x0001) : answer (.read reg val :: log) = answer log := by
  rw [answer]
  intro other heq
  exact hreg (by injection heq)

/-- A read of a register of the MCU, other than its flags, changes nothing. -/
theorem At.read (h : At calFw owned fits bytes log) (hmcu : reg ≤ 0x0006) (hreg : reg ≠ 0x0003) :
    At calFw owned fits bytes (.read reg val :: log) where
  owns := h.owns
  polite := ⟨fun _ => hmcu, h.polite⟩
  fits := by rw [room_read hreg]; exact h.fits
  sent := h.sent

/-- While the driver has the chip it reads any register. -/
theorem At.readOwn (h : At calFw false fits bytes log) (hreg : reg ≠ 0x0003) :
    At calFw false fits bytes (.read reg val :: log) where
  owns := h.owns
  polite := ⟨fun howns => (by rw [h.owns] at howns; cases howns), h.polite⟩
  fits := by rw [room_read hreg]; exact h.fits
  sent := h.sent

/-- Behind a read of the flags the buffer takes what they say. -/
theorem At.readFlags (h : At calFw owned fits bytes log) :
    At calFw owned (if val.getLsbD 0 then 64 else fits) bytes (.read 0x0003 val :: log) where
  owns := h.owns
  polite := ⟨fun _ => by decide, h.polite⟩
  fits := by
    have hfits := h.fits
    rw [room]
    split <;> omega
  sent := h.sent

/-- A write of a register of the MCU, other than its buffer and the switch, changes nothing. -/
theorem At.write (h : At calFw owned fits bytes log) (hmcu : reg < 0x0006) (hreg : reg ≠ 0x0004) :
    At calFw owned fits bytes (.write reg val :: log) where
  owns := by rw [mcuOwns_write (by omega)]; exact h.owns
  polite := ⟨⟨by omega, fun heq => absurd heq hreg⟩, h.polite⟩
  fits := by rw [room_write hreg]; exact h.fits
  sent := by rw [uploaded_write hreg]; exact h.sent

/-- A write of the switch says who has the chip. -/
theorem At.writeSwitch (h : At calFw owned fits bytes log) (val : BitVec 16) :
    At calFw (val.getLsbD 0) fits bytes (.write 0x0006 val :: log) where
  owns := rfl
  polite := ⟨⟨by decide, fun heq => by cases heq⟩, h.polite⟩
  fits := h.fits
  sent := h.sent

/-- The next byte goes up where one more fits. -/
theorem At.writeByte (h : At calFw owned (fits + 1) bytes log) :
    At calFw owned fits (bytes + 1) (.write 0x0004 ((calFw bytes).setWidth 16) :: log) where
  owns := h.owns
  polite := by
    have hfits := h.fits
    exact ⟨⟨by decide, fun _ => by omega⟩, h.polite⟩
  fits := by
    have hfits := h.fits
    rw [room]
    omega
  sent := by
    rw [uploaded, h.sent, List.range_succ, List.map_append]
    rfl

theorem At.fewer (h : At calFw owned fits bytes log) : At calFw owned 0 bytes log :=
  { h with fits := Nat.zero_le _ }

end Operations

/-! ## What each function leaves -/

section Functions

variable {device : Device Nat (BitVec 16)} {patience : List SpiOp → Nat} {calFw : Nat → BitVec 8}
  {owned : Bool} {fits bytes : Nat}

theorem meets_readMcu (reg : Nat) (hmcu : reg ≤ 0x0006) (hreg : reg ≠ 0x0003) :
    Meets device (At calFw owned fits bytes) (Proc.read reg)
      (fun _ => At calFw owned fits bytes) :=
  meets_read (fun _ _ h => h.read hmcu hreg)

theorem meets_writeMcu (reg : Nat) (val : BitVec 16) (hmcu : reg < 0x0006) (hreg : reg ≠ 0x0004) :
    Meets device (At calFw owned fits bytes) (Proc.write reg val)
      (fun _ => At calFw owned fits bytes) :=
  meets_write (fun _ h => h.write hmcu hreg)

theorem meets_writeSwitch (val : BitVec 16) (given : Bool) (hval : val.getLsbD 0 = given) :
    Meets device (At calFw owned fits bytes) (Proc.write 0x0006 val)
      (fun _ => At calFw given fits bytes) :=
  meets_write (fun _ h => hval ▸ h.writeSwitch val)

theorem meets_readFlags :
    Meets device (At calFw owned fits bytes) (Proc.read 0x0003)
      (fun val => At calFw owned (if val.getLsbD 0 then 64 else fits) bytes) :=
  meets_read (fun _ _ h => h.readFlags)

theorem meets_writeByte :
    Meets device (At calFw owned (fits + 1) bytes)
      (Proc.write 0x0004 ((calFw bytes).setWidth 16))
      (fun _ => At calFw owned fits (bytes + 1)) :=
  meets_write (fun _ h => h.writeByte)

theorem meets_waitLoop (early : Nat) :
    Meets device (At calFw owned fits bytes) (waitLoop early)
      (fun v log => At calFw owned fits bytes log ∧
        ∀ val, v = some val → val &&& 0x7F#16 = answer log) := by
  have hpoll : Meets device (At calFw owned fits bytes) (Proc.read 0x0001)
      (fun v log => At calFw owned fits bytes log ∧ v &&& 0x7F#16 = answer log) :=
    meets_read (fun _ _ h => ⟨h.read (by decide) (by decide), rfl⟩)
  have hseven (v : BitVec 16) : v &&& 0xFF#16 &&& 0x7F#16 = v &&& 0x7F#16 := by
    rw [BitVec.and_assoc]
    rfl
  induction early with
  | zero =>
    refine meets_bind hpoll ?_
    intro v
    refine meets_pure ?_
    rintro log ⟨h, hanswer⟩
    refine ⟨h, ?_⟩
    intro val hval
    split at hval
    · rw [← Option.some.inj hval, hseven, hanswer]
    · cases hval
  | succ early ih =>
    refine meets_bind hpoll ?_
    intro v
    refine meets_ite ?_ ?_
    · intro _
      refine meets_pure ?_
      rintro log ⟨h, hanswer⟩
      refine ⟨h, ?_⟩
      intro val hval
      rw [← Option.some.inj hval, hseven, hanswer]
    · intro _
      exact Meets.strengthen ih (fun _ h => h.1)

/-- However the wait ends, the driver has the chip behind it. -/
theorem meets_wait :
    Meets device (At calFw owned fits bytes) (wait patience)
      (fun ret log => At calFw false fits bytes log ∧
        ∀ val, ret = .status val → val = answer log) := by
  refine meets_bind (meets_ask (fun _ _ h => h)) ?_
  intro early
  refine meets_bind (meets_waitLoop early) ?_
  intro v
  have hback : Meets device
      (fun log => At calFw owned fits bytes log ∧
        ∀ val, v = some val → val &&& 0x7F#16 = answer log)
      (Proc.write 0x0006 0#16)
      (fun _ log => At calFw false fits bytes log ∧
        ∀ val, v = some val → val &&& 0x7F#16 = answer log) :=
    meets_write (fun _ h => ⟨h.1.writeSwitch 0#16, h.2⟩)
  refine meets_bind hback ?_
  intro _
  refine meets_pure ?_
  rintro log ⟨h, hanswer⟩
  refine ⟨h, ?_⟩
  intro val hval
  cases v with
  | none => cases hval
  | some v =>
    rw [← hanswer v rfl]
    exact (McuRet.status.inj hval).symm

/-- A procedure runs with the chip given to the MCU. -/
theorem meets_mcuRun (id : BitVec 8) :
    Meets device (At calFw owned fits bytes) (mcuRun id)
      (fun _ => At calFw true fits bytes) := by
  refine meets_bind (meets_writeSwitch 1#16 true (by decide)) ?_
  intro _
  refine meets_bind (meets_writeMcu 0x0000 _ (by decide) (by decide)) ?_
  intro _
  refine meets_bind (meets_readMcu 0x0002 (by decide) (by decide)) ?_
  intro r2
  refine meets_bind (meets_writeMcu 0x0002 _ (by decide) (by decide)) ?_
  intro _
  refine meets_bind (meets_writeMcu 0x0002 _ (by decide) (by decide)) ?_
  intro _
  refine meets_bind (meets_writeMcu 0x0002 _ (by decide) (by decide)) ?_
  intro _
  refine meets_bind (meets_readMcu 0x0002 (by decide) (by decide)) ?_
  intro _
  exact meets_pure (fun _ h => h)

theorem meets_readId :
    Meets device (At calFw owned fits bytes) (readId patience)
      (fun _ => At calFw false fits bytes) := by
  refine meets_bind (meets_mcuRun 255#8) ?_
  intro _
  exact Meets.weaken meets_wait (fun _ _ h => h.1)

theorem bit_of_mask (val : BitVec 16) (hmask : val &&& 0x01#16 ≠ 0#16) :
    val.getLsbD 0 = true := by
  by_contra hbit
  apply hmask
  ext i hi
  cases i with
  | zero => simpa using hbit
  | succ i => simp [BitVec.getElem_one]

/-- A wait for the empty buffer that succeeds leaves room for a chunk. -/
theorem meets_waitEmpty (left : Nat) :
    Meets device (At calFw owned 0 bytes) (waitFlag 0x01#16 left)
      (fun empty => At calFw owned (if empty then 64 else 0) bytes) := by
  induction left with
  | zero => exact meets_pure (fun _ h => h)
  | succ left ih =>
    refine meets_bind meets_readFlags ?_
    intro val
    refine meets_ite ?_ ?_
    · intro hmask
      have hbit : val.getLsbD 0 = true := bit_of_mask val hmask
      rw [hbit]
      exact meets_pure (fun _ h => h)
    · intro _
      exact Meets.strengthen ih (fun _ h => h.fewer)

theorem meets_waitProgrammed (left : Nat) :
    Meets device (At calFw owned 0 bytes) (waitFlag 0x40#16 left)
      (fun _ => At calFw owned 0 bytes) := by
  induction left with
  | zero => exact meets_pure (fun _ h => h)
  | succ left ih =>
    refine meets_bind (Meets.weaken meets_readFlags (fun _ _ h => h.fewer)) ?_
    intro val
    exact meets_ite (fun _ => meets_pure (fun _ h => h)) (fun _ => ih)

theorem meets_sendBytes (left : Nat) :
    ∀ bytes, Meets device (At calFw owned left bytes) (sendBytes calFw bytes left)
      (fun _ => At calFw owned 0 (bytes + left)) := by
  induction left with
  | zero =>
    intro bytes
    exact meets_pure (fun _ h => h)
  | succ left ih =>
    intro bytes
    refine meets_bind meets_writeByte ?_
    intro _
    rw [show bytes + (left + 1) = bytes + 1 + left by omega]
    exact ih (bytes + 1)

/-- The chunks go up one after the other, and all of them where the loop comes to its end. -/
theorem meets_sendChunks (left : Nat) :
    ∀ bytes, Meets device (At calFw owned 0 bytes) (sendChunks calFw bytes left)
      (fun sent log => ∃ chunks ≤ left, At calFw owned 0 (bytes + 64 * chunks) log ∧
        (sent = true → chunks = left)) := by
  induction left with
  | zero =>
    intro bytes
    exact meets_pure (fun _ h => ⟨0, Nat.le_refl _, h, fun _ => rfl⟩)
  | succ left ih =>
    intro bytes
    refine meets_bind (meets_waitEmpty 1000) ?_
    intro empty
    cases empty with
    | true =>
      refine meets_bind (meets_sendBytes 64 bytes) ?_
      intro _
      refine Meets.weaken (ih (bytes + 64)) ?_
      rintro sent log ⟨chunks, hchunks, hat, hall⟩
      refine ⟨chunks + 1, by omega, ?_, fun hsent => by rw [hall hsent]⟩
      rw [show bytes + 64 * (chunks + 1) = bytes + 64 + 64 * chunks by omega]
      exact hat
    | false =>
      refine meets_pure ?_
      intro log h
      exact ⟨0, Nat.zero_le _, h, fun hsent => by cases hsent⟩

/-- The chip is back when the program is up, or when it could not be brought there. -/
theorem meets_program :
    Meets device (At calFw owned 0 0) (program patience calFw)
      (fun ret log => ∃ chunks ≤ programSize / 64,
        (∀ val, ret = .status val → val = 0#16 ∧ (chunks = 0 ∨ chunks = programSize / 64)) ∧
          At calFw false 0 (64 * chunks) log) := by
  refine meets_bind meets_readId ?_
  intro present
  refine meets_ite ?_ ?_
  · intro _
    exact meets_pure (fun _ h =>
      ⟨0, Nat.zero_le _, fun val hval => ⟨(McuRet.status.inj hval).symm, .inl rfl⟩, h⟩)
  · intro _
    refine meets_bind (meets_writeMcu 0x0002 _ (by decide) (by decide)) ?_
    intro _
    refine meets_bind (meets_writeMcu 0x0002 _ (by decide) (by decide)) ?_
    intro _
    refine meets_bind (meets_sendChunks (programSize / 64) 0) ?_
    intro sent
    refine meets_ite ?_ ?_
    · intro hsent
      have hwhole : Meets device (At calFw false 0 (64 * (programSize / 64)))
          (do
            let programmed ← waitFlag 0x40#16 1000
            if programmed then do
              let readback ← readId patience
              pure (if readback = .status calImageId then McuRet.status 0#16 else .eio)
            else pure .etimedout)
          (fun ret log => (∀ val, ret = .status val → val = 0#16) ∧
            At calFw false 0 (64 * (programSize / 64)) log) := by
        refine meets_bind (meets_waitProgrammed 1000) ?_
        intro programmed
        refine meets_ite ?_ ?_
        · intro _
          refine meets_bind meets_readId ?_
          intro readback
          refine meets_pure ?_
          intro log h
          refine ⟨?_, h⟩
          intro val hval
          split at hval
          · exact (McuRet.status.inj hval).symm
          · cases hval
        · intro _
          exact meets_pure (fun _ h => ⟨fun val hval => (by cases hval), h⟩)
      refine Meets.weaken (Meets.strengthen hwhole ?_) ?_
      · rintro log ⟨chunks, _, hat, hall⟩
        rw [hall hsent, Nat.zero_add] at hat
        exact hat
      · rintro ret log ⟨hzero, hat⟩
        exact ⟨_, Nat.le_refl _, fun val hval => ⟨hzero val hval, .inr rfl⟩, hat⟩
    · intro _
      refine meets_pure ?_
      rintro log ⟨chunks, hchunks, hat, _⟩
      rw [Nat.zero_add] at hat
      exact ⟨chunks, hchunks, fun val hval => (by cases hval), hat⟩

theorem meets_latchBytes (r2 : BitVec 16) (byteList : List (BitVec 8)) :
    Meets device (At calFw owned fits bytes) (latchBytes r2 byteList)
      (fun _ => At calFw owned fits bytes) := by
  induction byteList with
  | nil => exact meets_pure (fun _ h => h)
  | cons byte rest ih =>
    refine meets_bind (meets_writeMcu 0x0000 _ (by decide) (by decide)) ?_
    intro _
    refine meets_bind (meets_writeMcu 0x0002 _ (by decide) (by decide)) ?_
    intro _
    refine meets_bind (meets_writeMcu 0x0002 _ (by decide) (by decide)) ?_
    intro _
    exact ih

theorem meets_setFreqParam (isRefClk : Bool) (hz : BitVec 32) :
    Meets device (At calFw owned fits bytes) (setFreqParam isRefClk hz)
      (fun _ => At calFw true fits bytes) := by
  refine meets_bind (meets_readMcu 0x0002 (by decide) (by decide)) ?_
  intro r2
  refine meets_bind (meets_latchBytes r2 _) ?_
  intro _
  exact meets_mcuRun _

/-- The results are read with the chip back, and are not statuses. -/
theorem meets_readResults (status : BitVec 16) (regs : List Nat)
    (hregs : ∀ reg ∈ regs, reg ≠ 0x0001 ∧ reg ≠ 0x0003) :
    Meets device (fun log => At calFw false fits bytes log ∧ status = answer log)
      (readResults regs)
      (fun _ log => At calFw false fits bytes log ∧ status = answer log) := by
  induction regs with
  | nil => exact meets_pure (fun _ h => h)
  | cons reg rest ih =>
    have hreg := hregs reg (List.mem_cons_self ..)
    have hread : Meets device (fun log => At calFw false fits bytes log ∧ status = answer log)
        (Proc.read reg)
        (fun _ log => At calFw false fits bytes log ∧ status = answer log) :=
      meets_read (fun _ _ h => ⟨h.1.readOwn hreg.2, by rw [answer_read hreg.1]; exact h.2⟩)
    refine meets_bind hread ?_
    intro _
    exact ih (fun other hother => hregs other (List.mem_cons_of_mem _ hother))

/-- Behind the program, the parameters and the run the status decides. -/
theorem meets_calibrate (bwHz refHz : BitVec 32) :
    Meets device (At calFw false 0 bytes)
      (do
        setFreqParam true refHz
        setFreqParam false bwHz
        mcuRun 5#8
        let ret ← wait patience
        match ret with
        | .status val =>
            if val = 0#16 then do
              readResults resultRegs
              pure (.status 0#16)
            else pure .eio
        | err => pure err)
      (fun ret log => At calFw false 0 bytes log ∧
        ∀ val, ret = .status val → val = 0#16 ∧ answer log = 0#16) := by
  refine meets_bind (meets_setFreqParam true refHz) ?_
  intro _
  refine meets_bind (meets_setFreqParam false bwHz) ?_
  intro _
  refine meets_bind (meets_mcuRun 5#8) ?_
  intro _
  refine meets_bind meets_wait ?_
  intro ret
  cases ret with
  | status val =>
    refine meets_ite ?_ ?_
    · intro hzero
      have hread : Meets device
          (fun log => At calFw false 0 bytes log ∧
            ∀ other, McuRet.status val = .status other → other = answer log)
          (readResults resultRegs)
          (fun _ log => At calFw false 0 bytes log ∧ 0#16 = answer log) :=
        Meets.strengthen (meets_readResults 0#16 resultRegs (by simp [resultRegs]))
          (fun _ h => ⟨h.1, hzero ▸ h.2 val rfl⟩)
      refine meets_bind hread ?_
      intro _
      refine meets_pure ?_
      intro log h
      exact ⟨h.1, fun val hval => ⟨(McuRet.status.inj hval).symm, h.2.symm⟩⟩
    · intro _
      exact meets_pure (fun _ h => ⟨h.1, fun val hval => by cases hval⟩)
  | einval => exact meets_pure (fun _ h => ⟨h.1, fun val hval => by cases hval⟩)
  | etimedout => exact meets_pure (fun _ h => ⟨h.1, fun val hval => by cases hval⟩)
  | eio => exact meets_pure (fun _ h => ⟨h.1, fun val hval => by cases hval⟩)

/-- What holds of the whole calibration and of what it returns. -/
structure Calibrated (calFw : Nat → BitVec 8) (ret : McuRet) (log : List SpiOp) : Prop where
  returned : mcuOwns log = false
  polite : Polite log
  /-- Whole chunks of the program from its beginning. -/
  sent : ∃ chunks ≤ programSize / 64,
    uploaded log = (List.range (64 * chunks)).map (fun k => (calFw k).setWidth 16) ∧
      (ret = .status 0#16 → chunks = 0 ∨ chunks = programSize / 64)
  /-- Success is the word of the MCU. -/
  earned : ∀ val, ret = .status val → val = 0#16 ∧ answer log = 0#16

theorem meets_rxLpfCal (bwHz refHz : BitVec 32) :
    Meets device (At calFw false 0 0) (rxLpfCal patience calFw bwHz refHz)
      (Calibrated calFw) := by
  refine meets_ite ?_ ?_
  · intro _
    refine meets_pure ?_
    intro log h
    exact ⟨h.owns, h.polite, ⟨0, Nat.zero_le _, h.sent, fun _ => .inl rfl⟩,
      fun val hval => by cases hval⟩
  · intro _
    refine meets_bind meets_program ?_
    intro programmed
    refine meets_exists ?_
    intro chunks
    refine meets_fact ?_
    intro hchunks
    refine meets_ite ?_ ?_
    · intro hok
      refine meets_fact ?_
      intro hwhole
      refine Meets.weaken (meets_calibrate bwHz refHz) ?_
      rintro ret log ⟨hat, hearned⟩
      exact ⟨hat.owns, hat.polite, ⟨chunks, hchunks, hat.sent, fun _ => (hwhole _ hok).2⟩, hearned⟩
    · intro hfailed
      refine meets_pure ?_
      rintro log ⟨hwhole, hat⟩
      have hnever (val : BitVec 16) (hval : programmed = .status val) : False :=
        hfailed ((hwhole val hval).1 ▸ hval)
      exact ⟨hat.owns, hat.polite, ⟨chunks, hchunks, hat.sent, fun hval => (hnever _ hval).elim⟩,
        fun val hval => (hnever val hval).elim⟩

/-- Whatever the device answers, the chip is given back. -/
theorem rxLpfCal_spec (device : Device Nat (BitVec 16)) (patience : List SpiOp → Nat)
    (calFw : Nat → BitVec 8) (bwHz refHz : BitVec 32) :
    Calibrated calFw (rxLpfCal patience calFw bwHz refHz device []).1
      (rxLpfCal patience calFw bwHz refHz device []).2 :=
  meets_rxLpfCal bwHz refHz [] ⟨rfl, trivial, Nat.zero_le _, rfl⟩

end Functions

end RfnmDriver.Lime.Mcu
