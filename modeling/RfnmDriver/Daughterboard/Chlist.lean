import Mathlib.Logic.Function.Basic

/-!
# Channel lists and their application

The two directions of `rfnm_daughterboard.c` walk a client's channel list in the same way:
`rfnm_apply_dev_tx_chlist_work_locked` and `rfnm_apply_dev_rx_chlist_work_locked` differ in what
they validate, in the RX gain that AGC owns, and in how a list is submitted. `Direction` collects
the differences, and `txDirection` and `rxDirection` are the two instances. `application` is the
whole work function with nobody in between.
-/

namespace RfnmDriver.Daughterboard

/-- `enum rfnm_reject_field`. -/
inductive Reject
  | none
  | freq
  | lpfBw
  | power
  | gain
  | dcTrim
  | enable
  | stream
  | agc
  | biasTee
  | fmNotch
  | path
  | rate
  | chMissing
  | device
  | boot
  deriving DecidableEq, Repr

/-- The values of the kernel-tree enumerations the code compares with or returns. -/
structure Codes where
  rfOff : Int
  rfOnTdd : Int
  streamAuto : Int
  streamOff : Int
  streamOn : Int
  biasTeeOff : Int
  biasTeeOn : Int
  agcOff : Int
  agcDefault : Int
  fmNotchAuto : Int
  fmNotchOff : Int
  apiOk : Int
  apiNotSupported : Int
  apiTimeout : Int
  apiProbeFail : Int
  deriving DecidableEq, Repr

/-- What the code reads of `struct rfnm_api_tx_ch`. -/
structure TxCh where
  absId : Nat
  freq : Int
  freqMin : Int
  freqMax : Int
  rficLpfBw : Int
  power : Int
  powerMin : Int
  powerMax : Int
  enable : Int
  stream : Int
  biasTee : Int
  deriving DecidableEq, Repr

/-- What the code reads of `struct rfnm_api_rx_ch`. -/
structure RxCh where
  absId : Nat
  freq : Int
  freqMin : Int
  freqMax : Int
  rficLpfBw : Int
  gain : Int
  gainMin : Int
  gainMax : Int
  rficDcQ : Int
  rficDcI : Int
  enable : Int
  stream : Int
  agc : Int
  biasTee : Int
  fmNotch : Int
  deriving DecidableEq, Repr

/-- `rfnm_ch_enable_valid`. -/
def Codes.chEnableValid (codes : Codes) (enable : Int) : Bool :=
  codes.rfOff ≤ enable && enable ≤ codes.rfOnTdd

/-- `rfnm_ch_stream_valid`. -/
def Codes.chStreamValid (codes : Codes) (stream : Int) : Bool :=
  codes.streamAuto ≤ stream && stream ≤ codes.streamOn

/-- `rfnm_bias_tee_valid`. -/
def Codes.biasTeeValid (codes : Codes) (biasTee : Int) : Bool :=
  codes.biasTeeOff ≤ biasTee && biasTee ≤ codes.biasTeeOn

/-- `rfnm_agc_valid`. -/
def Codes.agcValid (codes : Codes) (agc : Int) : Bool :=
  codes.agcOff ≤ agc && agc ≤ codes.agcDefault

/-- `rfnm_fm_notch_valid`. -/
def Codes.fmNotchValid (codes : Codes) (fmNotch : Int) : Bool :=
  codes.fmNotchAuto ≤ fmNotch && fmNotch ≤ codes.fmNotchOff

/-- `rfnm_validate_tx_ch`: the error code and the field it is about. -/
def validateTxCh (codes : Codes) (ch : TxCh) : Int × Reject :=
  if ch.freq < ch.freqMin ∨ ch.freq > ch.freqMax then (codes.apiNotSupported, .freq)
  else if ch.rficLpfBw < 0 then (codes.apiNotSupported, .lpfBw)
  else if ch.power < ch.powerMin ∨ ch.power > ch.powerMax then (codes.apiNotSupported, .power)
  else if !codes.chEnableValid ch.enable then (codes.apiNotSupported, .enable)
  else if !codes.chStreamValid ch.stream then (codes.apiNotSupported, .stream)
  else if !codes.biasTeeValid ch.biasTee then (codes.apiNotSupported, .biasTee)
  else (codes.apiOk, .none)

/-- `rfnm_validate_rx_ch`: the error code and the field it is about. -/
def validateRxCh (codes : Codes) (ch : RxCh) : Int × Reject :=
  if ch.freq < ch.freqMin ∨ ch.freq > ch.freqMax then (codes.apiNotSupported, .freq)
  else if ch.rficLpfBw < 0 then (codes.apiNotSupported, .lpfBw)
  else if ch.gain < ch.gainMin ∨ ch.gain > ch.gainMax then (codes.apiNotSupported, .gain)
  else if ch.rficDcQ < -126 ∨ ch.rficDcQ > 126 ∨ ch.rficDcI < -126 ∨ ch.rficDcI > 126 then
    (codes.apiNotSupported, .dcTrim)
  else if !codes.chEnableValid ch.enable then (codes.apiNotSupported, .enable)
  else if !codes.chStreamValid ch.stream then (codes.apiNotSupported, .stream)
  else if !codes.agcValid ch.agc then (codes.apiNotSupported, .agc)
  else if !codes.biasTeeValid ch.biasTee then (codes.apiNotSupported, .biasTee)
  else if !codes.fmNotchValid ch.fmNotch then (codes.apiNotSupported, .fmNotch)
  else (codes.apiOk, .none)

/-- What one direction does in its own way. -/
structure Direction (Ch : Type) where
  codes : Codes
  /-- The channel's bit in the apply mask and its place in the error codes. -/
  absId : Ch → Nat
  /-- The error code of the incoming channel, and the field it is about. -/
  validate : Ch → Int × Reject
  /-- The incoming channel as it is copied, given the live one. -/
  receive : (live incoming : Ch) → Ch
  /-- What a session reset does to a live channel. -/
  reset : Ch → Ch
  /-- A submission first cancels the work and waits for it. -/
  cancels : Bool
  /-- What is taken from the live channel is taken anew each time. -/
  receive_receive : ∀ live other incoming, receive live (receive other incoming) =
    receive live incoming

/-- The TX direction. -/
def txDirection (codes : Codes) : Direction TxCh where
  codes := codes
  absId := TxCh.absId
  validate := validateTxCh codes
  receive _ incoming := incoming
  reset ch := { ch with enable := codes.rfOff, stream := codes.streamOff }
  cancels := true
  receive_receive _ _ _ := rfl

/-- The gain of a channel that runs AGC is the live one, whatever the client sends. -/
def adoptAgcGain (codes : Codes) (live incoming : RxCh) : RxCh :=
  if incoming.agc ≠ codes.agcOff then { incoming with gain := live.gain } else incoming

/-- The RX direction. -/
def rxDirection (codes : Codes) : Direction RxCh where
  codes := codes
  absId := RxCh.absId
  validate := validateRxCh codes
  receive := adoptAgcGain codes
  reset ch := { ch with enable := codes.rfOff, stream := codes.streamOff, agc := codes.agcOff }
  cancels := false
  receive_receive live other incoming := by
    by_cases hagc : incoming.agc = codes.agcOff <;> simp [adoptAgcGain, hagc]

/-- `struct rfnm_dev_tx_ch_list`, `struct rfnm_dev_rx_ch_list`. -/
structure ChList (Ch : Type) where
  cc : Nat
  apply : BitVec 8
  ch : Nat → Ch

/-- What the work function of one direction reads and writes. -/
structure Data (Ch : Type) where
  /-- `r_tx_chlist_work`, `r_rx_chlist_work`. -/
  list : ChList Ch
  /-- The live channels, in the order of the walk. -/
  channels : Nat → Ch
  /-- `rfnm_dev_work_res.tx_ecodes`, `.rx_ecodes`. -/
  ecodes : Nat → Int
  /-- `rfnm_dev_work_rej.tx`, `.rx`. -/
  rej : Nat → Reject
  /-- `rfnm_dev_work_res.cc_tx`, `.cc_rx`. -/
  cc : Nat

/-- The local variables of the walk: the data, and the channels seen so far. -/
abbrev Walk (Ch : Type) := Data Ch × BitVec 8

variable {Ch : Type}

/-- The work clears the reject fields before it waits for a running restart. -/
def clearRej (data : Data Ch) : Data Ch :=
  { data with rej := fun _ => .none }

/-- The work clears the error codes after the wait. -/
def clearEcodes (data : Data Ch) : Data Ch :=
  { data with ecodes := fun _ => 0 }

/-- The walk of one channel. `device` is what `rfnm_dgb_tx_set` or `rfnm_dgb_rx_set` returns. -/
def visit (dir : Direction Ch) (walk : Walk Ch) (d : Nat) (device : Int) : Walk Ch :=
  let (data, present) := walk
  let absId := dir.absId (data.channels d)
  let chBit := 1#8 <<< absId
  let requested := data.list.apply &&& chBit ≠ 0#8
  let (ecode, field) := dir.validate (data.list.ch d)
  if requested ∧ ecode ≠ 0 then
    ({ data with
        ecodes := Function.update data.ecodes absId ecode
        rej := Function.update data.rej absId field }, present ||| chBit)
  else
    let ch := dir.receive (data.channels d) (data.list.ch d)
    let copied := { data with
      list := { data.list with ch := Function.update data.list.ch d ch }
      channels := Function.update data.channels d ch }
    if requested then
      ({ copied with
          ecodes := Function.update data.ecodes absId (-device)
          rej := Function.update data.rej absId (if device = 0 then .none else .device) },
        present ||| chBit)
    else (copied, present ||| chBit)

/-- The first channels of the walk. -/
def visitAll (dir : Direction Ch) (start : Data Ch) (devices : Nat → Int) : Nat → Walk Ch
  | 0 => (start, 0#8)
  | d + 1 => visit dir (visitAll dir start devices d) d (devices d)

/-- `rfnm_mark_missing_ch`. -/
def markMissing (dir : Direction Ch) (walk : Walk Ch) : Data Ch :=
  let (data, present) := walk
  let missing := data.list.apply &&& ~~~present
  { data with
    ecodes := fun i => if missing.getLsbD i then dir.codes.apiNotSupported else data.ecodes i
    rej := fun i => if missing.getLsbD i then .chMissing else data.rej i }

/-- `ETIMEDOUT`. -/
def eTimedOut : Int := 110

/-- `stream_api_error`. -/
def streamApiError (dir : Direction Ch) (ret : Int) : Int :=
  if ret = -eTimedOut then dir.codes.apiTimeout else dir.codes.apiProbeFail

/-- What `rfnm_la9310_stream` returned is put where there is no error yet. -/
def noteStream (dir : Direction Ch) (data : Data Ch) (ret : Int) : Data Ch :=
  if ret = 0 then data
  else
    { data with
      ecodes := fun i =>
        if i < 8 ∧ data.ecodes i = 0 then streamApiError dir ret else data.ecodes i
      rej := fun i => if i < 8 ∧ data.ecodes i = 0 then .rate else data.rej i }

/-- The last statement of the work function confirms the list. -/
def stamp (data : Data Ch) : Data Ch :=
  { data with cc := data.list.cc }

/-- The restart did not end in time: every channel gets the error, and the list is confirmed. -/
def giveUp (dir : Direction Ch) (data : Data Ch) (ret : Int) : Data Ch :=
  stamp { data with
    ecodes := fun i => if i < 8 then streamApiError dir ret else data.ecodes i }

/-- What happens outside the work function during one application. -/
inductive Outcome
  /-- `rfnm_wait_restart_sm_idle` returns this error. -/
  | gaveUp (ret : Int)
  /-- The device layer returns these codes, and `rfnm_la9310_stream` this one. -/
  | walked (devices : Nat → Int) (ret : Int)

/-- The whole work function, over a board with this many channels. -/
def application (dir : Direction Ch) (count : Nat) (start : Data Ch) : Outcome → Data Ch
  | .gaveUp ret => giveUp dir (clearRej start) ret
  | .walked devices ret =>
      stamp (noteStream dir
        (markMissing dir (visitAll dir (clearEcodes (clearRej start)) devices count)) ret)

/-- After the walk nothing changes the channels. -/
theorem application_walked_channels {dir : Direction Ch} {count : Nat} (start : Data Ch)
    (devices : Nat → Int) (ret : Int) :
    (application dir count start (.walked devices ret)).channels =
      (visitAll dir (clearEcodes (clearRej start)) devices count).1.channels := by
  simp only [application, stamp, noteStream]
  split <;> rfl

/-- Values of the kernel-tree enumerations. -/
def sampleCodes : Codes where
  rfOff := 0
  rfOnTdd := 2
  streamAuto := 0
  streamOff := 1
  streamOn := 2
  biasTeeOff := 0
  biasTeeOn := 1
  agcOff := 0
  agcDefault := 1
  fmNotchAuto := 0
  fmNotchOff := 2
  apiOk := 0
  apiNotSupported := 7
  apiTimeout := 3
  apiProbeFail := 1

end RfnmDriver.Daughterboard
