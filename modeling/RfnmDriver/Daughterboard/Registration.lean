import Mathlib.Data.List.Basic
import RfnmDriver.Daughterboard.Chlist

/-!
# Registered channels and who writes them

A board driver registers its channels with `rfnm_dgb_reg_tx_ch` or `rfnm_dgb_reg_rx_ch`, which give
each one its place; the limits (frequency, power or gain) are the board driver's own. The same
structures are the live table: channel lists, the attribute files, the gain loop, the idle park and
a session reset all write them. `Side` collects what the two directions do in their own way, over
the `Direction` of the list walk.
-/

namespace RfnmDriver.Daughterboard

/-- The fields of a channel that its registration fixes. -/
structure Identity where
  absId : Nat
  dgbId : Nat
  dgbChId : Nat
  /-- `adc_id` of an RX channel, `dac_id` of a TX channel. -/
  converter : Nat
  freqMin : Int
  freqMax : Int
  /-- `power_range` of a TX channel, `gain_range` of an RX channel. -/
  levelMin : Int
  levelMax : Int
  deriving DecidableEq, Repr

/-- `struct rfnm_api_tx_ch`; `other` is the rest of it, the paths among them. -/
structure TxEntry (Other : Type) extends TxCh where
  dgbId : Nat
  dgbChId : Nat
  dacId : Nat
  other : Other
  deriving DecidableEq, Repr

/-- `struct rfnm_api_rx_ch`; `other` is the rest of it, the paths among them. -/
structure RxEntry (Other : Type) extends RxCh where
  dgbId : Nat
  dgbChId : Nat
  adcId : Nat
  other : Other
  deriving DecidableEq, Repr

variable {Ch Edit Other : Type}

/-- What registration fixes of a TX channel. -/
def TxEntry.identity (ch : TxEntry Other) : Identity where
  absId := ch.absId
  dgbId := ch.dgbId
  dgbChId := ch.dgbChId
  converter := ch.dacId
  freqMin := ch.freqMin
  freqMax := ch.freqMax
  levelMin := ch.powerMin
  levelMax := ch.powerMax

/-- What registration fixes of an RX channel. -/
def RxEntry.identity (ch : RxEntry Other) : Identity where
  absId := ch.absId
  dgbId := ch.dgbId
  dgbChId := ch.dgbChId
  converter := ch.adcId
  freqMin := ch.freqMin
  freqMax := ch.freqMax
  levelMin := ch.gainMin
  levelMax := ch.gainMax

/-- `txDirection` over whole channels. -/
def txEntries (codes : Codes) : Direction (TxEntry Other) where
  codes := codes
  absId ch := ch.absId
  validate ch := (txDirection codes).validate ch.toTxCh
  receive live incoming :=
    { incoming with toTxCh := (txDirection codes).receive live.toTxCh incoming.toTxCh }
  reset ch := { ch with toTxCh := (txDirection codes).reset ch.toTxCh }
  cancels := (txDirection codes).cancels
  receive_receive _ _ _ := rfl

/-- `rxDirection` over whole channels. -/
def rxEntries (codes : Codes) : Direction (RxEntry Other) where
  codes := codes
  absId ch := ch.absId
  validate ch := (rxDirection codes).validate ch.toRxCh
  receive live incoming :=
    { incoming with toRxCh := (rxDirection codes).receive live.toRxCh incoming.toRxCh }
  reset ch := { ch with toRxCh := (rxDirection codes).reset ch.toRxCh }
  cancels := (rxDirection codes).cancels
  receive_receive _ _ _ := by simp only [(rxDirection codes).receive_receive]

/-! ## The other writers of the live table -/

/-- A value stored through an attribute file of a channel (`b_store`). -/
inductive Attribute (Other : Type)
  | freq (value : Int)
  | freqMin (value : Int)
  | freqMax (value : Int)
  | rficLpfBw (value : Int)
  /-- `power` or `gain`. -/
  | level (value : Int)
  | rficDcQ (value : Int)
  | rficDcI (value : Int)
  | enable (value : Int)
  | stream (value : Int)
  | biasTee (value : Int)
  | fmNotch (value : Int)
  | agc (value : Int)
  /-- `path`. -/
  | other (value : Other)
  deriving DecidableEq, Repr

/-- `b_store` on a TX channel. The fields it lacks have no file. -/
def TxEntry.store (ch : TxEntry Other) : Attribute Other → TxEntry Other
  | .freq value => { ch with freq := value }
  | .freqMin value => { ch with freqMin := value }
  | .freqMax value => { ch with freqMax := value }
  | .rficLpfBw value => { ch with rficLpfBw := value }
  | .level value => { ch with power := value }
  | .enable value => { ch with enable := value }
  | .stream value => { ch with stream := value }
  | .biasTee value => { ch with biasTee := value }
  | .other value => { ch with other := value }
  | .rficDcQ _ | .rficDcI _ | .fmNotch _ | .agc _ => ch

/-- `b_store` on an RX channel. -/
def RxEntry.store (ch : RxEntry Other) : Attribute Other → RxEntry Other
  | .freq value => { ch with freq := value }
  | .freqMin value => { ch with freqMin := value }
  | .freqMax value => { ch with freqMax := value }
  | .rficLpfBw value => { ch with rficLpfBw := value }
  | .level value => { ch with gain := value }
  | .rficDcQ value => { ch with rficDcQ := value }
  | .rficDcI value => { ch with rficDcI := value }
  | .enable value => { ch with enable := value }
  | .stream value => { ch with stream := value }
  | .biasTee value => { ch with biasTee := value }
  | .fmNotch value => { ch with fmNotch := value }
  | .agc value => { ch with agc := value }
  | .other value => { ch with other := value }

/-- The store leaves the limits of the channel as they are. -/
def Attribute.KeepsLimits (fixed : Identity) : Attribute Other → Prop
  | .freqMin value => value = fixed.freqMin
  | .freqMax value => value = fixed.freqMax
  | _ => True

instance (fixed : Identity) (stored : Attribute Other) : Decidable (stored.KeepsLimits fixed) := by
  cases stored <;> unfold Attribute.KeepsLimits <;> infer_instance

/-- A store keeps what registration fixed exactly when it leaves the limits as they are. -/
theorem TxEntry.identity_store (ch : TxEntry Other) (stored : Attribute Other) :
    (ch.store stored).identity = ch.identity ↔ stored.KeepsLimits ch.identity := by
  cases stored <;> simp [store, identity, Attribute.KeepsLimits]

/-- A store keeps what registration fixed exactly when it leaves the limits as they are. -/
theorem RxEntry.identity_store (ch : RxEntry Other) (stored : Attribute Other) :
    (ch.store stored).identity = ch.identity ↔ stored.KeepsLimits ch.identity := by
  cases stored <;> simp [store, identity, Attribute.KeepsLimits]

/-- What the kernel writes into live TX channels outside a channel list. -/
inductive TxEdit (Other : Type)
  | store (d : Nat) (stored : Attribute Other)
  /-- `rfnm_dgb_tx_idle_park_work`. -/
  | park
  /-- `rfnm_dgb_reset_sm`. -/
  | reset
  deriving DecidableEq, Repr

/-- What the kernel writes into live RX channels outside a channel list. -/
inductive RxEdit (Other : Type)
  | store (d : Nat) (stored : Attribute Other)
  /-- `rfnm_dgb_rx_set_gain`. -/
  | gain (d : Nat) (gainDb : Int)
  /-- `rfnm_dgb_rx_set_dc`. -/
  | dc (d : Nat) (dcI dcQ : Int)
  /-- `rfnm_dgb_reset_sm`. -/
  | reset
  deriving DecidableEq, Repr

/-- `rfnm_dgb_rx_set_gain` takes the gain into the range of the live channel. -/
def RxEntry.setGain (ch : RxEntry Other) (gainDb : Int) : RxEntry Other :=
  let raised := if gainDb < ch.gainMin then ch.gainMin else gainDb
  { ch with gain := if raised > ch.gainMax then ch.gainMax else raised }

/-- `rfnm_dgb_rx_set_dc` refuses codes out of range. -/
def RxEntry.setDc (ch : RxEntry Other) (dcI dcQ : Int) : RxEntry Other :=
  if dcI < -126 ∨ dcI > 126 ∨ dcQ < -126 ∨ dcQ > 126 then ch
  else { ch with rficDcI := dcI, rficDcQ := dcQ }

/-- The live TX channels after a write. -/
def TxEdit.write (codes : Codes) (channels : Nat → TxEntry Other) :
    TxEdit Other → Nat → TxEntry Other
  | .store d stored => Function.update channels d ((channels d).store stored)
  | .park => fun d => { channels d with enable := codes.rfOff }
  | .reset => fun d => (txEntries codes).reset (channels d)

/-- The live RX channels after a write. -/
def RxEdit.write (codes : Codes) (channels : Nat → RxEntry Other) :
    RxEdit Other → Nat → RxEntry Other
  | .store d stored => Function.update channels d ((channels d).store stored)
  | .gain d gainDb => Function.update channels d ((channels d).setGain gainDb)
  | .dc d dcI dcQ => Function.update channels d ((channels d).setDc dcI dcQ)
  | .reset => fun d => (rxEntries codes).reset (channels d)

/-- The write leaves the limits of the channels as they are. -/
def TxEdit.KeepsLimits (channels : Nat → TxEntry Other) : TxEdit Other → Prop
  | .store d stored => stored.KeepsLimits (channels d).identity
  | _ => True

/-- The write leaves the limits of the channels as they are. -/
def RxEdit.KeepsLimits (channels : Nat → RxEntry Other) : RxEdit Other → Prop
  | .store d stored => stored.KeepsLimits (channels d).identity
  | _ => True

instance (channels : Nat → TxEntry Other) (edit : TxEdit Other) :
    Decidable (edit.KeepsLimits channels) := by
  cases edit <;> unfold TxEdit.KeepsLimits <;> infer_instance

instance (channels : Nat → RxEntry Other) (edit : RxEdit Other) :
    Decidable (edit.KeepsLimits channels) := by
  cases edit <;> unfold RxEdit.KeepsLimits <;> infer_instance

/-- A write keeps what registration fixed exactly when it leaves the limits as they are. -/
theorem TxEdit.identity_write (codes : Codes) (channels : Nat → TxEntry Other)
    (edit : TxEdit Other) :
    (∀ d, (edit.write codes channels d).identity = (channels d).identity) ↔
      edit.KeepsLimits channels := by
  cases edit with
  | store d stored =>
      rw [KeepsLimits, ← TxEntry.identity_store]
      refine ⟨fun h => by simpa [write] using h d, fun h i => ?_⟩
      by_cases hsame : i = d
      · subst hsame
        simpa [write] using h
      · simp [write, Function.update_of_ne hsame]
  | park | reset => simp [write, KeepsLimits, TxEntry.identity, txEntries, txDirection]

/-- A write keeps what registration fixed exactly when it leaves the limits as they are. -/
theorem RxEdit.identity_write (codes : Codes) (channels : Nat → RxEntry Other)
    (edit : RxEdit Other) :
    (∀ d, (edit.write codes channels d).identity = (channels d).identity) ↔
      edit.KeepsLimits channels := by
  have hupdate : ∀ d (ch : RxEntry Other), ch.identity = (channels d).identity →
      ∀ i, (Function.update channels d ch i).identity = (channels i).identity := by
    intro d ch hch i
    by_cases hsame : i = d
    · subst hsame
      simpa using hch
    · simp [Function.update_of_ne hsame]
  cases edit with
  | store d stored =>
      rw [KeepsLimits, ← RxEntry.identity_store]
      exact ⟨fun h => by simpa [write] using h d, hupdate d _⟩
  | gain d gainDb =>
      simp only [write, KeepsLimits, iff_true]
      exact hupdate d ((channels d).setGain gainDb) rfl
  | dc d dcI dcQ =>
      simp only [write, KeepsLimits, iff_true]
      apply hupdate
      unfold RxEntry.setDc
      split <;> rfl
  | reset => simp [write, KeepsLimits, RxEntry.identity, rxEntries, rxDirection]

/-! ## Registration -/

/-- What one direction does in its own way outside the list walk. -/
structure Side (Ch Edit : Type) where
  dir : Direction Ch
  identity : Ch → Identity
  freq : Ch → Int
  /-- `power` or `gain`. -/
  level : Ch → Int
  enable : Ch → Int
  stream : Ch → Int
  /-- Which of the stream flags follows the channel. -/
  flag : Identity → Nat
  /-- How many stream flags there are. -/
  flagCount : Nat
  /-- What registration writes into a channel: its slot, and its index on the board. -/
  enroll : Fin 2 → Nat → Ch → Ch
  /-- What registration writes into `abs_id`. -/
  number : Nat → Ch → Ch
  /-- The converters a board driver has for its channels. -/
  converters : Nat
  write : (Nat → Ch) → Edit → Nat → Ch
  KeepsLimits : (Nat → Ch) → Edit → Prop
  absId_eq : ∀ ch, dir.absId ch = (identity ch).absId
  identity_receive : ∀ live incoming, identity (dir.receive live incoming) = identity incoming
  freq_receive : ∀ live incoming, freq (dir.receive live incoming) = freq incoming
  level_receive : ∀ live incoming, level (dir.receive live incoming) = level incoming ∨
    level (dir.receive live incoming) = level live
  identity_enroll : ∀ slot q ch, (identity (enroll slot q ch)).dgbId = slot ∧
    (identity (enroll slot q ch)).dgbChId = q
  identity_number : ∀ d ch, identity (number d ch) = { identity ch with absId := d }
  flag_enroll : ∀ slot q ch, (identity ch).converter < converters →
    flag (identity (enroll slot q ch)) < flagCount
  flag_number : ∀ d ch, flag (identity (number d ch)) = flag (identity ch)
  identity_write : ∀ channels edit, (∀ d, identity (write channels edit d) =
    identity (channels d)) ↔ KeepsLimits channels edit
  /-- A channel that passes the checks is within the limits it carries. -/
  inLimits_of_valid : ∀ ch, (dir.validate ch).1 = 0 →
    (identity ch).freqMin ≤ freq ch ∧ freq ch ≤ (identity ch).freqMax ∧
      (identity ch).levelMin ≤ level ch ∧ level ch ≤ (identity ch).levelMax

/-- A TX channel that passes the checks is within the limits it carries. -/
theorem validateTxCh_inLimits {codes : Codes} (hcodes : codes.apiNotSupported ≠ 0) (ch : TxCh)
    (h : (validateTxCh codes ch).1 = 0) : ch.freqMin ≤ ch.freq ∧ ch.freq ≤ ch.freqMax ∧
      ch.powerMin ≤ ch.power ∧ ch.power ≤ ch.powerMax := by
  unfold validateTxCh at h
  split at h
  · exact absurd h hcodes
  split at h
  · exact absurd h hcodes
  split at h
  · exact absurd h hcodes
  omega

/-- An RX channel that passes the checks is within the limits it carries. -/
theorem validateRxCh_inLimits {codes : Codes} (hcodes : codes.apiNotSupported ≠ 0) (ch : RxCh)
    (h : (validateRxCh codes ch).1 = 0) : ch.freqMin ≤ ch.freq ∧ ch.freq ≤ ch.freqMax ∧
      ch.gainMin ≤ ch.gain ∧ ch.gain ≤ ch.gainMax := by
  unfold validateRxCh at h
  split at h
  · exact absurd h hcodes
  split at h
  · exact absurd h hcodes
  split at h
  · exact absurd h hcodes
  omega

/-- The TX side: `rfnm_dgb_reg_tx_ch`, and the one flag `rfnm_tx_dac_s`. -/
def txSide (Other : Type) (codes : Codes) (hcodes : codes.apiNotSupported ≠ 0) :
    Side (TxEntry Other) (TxEdit Other) where
  dir := txEntries codes
  identity := TxEntry.identity
  freq ch := ch.freq
  level ch := ch.power
  enable ch := ch.enable
  stream ch := ch.stream
  flag _ := 0
  flagCount := 1
  enroll slot q ch := { ch with dgbId := slot, dgbChId := q }
  number d ch := { ch with absId := d }
  converters := 1
  write := fun channels edit => edit.write codes channels
  KeepsLimits := fun channels edit => edit.KeepsLimits channels
  absId_eq _ := rfl
  identity_receive _ _ := rfl
  freq_receive _ _ := rfl
  level_receive _ _ := .inl rfl
  identity_enroll _ _ _ := ⟨rfl, rfl⟩
  identity_number _ _ := rfl
  flag_enroll _ _ _ _ := Nat.zero_lt_one
  flag_number _ _ := rfl
  identity_write := TxEdit.identity_write codes
  inLimits_of_valid ch h := validateTxCh_inLimits hcodes ch.toTxCh h

/-- The RX side: `rfnm_dgb_reg_rx_ch`, where slot 1 has the converters from 2 on, and the four
flags `rfnm_rx_adc_s`. -/
def rxSide (Other : Type) (codes : Codes) (hcodes : codes.apiNotSupported ≠ 0) :
    Side (RxEntry Other) (RxEdit Other) where
  dir := rxEntries codes
  identity := RxEntry.identity
  freq ch := ch.freq
  level ch := ch.gain
  enable ch := ch.enable
  stream ch := ch.stream
  flag fixed := fixed.converter
  flagCount := 4
  enroll slot q ch := { ch with dgbId := slot, dgbChId := q, adcId := ch.adcId + slot * 2 }
  number d ch := { ch with absId := d }
  converters := 2
  write := fun channels edit => edit.write codes channels
  KeepsLimits := fun channels edit => edit.KeepsLimits channels
  absId_eq _ := rfl
  identity_receive live incoming := by
    by_cases hagc : incoming.agc = codes.agcOff <;>
      simp [rxEntries, rxDirection, adoptAgcGain, RxEntry.identity, hagc]
  freq_receive live incoming := by
    by_cases hagc : incoming.agc = codes.agcOff <;>
      simp [rxEntries, rxDirection, adoptAgcGain, hagc]
  level_receive live incoming := by
    by_cases hagc : incoming.agc = codes.agcOff <;>
      simp [rxEntries, rxDirection, adoptAgcGain, hagc]
  identity_enroll _ _ _ := ⟨rfl, rfl⟩
  identity_number _ _ := rfl
  flag_enroll slot q ch h := by
    change ch.adcId + slot * 2 < 4
    change ch.adcId < 2 at h
    omega
  flag_number _ _ := rfl
  identity_write := RxEdit.identity_write codes
  inLimits_of_valid ch h := validateRxCh_inLimits hcodes ch.toRxCh h

instance (codes : Codes) (hcodes : codes.apiNotSupported ≠ 0) (channels : Nat → TxEntry Other)
    (edit : TxEdit Other) : Decidable ((txSide Other codes hcodes).KeepsLimits channels edit) :=
  inferInstanceAs (Decidable (edit.KeepsLimits channels))

instance (codes : Codes) (hcodes : codes.apiNotSupported ≠ 0) (channels : Nat → RxEntry Other)
    (edit : RxEdit Other) : Decidable ((rxSide Other codes hcodes).KeepsLimits channels edit) :=
  inferInstanceAs (Decidable (edit.KeepsLimits channels))

/-- `rfnm_dgb[2]`: the channels of the two slots. -/
structure Boards (Ch : Type) where
  first : List Ch
  second : List Ch
  deriving DecidableEq, Repr

/-- The channels in the order of the walk. -/
def Boards.walk (boards : Boards Ch) : List Ch :=
  boards.first ++ boards.second

/-- The channels of one slot. -/
def Boards.on (boards : Boards Ch) (slot : Fin 2) : List Ch :=
  if slot = 0 then boards.first else boards.second

/-- The last part of a registration: every `abs_id` is assigned anew. -/
def Boards.renumber (side : Side Ch Edit) (boards : Boards Ch) : Boards Ch where
  first := boards.first.mapIdx side.number
  second := boards.second.mapIdx fun q => side.number (boards.first.length + q)

/-- `rfnm_dgb_reg_tx_ch`, `rfnm_dgb_reg_rx_ch`. -/
def Boards.register (side : Side Ch Edit) (boards : Boards Ch) (slot : Fin 2) (ch : Ch) :
    Boards Ch :=
  let ch := side.enroll slot (boards.on slot).length ch
  Boards.renumber side
    (if slot = 0 then { boards with first := boards.first ++ [ch] }
    else { boards with second := boards.second ++ [ch] })

/-- A channel a board driver brings, on a converter the board has. -/
structure Enrolment (side : Side Ch Edit) where
  slot : Fin 2
  ch : Ch
  converter_lt : (side.identity ch).converter < side.converters

/-- The boards after the board drivers have registered these channels, the last one first. -/
def Boards.ofEnrolments (side : Side Ch Edit) : List (Enrolment side) → Boards Ch
  | [] => ⟨[], []⟩
  | enrolment :: earlier =>
      (Boards.ofEnrolments side earlier).register side enrolment.slot enrolment.ch

variable {side : Side Ch Edit} {boards : Boards Ch}

/-- Every channel carries its slot and its index there, and has a stream flag. -/
def Boards.Placed (side : Side Ch Edit) (boards : Boards Ch) : Prop :=
  ∀ slot q ch, (boards.on slot)[q]? = some ch →
    (side.identity ch).dgbId = slot ∧ (side.identity ch).dgbChId = q ∧
      side.flag (side.identity ch) < side.flagCount

/-- New `abs_id`s leave the channels in their places. -/
theorem Boards.Placed.renumber (h : boards.Placed side) : (boards.renumber side).Placed side := by
  have hnumber : ∀ (slot : Fin 2) (q d : Nat) (old : Ch), (boards.on slot)[q]? = some old →
      (side.identity (side.number d old)).dgbId = slot ∧
        (side.identity (side.number d old)).dgbChId = q ∧
          side.flag (side.identity (side.number d old)) < side.flagCount := by
    intro slot q d old hold
    obtain ⟨hslot, hindex, hflag⟩ := h slot q old hold
    rw [side.flag_number, side.identity_number]
    exact ⟨hslot, hindex, hflag⟩
  intro slot q ch hch
  by_cases hfirst : slot = 0
  · subst hfirst
    simp only [Boards.on, Boards.renumber, if_true, List.getElem?_mapIdx, Option.map_eq_some_iff]
      at hch
    obtain ⟨old, hold, rfl⟩ := hch
    exact hnumber 0 q q old (by simpa [Boards.on] using hold)
  · simp only [Boards.on, Boards.renumber, if_neg hfirst, List.getElem?_mapIdx,
      Option.map_eq_some_iff] at hch
    obtain ⟨old, hold, rfl⟩ := hch
    exact hnumber slot q _ old (by simpa [Boards.on, hfirst] using hold)

/-- A registration puts the new channel behind the others of its slot. -/
theorem Boards.Placed.register (h : boards.Placed side) (slot : Fin 2) {ch : Ch}
    (hconverter : (side.identity ch).converter < side.converters) :
    (boards.register side slot ch).Placed side := by
  apply Boards.Placed.renumber
  have hnew : ∀ q other, (boards.on slot ++
      [side.enroll slot (boards.on slot).length ch])[q]? = some other →
        (side.identity other).dgbId = slot ∧ (side.identity other).dgbChId = q ∧
          side.flag (side.identity other) < side.flagCount := by
    intro q other hother
    rw [List.getElem?_append] at hother
    split at hother
    · exact h slot q other hother
    · obtain ⟨hq, hget⟩ := List.getElem?_eq_some_iff.mp hother
      have hlast : q = (boards.on slot).length := by
        simp at hq
        omega
      subst hlast
      obtain rfl : side.enroll slot (boards.on slot).length ch = other := by simpa using hget
      obtain ⟨hslot, hindex⟩ := side.identity_enroll slot (boards.on slot).length ch
      exact ⟨hslot, hindex, side.flag_enroll slot _ ch hconverter⟩
  intro other q found hfound
  by_cases hslot : slot = 0
  · subst hslot
    by_cases hother : other = 0
    · subst hother
      exact hnew q found (by simpa [Boards.on] using hfound)
    · exact h other q found (by simpa [Boards.on, hother] using hfound)
  · by_cases hother : other = 0
    · subst hother
      exact h 0 q found (by simpa [Boards.on, hslot] using hfound)
    · obtain rfl : other = slot := by omega
      exact hnew q found (by simpa [Boards.on, hslot] using hfound)

/-- After the registrations every channel is in its place. -/
theorem Boards.placed_ofEnrolments (enrolments : List (Enrolment side)) :
    (Boards.ofEnrolments side enrolments).Placed side := by
  induction enrolments with
  | nil =>
      intro slot q ch hch
      by_cases hslot : slot = 0 <;> simp [Boards.on, Boards.ofEnrolments] at hch
  | cons enrolment earlier ih => exact ih.register enrolment.slot enrolment.converter_lt

/-- A registered channel's index on its board is below the number of channels there, and it has a
stream flag. -/
theorem Boards.Placed.bounded (h : boards.Placed side) {ch : Ch} (hch : ch ∈ boards.walk) :
    (∃ slot : Fin 2, (side.identity ch).dgbId = slot ∧
      (side.identity ch).dgbChId < (boards.on slot).length) ∧
        side.flag (side.identity ch) < side.flagCount := by
  obtain ⟨slot, hslot⟩ : ∃ slot : Fin 2, ch ∈ boards.on slot := by
    rcases List.mem_append.mp hch with hfirst | hsecond
    · exact ⟨0, by simpa [Boards.on] using hfirst⟩
    · exact ⟨1, by simpa [Boards.on] using hsecond⟩
  obtain ⟨q, hq, hget⟩ := List.mem_iff_getElem.mp hslot
  obtain ⟨hdgb, hindex, hflag⟩ := h slot q ch (by rw [List.getElem?_eq_getElem hq, hget])
  exact ⟨⟨slot, hdgb, hindex ▸ hq⟩, hflag⟩

/-- The walk meets the channels in the order of their `abs_id`. -/
theorem Boards.absId_renumber {d : Nat} {ch : Ch}
    (hch : (boards.renumber side).walk[d]? = some ch) : side.dir.absId ch = d := by
  have habs : ∀ n old, side.dir.absId (side.number n old) = n := by
    intro n old
    rw [side.absId_eq, side.identity_number]
  simp only [Boards.walk, Boards.renumber, List.getElem?_append, List.length_mapIdx] at hch
  split at hch
  · simp only [List.getElem?_mapIdx, Option.map_eq_some_iff] at hch
    obtain ⟨old, -, rfl⟩ := hch
    exact habs d old
  · simp only [List.getElem?_mapIdx, Option.map_eq_some_iff] at hch
    obtain ⟨old, -, rfl⟩ := hch
    rw [habs]
    omega

end RfnmDriver.Daughterboard
