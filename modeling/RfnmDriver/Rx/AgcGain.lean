import Mathlib.Tactic.Linarith
import RfnmDriver.Daughterboard.ChannelTypes
import RfnmDriver.Library.StepSystem
import RfnmDriver.Library.WrapClock
import RfnmDriver.Rx.AgcPeak

/-!
# Gain steps and the gain epoch

`rfnm_agc` steps the gain of the channel on ADC 0 through `rfnm_dgb_rx_set_gain`, which takes the
wanted gain into the range of the channel before it writes it and applies it, and bumps
`rfnm_rx_gain_epoch` when that reports no error. The decay asks for no gain at the top of the range;
the attack does not look at the bottom. Read `levelStep_cases` first: a poll steps the gain in one of
two ways, or not at all.
-/

namespace RfnmDriver.Rx.AgcGain

open StepSystem WrapClock AgcPeak

/-- The fields of `rfnm_api_rx_ch` that the loop reads. -/
structure RxCh where
  gain : Int
  /-- `gain_range.min`. -/
  gainMin : Int
  /-- `gain_range.max`. -/
  gainMax : Int
  freq : Int
  /-- `agc` is `RFNM_AGC_DEFAULT`. -/
  agcDefault : Bool
  enable : ChEnable
  adcId : Nat
  deriving DecidableEq, Repr

/-- The module parameters, and `msecs_to_jiffies`. -/
structure Params where
  slotsPerWake : BitVec 32
  settleMs : BitVec 32
  streamSettleMs : BitVec 32
  attCounts : Int
  decCounts : Int
  holdMs : BitVec 32
  upDb : Int
  msecsToJiffies : BitVec 32 → BitVec 64

/-- `struct agc_state`. -/
structure AgcState where
  dgbId : Nat
  chId : Nat
  lastSlot : BitVec 32
  lastRxBufId : BitVec 32
  wasIdle : Bool
  blankUntil : BitVec 64
  lastFreq : Int
  peak : Int
  belowSince : BitVec 64
  belowValid : Bool
  statSlots : Nat
  statStepsDown : Nat
  statStepsUp : Nat
  statIdle : Nat
  deriving DecidableEq, Repr

/-- `st->stat_steps_down++`. -/
def AgcState.countDown (st : AgcState) : AgcState :=
  { st with statStepsDown := st.statStepsDown + 1 }

/-- `st->stat_steps_up++`. -/
def AgcState.countUp (st : AgcState) : AgcState :=
  { st with statStepsUp := st.statStepsUp + 1 }

/-- `AGC_ADC_SLOT_CNT`. -/
def agcAdcSlotCnt : BitVec 32 := 4096#32

/-- `AGC_WRITER_GUARD`. -/
def agcWriterGuard : BitVec 32 := 4#32

/-- What a round of the thread finds outside the module. -/
structure Round where
  /-- `agc_master`. -/
  agcMaster : Bool
  jiffies : BitVec 64
  /-- `rx_buf_id` of the firmware's status. -/
  rxBufId : BitVec 32
  /-- `rfnm_local_rx_fmt`. -/
  localRxFmt : LocalRxFmt
  /-- `rfnm_stream_is_native_rx`. -/
  native : Bool
  ring : Nat → RawSlot
  /-- The board's `rx_ch_set` reports no error. -/
  applied : Bool

/-- The loop, the channels of the two boards, the epoch, and an estimator that follows it. -/
structure Leveling where
  st : AgcState
  /-- `rfnm_dgb`. -/
  dgb : Nat → Option (List (Option RxCh))
  /-- `rfnm_rx_gain_epoch`. -/
  gainEpoch : BitVec 32
  /-- `last_gain_epoch` of the estimator. -/
  lastGainEpoch : BitVec 32
  /-- A poll has changed a gain since the estimator last looked. -/
  moved : Bool

/-- One step. -/
inductive Event
  /-- A round of `agc_thread_fn`. -/
  | poll (round : Round)
  /-- Clients and boards change the channels. -/
  | channels (dgb : Nat → Option (List (Option RxCh)))
  /-- The estimator compares the epoch with the one it last saw. -/
  | estimate

namespace Leveling

variable (params : Params) (leveling : Leveling) (round : Round) (ch : RxCh)

/-! ## The channel -/

/-- `rfnm_dgb_get`. -/
def dgbGet (dgbId : Nat) : Option (List (Option RxCh)) :=
  if dgbId > 1 then none else leveling.dgb dgbId

/-- `rfnm_dgb_get(dgb_id)->rx_ch[ch_id]`. -/
def rxCh (dgbId chId : Nat) : Option RxCh :=
  ((leveling.dgbGet dgbId).bind fun chs => chs[chId]?).join

/-- `agc_find_target`: the first channel on ADC 0. -/
def agcFindTarget : Option (Nat × Nat) :=
  [0, 1].findSome? fun i => (leveling.dgbGet i).bind fun chs =>
    (chs.findIdx? fun ch? => ch?.any fun ch => ch.adcId = 0).map fun q => (i, q)

/-- `rfnm_dgb_rx_set_gain` takes the gain into the range of the channel. -/
def clampGain (gainDb : Int) : Int :=
  let raised := if gainDb < ch.gainMin then ch.gainMin else gainDb
  if raised > ch.gainMax then ch.gainMax else raised

/-- The channel with another gain. -/
def writeGain (dgbId chId : Nat) (gain : Int) : Nat → Option (List (Option RxCh)) :=
  Function.update leveling.dgb dgbId ((leveling.dgb dgbId).map fun chs =>
    chs.modify chId fun ch? => ch?.map fun ch => { ch with gain := gain })

/-- `rfnm_dgb_rx_set_gain`, and whether it reports no error: the gain is written before it is
applied. -/
def rxSetGain (dgbId chId : Nat) (gainDb : Int) : Leveling × Bool :=
  match leveling.rxCh dgbId chId with
  | none => (leveling, false)
  | some ch =>
      ({ leveling with dgb := leveling.writeGain dgbId chId (clampGain ch gainDb) }, round.applied)

/-! ## The level step -/

/-- `while(o > 1) { down += 6; o >>= 1; }`. -/
def overshoot (o : Nat) : Int :=
  if o > 1 then 6 + overshoot (o / 2) else 0

/-- `down`. -/
def attackDown (peak : Int) : Int :=
  if peak ≥ 2040 then 12
  else 6 + overshoot
    (peak.tdiv (if params.attCounts = 0 then 1 else params.attCounts)).toNat

/-- A gain step of so much, and what the loop writes down when it went through. -/
def gainStep (gainDb : Int) (count : AgcState → AgcState) : Leveling :=
  let (stepped, ok) := leveling.rxSetGain round leveling.st.dgbId leveling.st.chId gainDb
  if ok then
    { stepped with
      gainEpoch := stepped.gainEpoch + 1
      st := { count stepped.st with
        blankUntil := round.jiffies + params.msecsToJiffies params.settleMs } }
  else stepped

/-- `st->below_valid = 0`. -/
def forgetBelow : Leveling :=
  { leveling with st := { leveling.st with belowValid := false } }

/-- `agc_level_step`. -/
def levelStep : Leveling :=
  let st := leveling.st
  if st.peak ≥ params.attCounts then
    (leveling.gainStep params round (ch.gain - attackDown params st.peak)
      AgcState.countDown).forgetBelow
  else if st.peak ≠ 0 ∧ st.peak < params.decCounts then
    if st.belowValid = false then
      { leveling with st := { st with belowValid := true, belowSince := round.jiffies } }
    else if later round.jiffies (st.belowSince + params.msecsToJiffies params.holdMs) then
      if ch.gain < ch.gainMax then
        (leveling.gainStep params round (ch.gain + params.upDb) AgcState.countUp).forgetBelow
      else leveling.forgetBelow
    else leveling
  else leveling.forgetBelow

/-! ## A poll -/

/-- `blank_until` after a change of the stream. -/
def blank (st : AgcState) : AgcState :=
  { st with
    blankUntil := round.jiffies + params.msecsToJiffies params.streamSettleMs
    belowValid := false }

/-- The slot the loop may read up to. -/
def target : BitVec 32 :=
  (round.rxBufId + agcAdcSlotCnt - agcWriterGuard) % agcAdcSlotCnt

/-- `agc_slot_stats` over so many slots behind `last_slot`. -/
def window (lastSlot : BitVec 32) : Nat → Int × Nat
  | 0 => (0, 0)
  | k + 1 =>
      let (peak, slots) := window lastSlot k
      let slot := round.ring ((lastSlot + 1#32 + BitVec.ofNat 32 k) % agcAdcSlotCnt).toNat
      match agcSlotStats round.localRxFmt peak slot with
      | some raised => (raised, slots + 1)
      | none => (peak, slots)

/-- `agc_poll` from the window on: the peak of the newest slots. -/
def measureWindow (st : AgcState) : AgcState :=
  let avail := (target round + agcAdcSlotCnt - st.lastSlot) % agcAdcSlotCnt
  let (lastSlot, avail) :=
    if avail > params.slotsPerWake then
      ((target round + agcAdcSlotCnt - params.slotsPerWake) % agcAdcSlotCnt, params.slotsPerWake)
    else (st.lastSlot, avail)
  let (peak, slots) := window round lastSlot avail.toNat
  { st with peak := peak, statSlots := st.statSlots + slots, lastSlot := target round }

/-- `agc_poll` behind `agc_find_target`, up to the level step; and whether it comes to that. -/
def measure (st : AgcState) : AgcState × Bool :=
  let st := if ch.freq ≠ st.lastFreq then blank params round { st with lastFreq := ch.freq } else st
  if round.rxBufId ≥ agcAdcSlotCnt then ({ st with wasIdle := true }, false)
  else if round.rxBufId = st.lastRxBufId then
    ({ st with statIdle := st.statIdle + 1, wasIdle := true }, false)
  else
    let st := { st with lastRxBufId := round.rxBufId }
    let st := if st.wasIdle then blank params round { st with wasIdle := false } else st
    if later st.blankUntil round.jiffies then ({ st with lastSlot := target round }, false)
    else
      let st := measureWindow params round st
      (st, st.peak ≠ 0)

/-- The round reads a ring in the layout it understands, and finds a channel: the loop's state when
it comes to the level step, or without one, and the channel. -/
def reached : Option (AgcState × Bool × RxCh) :=
  if round.agcMaster = false ∨ round.localRxFmt ≠ .packed12 ∨ round.native = false then none
  else
    leveling.agcFindTarget.bind fun (dgbId, chId) =>
      (leveling.rxCh dgbId chId).map fun ch =>
        let (st, level) := measure params round ch
          { leveling.st with dgbId := dgbId, chId := chId }
        (st, level, ch)

/-- A round of `agc_thread_fn`. -/
def poll : Leveling :=
  match leveling.reached params round with
  | none => leveling
  | some (st, level, ch) =>
      let measured := { leveling with st := st }
      if level then
        if ch.agcDefault ∧ ch.enable = .rfOn then measured.levelStep params round ch
        else measured.forgetBelow
      else measured

/-- The live gain of a channel. -/
def gainOf (dgbId chId : Nat) : Option Int :=
  (leveling.rxCh dgbId chId).map RxCh.gain

/-- The live gain of the loop's channel is another one. -/
def Moved (following : Leveling) : Prop :=
  following.gainOf following.st.dgbId following.st.chId ≠
    leveling.gainOf following.st.dgbId following.st.chId

instance (following : Leveling) : Decidable (leveling.Moved following) :=
  inferInstanceAs (Decidable (_ ≠ _))

/-- One step. -/
def next : Event → Option Leveling
  | .poll round =>
      let polled := leveling.poll params round
      some { polled with moved := leveling.moved || leveling.Moved polled }
  | .channels dgb => some { leveling with dgb := dgb }
  | .estimate => some { leveling with lastGainEpoch := leveling.gainEpoch, moved := false }

/-- The module's zeroed memory and its init, with these channels registered. -/
def init (lastSlot : BitVec 32) (dgb : Nat → Option (List (Option RxCh))) : Leveling where
  st := ⟨0, 0, lastSlot, 0xffffffff#32, true, 0, 0, 0, 0, false, 0, 0, 0, 0⟩
  dgb := dgb
  gainEpoch := 0
  lastGainEpoch := 0
  moved := false

/-! ## The property and the condition -/

/-- A poll advances the epoch exactly when the live gain of its channel changes, and changes no
other; and the estimator sees another epoch only after a poll changed a gain. -/
def EpochExact (leveling : Leveling) (event : Event) (following : Leveling) : Prop :=
  match event with
  | .poll _ =>
      (following.gainEpoch ≠ leveling.gainEpoch ↔ leveling.Moved following) ∧
      ∀ dgbId chId, (dgbId, chId) ≠ (following.st.dgbId, following.st.chId) →
        following.gainOf dgbId chId = leveling.gainOf dgbId chId
  | .estimate => leveling.gainEpoch ≠ leveling.lastGainEpoch → leveling.moved = true
  | .channels _ => True

/-- The attack is due. -/
def Attacks (st : AgcState) : Prop :=
  st.peak ≥ params.attCounts

/-- The decay is due, and the gain below the top of the range. -/
def Decays (st : AgcState) : Prop :=
  st.peak < params.attCounts ∧ (st.peak ≠ 0 ∧ st.peak < params.decCounts) ∧
    st.belowValid = true ∧
    later round.jiffies (st.belowSince + params.msecsToJiffies params.holdMs) = true ∧
    ch.gain < ch.gainMax

/-- A poll that steps the gain down finds it above the bottom of its range if the board takes the
step, and at the bottom if it refuses; one that steps it up finds room for another gain if the board
takes it, and none if it refuses. -/
def StepsReal (leveling : Leveling) (event : Event) : Prop :=
  match event with
  | .poll round => ∀ found ∈ leveling.reached params round,
      found.2.1 = true → found.2.2.agcDefault = true ∧ found.2.2.enable = .rfOn →
        (Attacks params found.1 →
          (round.applied = true ↔ found.2.2.gain ≠ min found.2.2.gainMin found.2.2.gainMax)) ∧
        (Decays params round found.2.2 found.1 →
          (round.applied = true ↔
            clampGain found.2.2 (found.2.2.gain + params.upDb) ≠ found.2.2.gain))
  | _ => True

/-! ## Gains -/

variable {params leveling round ch} {following : Leveling} {event : Event} {dgbId chId : Nat}

/-- The attack asks for a lower gain. -/
theorem attackDown_pos (params : Params) (peak : Int) : 0 < attackDown params peak := by
  have hovershoot : ∀ o, 0 ≤ overshoot o := by
    intro o
    induction o using Nat.strong_induction_on with
    | _ o ih =>
        rw [overshoot]
        split
        · next hlarge => linarith [ih (o / 2) (by omega)]
        · exact le_rfl
  unfold attackDown
  split
  · omega
  · linarith [hovershoot (peak.tdiv (if params.attCounts = 0 then 1 else params.attCounts)).toNat]

/-- A lower gain, taken into the range, is the same exactly at the bottom. -/
theorem clampGain_sub_eq_iff (ch : RxCh) {down : Int} (hdown : 0 < down) :
    clampGain ch (ch.gain - down) = ch.gain ↔ ch.gain = min ch.gainMin ch.gainMax := by
  unfold clampGain
  simp only
  split_ifs <;> omega

/-- A gain written is read back from its channel, and the other channels are as they were. -/
theorem rxCh_writeGain (hch : leveling.rxCh dgbId chId = some ch) (gain : Int)
    (hdgb : following.dgb = leveling.writeGain dgbId chId gain) (other otherCh : Nat) :
    following.rxCh other otherCh =
      if (other, otherCh) = (dgbId, chId) then some { ch with gain := gain }
      else leveling.rxCh other otherCh := by
  -- there are two boards, so a channel that was found is on one of them
  have hboard : ¬dgbId > 1 := by
    intro hlarge
    rw [rxCh, dgbGet, if_pos hlarge] at hch
    cases hch
  by_cases hother : other = dgbId
  · subst hother
    rw [rxCh, dgbGet, if_neg hboard] at hch ⊢
    rw [hdgb, writeGain, Function.update_self, rxCh, dgbGet, if_neg hboard]
    cases hchs : leveling.dgb other with
    | none =>
        rw [hchs] at hch
        cases hch
    | some chs =>
        rw [hchs] at hch
        have hfound : chs[chId]?.join = some ch := hch
        show (chs.modify chId _)[otherCh]?.join = if _ then _ else chs[otherCh]?.join
        rw [List.getElem?_modify]
        by_cases hch' : otherCh = chId
        · subst hch'
          rw [if_pos rfl]
          cases hentry : chs[otherCh]? with
          | none =>
              rw [hentry] at hfound
              cases hfound
          | some entry =>
              rw [hentry] at hfound
              obtain rfl : entry = some ch := hfound
              simp
        · rw [if_neg (by simpa using hch')]
          cases chs[otherCh]? with
          | none => rfl
          | some entry => simp [Ne.symm hch']
  · rw [if_neg (by simp [hother]), rxCh, rxCh, dgbGet, dgbGet, hdgb, writeGain,
      Function.update_of_ne hother]

/-! ## What a poll does to the gain and to the epoch -/

/-- The channel, the gains and the epoch are as they were. -/
def Kept (leveling following : Leveling) : Prop :=
  following.dgb = leveling.dgb ∧ following.gainEpoch = leveling.gainEpoch

/-- The gain of the loop's channel is written, and the epoch bumped if the board took it. -/
def Stepped (leveling : Leveling) (gain : Int) (applied : Bool) (following : Leveling) : Prop :=
  following.dgb = leveling.writeGain following.st.dgbId following.st.chId gain ∧
    following.gainEpoch = if applied then leveling.gainEpoch + 1 else leveling.gainEpoch

/-- A gain step writes the gain that the range leaves of the wanted one. -/
theorem gainStep_spec (params : Params) (round : Round)
    (hch : leveling.rxCh leveling.st.dgbId leveling.st.chId = some ch) (gainDb : Int)
    (count : AgcState → AgcState)
    (hcount : ∀ st, (count st).dgbId = st.dgbId ∧ (count st).chId = st.chId) :
    let stepped := (leveling.gainStep params round gainDb count).forgetBelow
    (stepped.st.dgbId = leveling.st.dgbId ∧ stepped.st.chId = leveling.st.chId) ∧
      leveling.Stepped (clampGain ch gainDb) round.applied stepped := by
  obtain ⟨hdgbId, hchId⟩ := hcount leveling.st
  intro stepped
  have hstepped : stepped = (leveling.gainStep params round gainDb count).forgetBelow := rfl
  rw [gainStep, rxSetGain, hch] at hstepped
  simp only at hstepped
  cases happlied : round.applied
  · rw [happlied, if_neg Bool.false_ne_true] at hstepped
    rw [hstepped]
    exact ⟨⟨rfl, rfl⟩, rfl, rfl⟩
  · rw [happlied, if_pos rfl] at hstepped
    rw [hstepped]
    refine ⟨⟨hdgbId, hchId⟩, ?_, rfl⟩
    show leveling.writeGain leveling.st.dgbId leveling.st.chId _ =
      leveling.writeGain (count leveling.st).dgbId (count leveling.st).chId _
    rw [hdgbId, hchId]

/-- A level step attacks, or decays, or leaves the gain. -/
theorem levelStep_cases (params : Params) (round : Round)
    (hch : leveling.rxCh leveling.st.dgbId leveling.st.chId = some ch) :
    ((leveling.levelStep params round ch).st.dgbId = leveling.st.dgbId ∧
      (leveling.levelStep params round ch).st.chId = leveling.st.chId) ∧
    ((Attacks params leveling.st ∧
        leveling.Stepped (clampGain ch (ch.gain - attackDown params leveling.st.peak)) round.applied
          (leveling.levelStep params round ch)) ∨
      (Decays params round ch leveling.st ∧
        leveling.Stepped (clampGain ch (ch.gain + params.upDb)) round.applied
          (leveling.levelStep params round ch)) ∨
      (¬Attacks params leveling.st ∧ ¬Decays params round ch leveling.st ∧
        leveling.Kept (leveling.levelStep params round ch))) := by
  unfold levelStep Attacks Decays
  simp only
  -- an attack; or a decay, which the level, the floor, the time and the room must all allow
  split
  · next hattack =>
      obtain ⟨hids, hstepped⟩ := gainStep_spec params round hch
        (ch.gain - attackDown params leveling.st.peak) AgcState.countDown fun st => ⟨rfl, rfl⟩
      exact ⟨hids, .inl ⟨hattack, hstepped⟩⟩
  · next hattack =>
      split
      · next hlow =>
          split
          · next hfresh =>
              exact ⟨⟨rfl, rfl⟩, .inr (.inr ⟨hattack, fun h => by simp [hfresh] at h, rfl, rfl⟩)⟩
          · next hvalid =>
              split
              · next hlate =>
                  split
                  · next hroom =>
                      obtain ⟨hids, hstepped⟩ := gainStep_spec params round hch
                        (ch.gain + params.upDb) AgcState.countUp fun st => ⟨rfl, rfl⟩
                      exact ⟨hids, .inr (.inl ⟨⟨not_le.mp hattack, hlow, by simpa using hvalid,
                        hlate, hroom⟩, hstepped⟩)⟩
                  · next hroom =>
                      exact ⟨⟨rfl, rfl⟩,
                        .inr (.inr ⟨hattack, fun h => hroom h.2.2.2.2, rfl, rfl⟩)⟩
              · next hlate =>
                  exact ⟨⟨rfl, rfl⟩,
                    .inr (.inr ⟨hattack, fun h => hlate h.2.2.2.1, rfl, rfl⟩)⟩
      · next hlow =>
          exact ⟨⟨rfl, rfl⟩, .inr (.inr ⟨hattack, fun h => hlow h.2.1, rfl, rfl⟩)⟩

/-- The measurement stays with its channel. -/
theorem measure_ids (params : Params) (round : Round) (ch : RxCh) (st : AgcState) :
    (measure params round ch st).1.dgbId = st.dgbId ∧
      (measure params round ch st).1.chId = st.chId := by
  unfold measure measureWindow blank
  simp only
  split_ifs <;> exact ⟨rfl, rfl⟩

/-- A round that comes to a level step, or to none, has found its channel. -/
theorem rxCh_of_reached {found : AgcState × Bool × RxCh}
    (h : leveling.reached params round = some found) :
    leveling.rxCh found.1.dgbId found.1.chId = some found.2.2 := by
  unfold reached at h
  split at h
  · cases h
  · obtain ⟨⟨dgbId, chId⟩, -, htarget⟩ := Option.bind_eq_some_iff.mp h
    obtain ⟨ch, hch, rfl⟩ := Option.map_eq_some_iff.mp htarget
    obtain ⟨hdgbId, hchId⟩ := measure_ids params round ch
      { leveling.st with dgbId := dgbId, chId := chId }
    show leveling.rxCh (measure params round ch _).1.dgbId (measure params round ch _).1.chId = _
    rw [hdgbId, hchId]
    exact hch

/-- A poll that is not at a level step leaves the gain; one that is attacks, decays or leaves it. -/
theorem poll_cases (params : Params) (leveling : Leveling) (round : Round) :
    (leveling.reached params round = none ∧ leveling.poll params round = leveling) ∨
    ∃ st level ch, leveling.reached params round = some (st, level, ch) ∧
      leveling.rxCh (leveling.poll params round).st.dgbId (leveling.poll params round).st.chId =
        some ch ∧
      ((¬(level = true ∧ ch.agcDefault = true ∧ ch.enable = .rfOn) ∧
          leveling.Kept (leveling.poll params round)) ∨
        (level = true ∧ ch.agcDefault = true ∧ ch.enable = .rfOn) ∧
          ((Attacks params st ∧ leveling.Stepped (clampGain ch (ch.gain - attackDown params st.peak))
              round.applied (leveling.poll params round)) ∨
            (Decays params round ch st ∧ leveling.Stepped (clampGain ch (ch.gain + params.upDb))
              round.applied (leveling.poll params round)) ∨
            (¬Attacks params st ∧ ¬Decays params round ch st ∧
              leveling.Kept (leveling.poll params round)))) := by
  unfold poll
  cases hreached : leveling.reached params round with
  | none => exact .inl ⟨rfl, rfl⟩
  | some found =>
      obtain ⟨st, level, ch⟩ := found
      have hch := rxCh_of_reached hreached
      refine .inr ⟨st, level, ch, rfl, ?_⟩
      simp only
      split
      · next hlevel =>
          split
          · next hagc =>
              obtain ⟨⟨hdgbId, hchId⟩, hcases⟩ := levelStep_cases params round
                (show { leveling with st := st }.rxCh st.dgbId st.chId = some ch from hch)
              rw [hdgbId, hchId]
              exact ⟨hch, .inr ⟨⟨hlevel, hagc⟩, hcases⟩⟩
          · next hagc => exact ⟨hch, .inl ⟨fun h => hagc h.2, rfl, rfl⟩⟩
      · next hlevel => exact ⟨hch, .inl ⟨fun h => hlevel h.1, rfl, rfl⟩⟩

/-- A poll that keeps the gains. -/
theorem Kept.gainOf (h : leveling.Kept following) (dgbId chId : Nat) :
    following.gainOf dgbId chId = leveling.gainOf dgbId chId := by
  unfold Leveling.gainOf rxCh dgbGet
  rw [h.1]

/-- A poll that keeps the gains keeps the epoch. -/
theorem Kept.exact (h : leveling.Kept following) (round : Round) :
    EpochExact leveling (.poll round) following := by
  refine ⟨?_, fun dgbId chId _ => h.gainOf dgbId chId⟩
  exact iff_of_false (fun hepoch => hepoch h.2) fun hmoved => hmoved (h.gainOf _ _)

/-- A step is exact when the board takes it and the gain is another one, or the board refuses it and
the gain is the same. -/
theorem Stepped.exact_iff {gain : Int} {applied : Bool}
    (h : leveling.Stepped gain applied following)
    (hch : leveling.rxCh following.st.dgbId following.st.chId = some ch) (round : Round) :
    EpochExact leveling (.poll round) following ↔ (applied = true ↔ gain ≠ ch.gain) := by
  obtain ⟨hdgb, hepoch⟩ := h
  have hread := rxCh_writeGain hch gain hdgb
  have hothers : ∀ dgbId chId, (dgbId, chId) ≠ (following.st.dgbId, following.st.chId) →
      following.gainOf dgbId chId = leveling.gainOf dgbId chId := by
    intro dgbId chId hne
    rw [Leveling.gainOf, Leveling.gainOf, hread, if_neg hne]
  have hmoved : leveling.Moved following ↔ gain ≠ ch.gain := by
    rw [Moved, Leveling.gainOf, Leveling.gainOf, hread, if_pos rfl, hch]
    simp
  have hbumped : following.gainEpoch ≠ leveling.gainEpoch ↔ applied = true := by
    rw [hepoch]
    cases applied <;> simp
  unfold EpochExact
  rw [hmoved, hbumped]
  exact and_iff_left hothers

/-- A poll is exact when its step is. -/
theorem poll_exact_iff (params : Params) (leveling : Leveling) (round : Round) :
    EpochExact leveling (.poll round) (leveling.poll params round) ↔
      StepsReal params leveling (.poll round) := by
  obtain ⟨hnone, hsame⟩ | ⟨st, level, ch, hreached, hch, hcases⟩ := poll_cases params leveling round
  · rw [hsame]
    refine iff_of_true (Kept.exact ⟨rfl, rfl⟩ round) fun found hfound => ?_
    rw [hnone] at hfound
    cases hfound
  · have hreal : StepsReal params leveling (.poll round) ↔
        (level = true → ch.agcDefault = true ∧ ch.enable = .rfOn →
          (Attacks params st → (round.applied = true ↔ ch.gain ≠ min ch.gainMin ch.gainMax)) ∧
          (Decays params round ch st →
            (round.applied = true ↔ clampGain ch (ch.gain + params.upDb) ≠ ch.gain))) := by
      constructor
      · exact fun h => h (st, level, ch) hreached
      · intro h found hfound
        obtain rfl := Option.some.inj (hreached.symm.trans hfound)
        exact h
    rw [hreal]
    obtain ⟨hidle, hkept⟩ | ⟨⟨hlevel, hagc⟩, hstep⟩ := hcases
    · exact iff_of_true (hkept.exact round) fun hlevel hagc => absurd ⟨hlevel, hagc⟩ hidle
    -- a step down and a step up exclude each other
    · have hapart : Attacks params st → ¬Decays params round ch st :=
        fun hattack hdecay => absurd hdecay.1 (not_lt.mpr hattack)
      obtain ⟨hattack, hstepped⟩ | ⟨hdecay, hstepped⟩ | ⟨hattack, hdecay, hkept⟩ := hstep
      · rw [hstepped.exact_iff hch, Ne, clampGain_sub_eq_iff ch (attackDown_pos params st.peak)]
        constructor
        · exact fun h _ _ => ⟨fun _ => h, fun hdecay => absurd hdecay (hapart hattack)⟩
        · exact fun h => (h hlevel hagc).1 hattack
      · rw [hstepped.exact_iff hch]
        constructor
        · exact fun h _ _ => ⟨fun hattack => absurd hdecay (hapart hattack), fun _ => h⟩
        · exact fun h => (h hlevel hagc).2 hdecay
      · exact iff_of_true (hkept.exact round) fun _ _ =>
          ⟨fun h => absurd h hattack, fun h => absurd h hdecay⟩

/-! ## Runs -/

/-- A gain step does not touch what the estimator saw. -/
theorem gainStep_lastGainEpoch (params : Params) (leveling : Leveling) (round : Round)
    (gainDb : Int) (count : AgcState → AgcState) :
    (leveling.gainStep params round gainDb count).lastGainEpoch = leveling.lastGainEpoch := by
  unfold gainStep rxSetGain
  cases leveling.rxCh leveling.st.dgbId leveling.st.chId with
  | none => rfl
  | some ch => cases happlied : round.applied <;> simp

/-- Nor does a poll. -/
theorem poll_lastGainEpoch (params : Params) (leveling : Leveling) (round : Round) :
    (leveling.poll params round).lastGainEpoch = leveling.lastGainEpoch := by
  unfold poll levelStep forgetBelow
  split
  · rfl
  · simp only
    split_ifs <;> first | rfl | exact gainStep_lastGainEpoch params _ round _ _

/-- With no gain changed since the estimator looked, the epoch is the one it saw. -/
def Seen (leveling : Leveling) : Prop :=
  leveling.moved = false → leveling.gainEpoch = leveling.lastGainEpoch

/-- A step is exact when it steps the gain for real. -/
theorem Seen.exact_iff (h : leveling.Seen) (hnext : leveling.next params event = some following) :
    EpochExact leveling event following ↔ StepsReal params leveling event := by
  cases event with
  | poll round =>
      obtain rfl := Option.some.inj hnext
      exact poll_exact_iff params leveling round
  | channels dgb => exact Iff.rfl
  | estimate =>
      refine iff_of_true (fun hepoch => ?_) trivial
      by_contra hmoved
      exact hepoch (h (by simpa using hmoved))

/-- An exact step leaves nothing unseen. -/
theorem Seen.next (h : leveling.Seen) (hexact : EpochExact leveling event following)
    (hnext : leveling.next params event = some following) : following.Seen := by
  cases event with
  | poll round =>
      obtain rfl := Option.some.inj hnext
      intro hstill
      obtain ⟨hbefore, hkept⟩ := Bool.or_eq_false_iff.mp hstill
      have hsame := mt hexact.1.mp (of_decide_eq_false hkept)
      exact (not_not.mp hsame).trans
        ((h hbefore).trans (poll_lastGainEpoch params leveling round).symm)
  | channels dgb =>
      obtain rfl := Option.some.inj hnext
      exact h
  | estimate =>
      obtain rfl := Option.some.inj hnext
      exact fun _ => rfl

/-- In every run of rounds of the loop, changes of the channels and looks of the estimator, with any
slots, parameters and ranges, every poll advances the epoch exactly when it changes the live gain of
its channel, and the estimator sees another epoch only after a poll changed a gain, exactly when
every poll that steps the gain steps it for real. -/
theorem epochExact_iff_stepsReal (params : Params) (lastSlot : BitVec 32)
    (dgb : Nat → Option (List (Option RxCh))) (events : List Event) :
    EveryStep (next params) EpochExact (init lastSlot dgb) events ↔
      Guarded (next params) (StepsReal params) (init lastSlot dgb) events :=
  everyStep_iff_guarded (fun _ _ _ h hnext => Seen.exact_iff h hnext)
    (fun _ _ _ h hexact hnext => Seen.next h hexact hnext) fun _ => rfl

/-- The default parameters, with a jiffy of a millisecond. -/
def defaults : Params where
  slotsPerWake := 16#32
  settleMs := 50#32
  streamSettleMs := 300#32
  attCounts := 1450
  decCounts := 260
  holdMs := 500#32
  upDb := 2
  msecsToJiffies := BitVec.setWidth 64

/-- A round on slots of 64 samples at the rail. -/
def railRound (jiffies : BitVec 64) (rxBufId : BitVec 32) (applied : Bool) : Round where
  agcMaster := true
  jiffies := jiffies
  rxBufId := rxBufId
  localRxFmt := .packed12
  native := true
  ring := fun _ => ⟨[⟨0#32, 64, 0#32, 1⟩], fun addr => if addr % 3 = 1 then 0x07#8 else 0xff#8⟩
  applied := applied

/-- One board with one channel on ADC 0, of the range of a Lime board. -/
def oneChannel (gain : Int) (dgbId : Nat) : Option (List (Option RxCh)) :=
  if dgbId = 0 then some [some ⟨gain, -24, 30, 900000000, true, .rfOn, 0⟩] else none

/-- At the bottom of the range the attack writes the gain that is there, and bumps the epoch. An
attack that the board refuses has written another gain, and bumps nothing. -/
theorem attack_at_bottom :
    ¬ EveryStep (next defaults) EpochExact (init 0 (oneChannel (-24)))
        [.poll (railRound 1000 10 true), .poll (railRound 2000 11 true)] ∧
      ¬ EveryStep (next defaults) EpochExact (init 0 (oneChannel 10))
        [.poll (railRound 1000 10 false), .poll (railRound 2000 11 false)] := by
  constructor
  · intro h
    obtain ⟨-, hrest⟩ := h _ rfl
    obtain ⟨⟨hexact, -⟩, -⟩ := hrest _ rfl
    exact absurd (hexact.mp (by decide +kernel)) (by decide +kernel)
  · intro h
    obtain ⟨-, hrest⟩ := h _ rfl
    obtain ⟨⟨hexact, -⟩, -⟩ := hrest _ rfl
    exact absurd (hexact.mpr (by decide +kernel)) (by decide +kernel)

end Leveling

end RfnmDriver.Rx.AgcGain
