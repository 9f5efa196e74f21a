import RfnmDriver.Daughterboard.CapabilityFrame
import RfnmDriver.Daughterboard.ConfirmedApply
import RfnmDriver.LaLib.DcsPlan

/-!
# Which converters the stream word enables

`rfnm_dgb_tx_set` and `rfnm_dgb_rx_set` keep one flag for each converter, and `rfnm_la9310_stream`
packs the flags into the stream word. A channel that is handed to its board driver writes the flag
of its converter from its own state, whatever the other channels on the converter want, and a
channel whose state changes without its board driver writes none. `reflects_iff` says when the flags
are those of the demand after an update of the channels, and `enablesDemand_iff` says it of the
stream word in whole runs.
-/

namespace RfnmDriver.Daughterboard

open StepSystem

variable {Ch Edit Other : Type}

/-! ## Demand -/

/-- What the stream flag is to be for a channel in this state; `none` leaves it alone. -/
def Side.wants (side : Side Ch Edit) (ch : Ch) : Option Bool :=
  let codes := side.dir.codes
  if side.stream ch = codes.streamAuto then some (side.enable ch ≠ codes.rfOff)
  else if side.stream ch = codes.streamOn then some true
  else if side.stream ch = codes.streamOff then some false
  else none

/-- The channel demands streaming. -/
def Side.Demands (side : Side Ch Edit) (ch : Ch) : Prop :=
  side.wants ch = some true

/-- Some channel of the table on this converter demands streaming. -/
def Side.Demanded (side : Side Ch Edit) (count : Nat) (channels : Nat → Ch) (converter : Nat) :
    Prop :=
  ∃ d < count, side.flag (side.identity (channels d)) = converter ∧ side.Demands (channels d)

/-- The flags are on for exactly the converters that are in demand. -/
def Reflects (side : Side Ch Edit) (count : Nat) (live : Live Ch) : Prop :=
  ∀ converter < side.flagCount,
    live.flags converter ≠ 0 ↔ side.Demanded count live.data.channels converter

instance (side : Side Ch Edit) (ch : Ch) : Decidable (side.Demands ch) :=
  inferInstanceAs (Decidable (_ = _))

instance (side : Side Ch Edit) (count : Nat) (channels : Nat → Ch) (converter : Nat) :
    Decidable (side.Demanded count channels converter) :=
  inferInstanceAs (Decidable (∃ d < count, _))

instance (side : Side Ch Edit) (count : Nat) (live : Live Ch) :
    Decidable (Reflects side count live) :=
  inferInstanceAs (Decidable (∀ converter < side.flagCount, _))

/-- The device layer puts what the channel wants into the flag of its converter, if the board driver
succeeds. -/
theorem setFlag_eq (side : Side Ch Edit) (flags : Nat → Nat) (ch : Ch) (ret : Int) :
    setFlag side flags ch ret =
      if ret ≠ 0 then flags
      else match side.wants ch with
        | some flag => Function.update flags (side.flag (side.identity ch)) flag.toNat
        | none => flags := by
  unfold setFlag Side.wants
  by_cases hret : ret = 0
  · simp only [hret, ne_eq, not_true_eq_false, if_false]
    split
    · split <;> simp_all
    · split
      · rfl
      · split <;> rfl
  · simp [hret]

/-! ## Updates -/

/-- An update of the channels of one direction: the table it leaves, and for each channel that is
handed to its board driver what that one returns. -/
structure Update (Ch : Type) where
  channels : Nat → Ch
  handed : Nat → Option Int

/-- The flags after the first channels of an update. -/
def Update.flags (update : Update Ch) (side : Side Ch Edit) (before : Nat → Nat) :
    Nat → Nat → Nat
  | 0 => before
  | d + 1 =>
      match update.handed d with
      | some ret => setFlag side (update.flags side before d) (update.channels d) ret
      | none => update.flags side before d

/-- The update writes the flag of this converter for the channel: its board driver took it. -/
def Update.Sets (update : Update Ch) (side : Side Ch Edit) (d converter : Nat) : Prop :=
  update.handed d = some 0 ∧ side.flag (side.identity (update.channels d)) = converter ∧
    (side.wants (update.channels d)).isSome

/-- It is the last channel of the walk for which the update does. -/
def Update.SetsLast (update : Update Ch) (side : Side Ch Edit) (count d converter : Nat) : Prop :=
  update.Sets side d converter ∧ ∀ later < count, d < later → ¬ update.Sets side later converter

/-- The last channel of a converter that is taken by its board driver turns the converter off only
when no channel demands it; and where none is, the update does not change whether it is in
demand. -/
def Update.Agrees (update : Update Ch) (side : Side Ch Edit) (count : Nat)
    (before : Nat → Ch) : Prop :=
  ∀ converter < side.flagCount,
    (∀ d < count, update.SetsLast side count d converter → ¬ side.Demands (update.channels d) →
      ¬ side.Demanded count update.channels converter) ∧
    ((∀ d < count, ¬ update.Sets side d converter) →
      (side.Demanded count before converter ↔ side.Demanded count update.channels converter))

instance (update : Update Ch) (side : Side Ch Edit) (d converter : Nat) :
    Decidable (update.Sets side d converter) :=
  inferInstanceAs (Decidable (_ ∧ _ ∧ _))

instance (update : Update Ch) (side : Side Ch Edit) (count d converter : Nat) :
    Decidable (update.SetsLast side count d converter) :=
  inferInstanceAs (Decidable (_ ∧ ∀ later < count, _ → _))

instance (update : Update Ch) (side : Side Ch Edit) (count : Nat) (before : Nat → Ch) :
    Decidable (update.Agrees side count before) :=
  inferInstanceAs (Decidable (∀ converter < side.flagCount,
    (∀ d < count, _ → _ → _) ∧ ((∀ d < count, _) → (_ ↔ _))))

variable {side : Side Ch Edit} {count : Nat} {live following : Live Ch} {update : Update Ch}

/-- A channel leaves the flag of a converter it does not set. -/
theorem flags_succ_of_not_sets {before : Nat → Nat} {n converter : Nat}
    (h : ¬ update.Sets side n converter) :
    update.flags side before (n + 1) converter = update.flags side before n converter := by
  cases hhanded : update.handed n with
  | none => simp only [Update.flags, hhanded]
  | some ret =>
      have hstep : update.flags side before (n + 1) =
          setFlag side (update.flags side before n) (update.channels n) ret := by
        simp only [Update.flags, hhanded]
      rw [hstep, setFlag_eq]
      split
      · rfl
      case isFalse hret =>
        have hzero : ret = 0 := by omega
        cases hwants : side.wants (update.channels n) with
        | none => rfl
        | some flag =>
            have hne : converter ≠ side.flag (side.identity (update.channels n)) := by
              intro heq
              exact h ⟨hzero ▸ hhanded, heq.symm, by rw [hwants]; rfl⟩
            exact Function.update_of_ne hne _ _

/-- A channel that sets the flag puts there what it wants. -/
theorem flags_succ_of_sets {before : Nat → Nat} {n converter : Nat}
    (h : update.Sets side n converter) :
    update.flags side before (n + 1) converter ≠ 0 ↔ side.Demands (update.channels n) := by
  obtain ⟨hhanded, rfl, hsome⟩ := h
  obtain ⟨flag, hwants⟩ := Option.isSome_iff_exists.mp hsome
  simp only [Update.flags, hhanded, setFlag_eq, hwants, Side.Demands]
  cases flag <;> simp

/-- After the first channels a flag is the old one, or that of the last channel that set it. -/
theorem flags_cases (update : Update Ch) (side : Side Ch Edit) (before : Nat → Nat)
    (n converter : Nat) :
    ((∀ d < n, ¬ update.Sets side d converter) ∧
      update.flags side before n converter = before converter) ∨
    ∃ d < n, update.SetsLast side n d converter ∧
      (update.flags side before n converter ≠ 0 ↔ side.Demands (update.channels d)) := by
  induction n with
  | zero => exact .inl ⟨by simp, rfl⟩
  | succ n ih =>
      by_cases hsets : update.Sets side n converter
      · exact .inr ⟨n, by omega, ⟨hsets, fun later hlater hlt => by omega⟩,
          flags_succ_of_sets hsets⟩
      · rw [flags_succ_of_not_sets hsets]
        rcases ih with ⟨hnone, hsame⟩ | ⟨d, hd, ⟨hset, hlast⟩, hflag⟩
        · refine .inl ⟨fun d hd => ?_, hsame⟩
          by_cases hn : d = n
          · exact hn ▸ hsets
          · exact hnone d (by omega)
        · refine .inr ⟨d, by omega, ⟨hset, fun later hlater hlt => ?_⟩, hflag⟩
          by_cases hn : later = n
          · exact hn ▸ hsets
          · exact hlast later (by omega) hlt

/-- From flags that are those of the demand, an update leaves such flags exactly when it agrees. -/
theorem reflects_iff (h : Reflects side count live)
    (hchannels : following.data.channels = update.channels)
    (hflags : following.flags = update.flags side live.flags count) :
    Reflects side count following ↔ update.Agrees side count live.data.channels := by
  refine forall₂_congr fun converter hconverter => ?_
  have hbefore := h converter hconverter
  rw [hflags, hchannels]
  rcases flags_cases update side live.flags count converter with
    ⟨hnone, hsame⟩ | ⟨d, hd, ⟨hset, hlast⟩, hflag⟩
  · rw [hsame, hbefore]
    refine ⟨fun hdemand => ⟨fun d hd hsets => absurd hsets.1 (hnone d hd), fun _ => hdemand⟩, ?_⟩
    exact fun ⟨_, hdemand⟩ => hdemand hnone
  · rw [hflag]
    constructor
    · intro hdemand
      refine ⟨fun other hother ⟨hsets, hlater⟩ hquiet => ?_,
        fun hnone => absurd hset (hnone d hd)⟩
      -- there is only one last channel
      have hsame : other = d := by
        rcases Nat.lt_trichotomy other d with hlt | heq | hgt
        · exact absurd hset (hlater d hd hlt)
        · exact heq
        · exact absurd hsets (hlast other hother hgt)
      rw [← hdemand, ← hsame]
      exact hquiet
    · intro ⟨hquiet, _⟩
      constructor
      · exact fun hdemands => ⟨d, hd, hset.2.1, hdemands⟩
      · intro hdemanded
        by_contra hnot
        exact hquiet d hd ⟨hset, hlast⟩ hnot hdemanded

/-! ## The updates of the code -/

/-- What a channel list does to the channels, unless the work gives up. -/
def listUpdate (side : Side Ch Edit) (count : Nat) (data : Data Ch) (list : ChList Ch) :
    Outcome → Update Ch
  | .gaveUp _ => ⟨data.channels, fun _ => none⟩
  | .walked devices _ =>
      let start := { data with list := list }
      { channels := fun d => if d < count then visited side.dir start d else data.channels d
        handed := fun d => if Applied side.dir start d then some (devices d) else none }

/-- One channel is handed to its board driver. -/
def setUpdate (channels : Nat → Ch) (d : Nat) (ret : Int) : Update Ch where
  channels := channels
  handed other := if other = d then some ret else none

/-- Nothing is handed to a board driver. -/
def storeUpdate (channels : Nat → Ch) : Update Ch where
  channels := channels
  handed _ := none

/-- What the park work does to the first channels. -/
def parkUpdate (side : Side (TxEntry Other) Edit) (count : Nat) (channels : Nat → TxEntry Other)
    (devices : Nat → Int) : Update (TxEntry Other) where
  channels d := if d < count then { channels d with enable := side.dir.codes.rfOff } else channels d
  handed d := if (channels d).enable = side.dir.codes.rfOff then none else some (devices d)

/-- The update is what happens to the live channels. -/
def Update.Realised (update : Update Ch) (side : Side Ch Edit) (count : Nat)
    (live following : Live Ch) : Prop :=
  following.data.channels = update.channels ∧
    following.flags = update.flags side live.flags count

/-- A visit finds its channel and its entry as the walk started with them. -/
theorem applied_visitAll (dir : Direction Ch) (start : Data Ch) (devices : Nat → Int) (n : Nat) :
    Applied dir (visitAll dir start devices n).1 n ↔ Applied dir start n := by
  obtain ⟨hchannels, hlist, happly⟩ := visitAll_data dir start devices n
  have hlive := hchannels n
  rw [if_neg (Nat.lt_irrefl n)] at hlive
  rw [Applied, Applied, Requested, Requested, hlive, happly, hlist n le_rfl]

/-- An update that hands nothing over writes no flag. -/
theorem flags_storeUpdate (channels : Nat → Ch) (before : Nat → Nat) (n : Nat) :
    (storeUpdate channels).flags side before n = before := by
  induction n with
  | zero => rfl
  | succ n ih => exact ih

/-- An update that hands one channel over writes the flag of that one. -/
theorem flags_setUpdate (channels : Nat → Ch) (d : Nat) (ret : Int) (before : Nat → Nat) (n : Nat) :
    (setUpdate channels d ret).flags side before n =
      if d < n then setFlag side before (channels d) ret else before := by
  induction n with
  | zero => rfl
  | succ n ih =>
      by_cases hd : n = d
      · subst hd
        rw [if_pos (Nat.lt_succ_self n)]
        rw [if_neg (Nat.lt_irrefl n)] at ih
        simp only [Update.flags, setUpdate, if_true] at ih ⊢
        rw [ih]
      · have hlt : d < n + 1 ↔ d < n := by omega
        simp only [hlt, ← ih]
        simp only [Update.flags, setUpdate, if_neg hd]

/-- The walk of a list hands over the channels that it asks for and that pass the checks. -/
theorem listUpdate_realised (side : Side Ch Edit) (count : Nat) (live : Live Ch)
    (list : ChList Ch) (outcome : Outcome) :
    (listUpdate side count live.data list outcome).Realised side count live
      (applyList side count live list outcome) := by
  cases outcome with
  | gaveUp ret => exact ⟨rfl, (flags_storeUpdate live.data.channels live.flags count).symm⟩
  | walked devices ret =>
      let start := { live.data with list := list }
      refine ⟨funext (application_channels side.dir start count devices ret), ?_⟩
      -- the flags follow the walk device by device
      have hwalk : ∀ n ≤ count,
          visitFlags side (clearEcodes (clearRej start)) devices live.flags n =
            (listUpdate side count live.data list (.walked devices ret)).flags side live.flags
              n := by
        intro n hn
        induction n with
        | zero => rfl
        | succ n ih =>
            have happlied : Applied side.dir
                (visitAll side.dir (clearEcodes (clearRej start)) devices n).1 n ↔
                  Applied side.dir start n := applied_visitAll side.dir _ devices n
            have hchannel : (visitAll side.dir (clearEcodes (clearRej start)) devices
                (n + 1)).1.channels n = visited side.dir start n := by
              have hafter := (visitAll_data side.dir (clearEcodes (clearRej start)) devices
                (n + 1)).1 n
              rw [if_pos (Nat.lt_succ_self n)] at hafter
              exact hafter
            have hfirst := ih (by omega)
            by_cases h : Applied side.dir start n
            · simp only [visitFlags, happlied, h, if_true, hchannel, hfirst]
              simp only [Update.flags, listUpdate, start] at h ⊢
              simp only [h, if_true, if_pos (show n < count by omega)]
            · simp only [visitFlags, happlied, h, if_false, hfirst]
              simp only [Update.flags, listUpdate, start] at h ⊢
              simp only [h, if_false]
      exact hwalk count le_rfl

/-! ## Both directions -/

/-- The codes of the kernel tree, and how many channels the boards have registered. -/
structure Setup where
  codes : Codes
  notSupported_ne : codes.apiNotSupported ≠ 0
  streamOff_ne : codes.streamOff ≠ codes.streamOn
  txCount : Nat
  rxCount : Nat

/-- The TX side of the boards. -/
abbrev Setup.tx (setup : Setup) (Other : Type) : Side (TxEntry Other) (TxEdit Other) :=
  txSide Other setup.codes setup.notSupported_ne

/-- The RX side of the boards. -/
abbrev Setup.rx (setup : Setup) (Other : Type) : Side (RxEntry Other) (RxEdit Other) :=
  rxSide Other setup.codes setup.notSupported_ne

/-- The live channels of both directions. -/
structure LiveTable (Other : Type) where
  tx : Live (TxEntry Other)
  rx : Live (RxEntry Other)

/-- One writer of the table at a time. -/
inductive LiveTableEvent (Other : Type)
  /-- `rfnm_apply_dev_tx_chlist_work`. -/
  | txApply (list : ChList (TxEntry Other)) (outcome : Outcome)
  /-- `rfnm_apply_dev_rx_chlist_work`. -/
  | rxApply (list : ChList (RxEntry Other)) (outcome : Outcome)
  /-- `rfnm_dgb_tx_idle_park_work`, with what the board drivers return. -/
  | park (devices : Nat → Int)
  /-- `rfnm_dgb_rx_set_gain`. -/
  | gain (d : Nat) (gainDb ret : Int)
  /-- `rfnm_dgb_rx_set_dc`. -/
  | dc (d : Nat) (dcI dcQ ret : Int)
  /-- A store through an attribute file of a TX channel. -/
  | txStore (d : Nat) (stored : Attribute Other)
  | rxStore (d : Nat) (stored : Attribute Other)
  /-- The attribute file `apply` of a TX channel. -/
  | txSet (d : Nat) (ret : Int)
  | rxSet (d : Nat) (ret : Int)
  /-- `rfnm_dgb_reset_sm`. -/
  | reset

/-- A write of live channels. -/
def Live.write (side : Side Ch Edit) (live : Live Ch) (edit : Edit) : Live Ch :=
  { live with data := { live.data with channels := side.write live.data.channels edit } }

/-- `rfnm_dgb_tx_set`, `rfnm_dgb_rx_set` on a live channel. -/
def Live.set (side : Side Ch Edit) (live : Live Ch) (d : Nat) (ret : Int) : Live Ch :=
  { live with flags := setFlag side live.flags (live.data.channels d) ret }

/-- `rfnm_dgb_reset_sm`: the flags are cleared with the channels. -/
def Live.resetSm (side : Side Ch Edit) (live : Live Ch) : Live Ch where
  data := dgbResetSm side.dir live.data
  flags converter := if converter < side.flagCount then 0 else live.flags converter

/-- `rfnm_dgb_tx_idle_park_work` up to a channel: those that are on are turned off and handed to
their board drivers. -/
def parkWork (side : Side (TxEntry Other) Edit) (live : Live (TxEntry Other))
    (devices : Nat → Int) : Nat → Live (TxEntry Other)
  | 0 => live
  | d + 1 =>
      let before := parkWork side live devices d
      let ch := before.data.channels d
      if ch.enable = side.dir.codes.rfOff then before
      else
        let off := { ch with enable := side.dir.codes.rfOff }
        Live.set side
          { before with data :=
            { before.data with channels := Function.update before.data.channels d off } }
          d (devices d)

/-- One step. -/
def LiveTable.next (setup : Setup) (table : LiveTable Other) :
    LiveTableEvent Other → Option (LiveTable Other)
  | .txApply list outcome =>
      some { table with tx := applyList (setup.tx Other) setup.txCount table.tx list outcome }
  | .rxApply list outcome =>
      some { table with rx := applyList (setup.rx Other) setup.rxCount table.rx list outcome }
  | .park devices =>
      some { table with tx := parkWork (setup.tx Other) table.tx devices setup.txCount }
  | .gain d gainDb ret =>
      if d < setup.rxCount then
        some { table with rx :=
          (table.rx.write (setup.rx Other) (.gain d gainDb)).set (setup.rx Other) d ret }
      else none
  | .dc d dcI dcQ ret =>
      if d < setup.rxCount ∧ -126 ≤ dcI ∧ dcI ≤ 126 ∧ -126 ≤ dcQ ∧ dcQ ≤ 126 then
        some { table with rx :=
          (table.rx.write (setup.rx Other) (.dc d dcI dcQ)).set (setup.rx Other) d ret }
      else none
  | .txStore d stored =>
      some { table with tx := table.tx.write (setup.tx Other) (.store d stored) }
  | .rxStore d stored =>
      some { table with rx := table.rx.write (setup.rx Other) (.store d stored) }
  | .txSet d ret =>
      if d < setup.txCount then
        some { table with tx := table.tx.set (setup.tx Other) d ret }
      else none
  | .rxSet d ret =>
      if d < setup.rxCount then
        some { table with rx := table.rx.set (setup.rx Other) d ret }
      else none
  | .reset => some ⟨table.tx.resetSm (setup.tx Other), table.rx.resetSm (setup.rx Other)⟩

/-- `rfnm_tx_dac_s`. -/
def LiveTable.dacOn (table : LiveTable Other) : Bool :=
  table.tx.flags 0 ≠ 0

/-- `rfnm_rx_adc_s`. -/
def LiveTable.adcOn (table : LiveTable Other) (lane : Fin 4) : Bool :=
  table.rx.flags lane ≠ 0

/-- The word that `rfnm_la9310_stream` builds from the flags for a plan. -/
def LiveTable.streamWord (table : LiveTable Other) (plan : LaLib.DcsPlan) : LaLib.Word :=
  LaLib.planWord table.dacOn table.adcOn plan

/-- Whatever the plan, the stream word enables the DAC and the ADCs that the channels demand, and no
others. -/
def LiveTable.EnablesDemand (setup : Setup) (table : LiveTable Other) : Prop :=
  ∀ plan,
    ((table.streamWord plan).getLsbD 0 = true ↔
      (setup.tx Other).Demanded setup.txCount table.tx.data.channels 0) ∧
    ∀ lane : Fin 4, (table.streamWord plan).getLsbD (lane + 1) = true ↔
      (setup.rx Other).Demanded setup.rxCount table.rx.data.channels lane

/-- What an event does to the TX channels, unless it resets them. -/
def LiveTable.txUpdate (setup : Setup) (table : LiveTable Other) :
    LiveTableEvent Other → Option (Update (TxEntry Other))
  | .txApply list outcome =>
      some (listUpdate (setup.tx Other) setup.txCount table.tx.data list outcome)
  | .park devices =>
      some (parkUpdate (setup.tx Other) setup.txCount table.tx.data.channels devices)
  | .txStore d stored =>
      some (storeUpdate (TxEdit.write setup.codes table.tx.data.channels (.store d stored)))
  | .txSet d ret => some (setUpdate table.tx.data.channels d ret)
  | _ => none

/-- What an event does to the RX channels, unless it resets them. -/
def LiveTable.rxUpdate (setup : Setup) (table : LiveTable Other) :
    LiveTableEvent Other → Option (Update (RxEntry Other))
  | .rxApply list outcome =>
      some (listUpdate (setup.rx Other) setup.rxCount table.rx.data list outcome)
  | .gain d gainDb ret =>
      some (setUpdate (RxEdit.write setup.codes table.rx.data.channels (.gain d gainDb)) d ret)
  | .dc d dcI dcQ ret =>
      some (setUpdate (RxEdit.write setup.codes table.rx.data.channels (.dc d dcI dcQ)) d ret)
  | .rxStore d stored =>
      some (storeUpdate (RxEdit.write setup.codes table.rx.data.channels (.store d stored)))
  | .rxSet d ret => some (setUpdate table.rx.data.channels d ret)
  | _ => none

/-- What the event does to the channels leaves the flags with the demand. -/
def LiveTable.Agrees (setup : Setup) (table : LiveTable Other) (event : LiveTableEvent Other) :
    Prop :=
  (∀ update ∈ table.txUpdate setup event,
    update.Agrees (setup.tx Other) setup.txCount table.tx.data.channels) ∧
  ∀ update ∈ table.rxUpdate setup event,
    update.Agrees (setup.rx Other) setup.rxCount table.rx.data.channels

instance (setup : Setup) (table : LiveTable Other) (event : LiveTableEvent Other) :
    Decidable (table.Agrees setup event) :=
  inferInstanceAs (Decidable (_ ∧ _))

/-! ## The stream word -/

variable {setup : Setup} {table reached : LiveTable Other} {event : LiveTableEvent Other}

/-- The lowest bits of the stream word are the flags. -/
theorem planWord_enables (tx : Bool) (rx : Fin 4 → Bool) (plan : LaLib.DcsPlan) :
    (LaLib.planWord tx rx plan).getLsbD 0 = tx ∧
      ∀ lane : Fin 4, (LaLib.planWord tx rx plan).getLsbD (lane + 1) = rx lane := by
  refine ⟨by simp [LaLib.planWord_eq, LaLib.flagWord], fun ⟨lane, hlane⟩ => ?_⟩
  interval_cases lane <;> simp [LaLib.planWord_eq, LaLib.flagWord]

/-- The word enables the demand exactly when the flags of both sides are those of the demand. -/
theorem enablesDemand_iff_reflects : table.EnablesDemand setup ↔
    Reflects (setup.tx Other) setup.txCount table.tx ∧
      Reflects (setup.rx Other) setup.rxCount table.rx := by
  unfold LiveTable.EnablesDemand LiveTable.streamWord
  simp only [planWord_enables, LiveTable.dacOn, LiveTable.adcOn, decide_eq_true_eq]
  constructor
  · intro h
    obtain ⟨htx, hrx⟩ := h ⟨0, 0, 0, 0, 0, 0⟩
    refine ⟨fun converter hconverter => ?_, fun converter hconverter => hrx ⟨converter, hconverter⟩⟩
    obtain rfl : converter = 0 := Nat.lt_one_iff.mp hconverter
    exact htx
  · intro ⟨htx, hrx⟩ _
    exact ⟨htx 0 Nat.zero_lt_one, fun lane => hrx lane lane.isLt⟩

/-! ## Steps -/

/-- The park work turns off the channels that are on, and hands over those. -/
theorem parkUpdate_realised (side : Side (TxEntry Other) Edit) (count : Nat)
    (live : Live (TxEntry Other)) (devices : Nat → Int) :
    (parkUpdate side count live.data.channels devices).Realised side count live
      (parkWork side live devices count) := by
  have hwork : ∀ n ≤ count,
      (parkWork side live devices n).data.channels =
          (parkUpdate side n live.data.channels devices).channels ∧
        (parkWork side live devices n).flags =
          (parkUpdate side count live.data.channels devices).flags side live.flags n := by
    intro n hn
    -- on the devices the work has passed: it has not reached the device at hand
    induction n with
    | zero => exact ⟨funext fun d => by simp [parkWork, parkUpdate], rfl⟩
    | succ n ih =>
        obtain ⟨hchannels, hflags⟩ := ih (by omega)
        have hch : (parkWork side live devices n).data.channels n = live.data.channels n := by
          rw [hchannels]
          exact if_neg (Nat.lt_irrefl n)
        by_cases hoff : (live.data.channels n).enable = side.dir.codes.rfOff
        · have hsame : { live.data.channels n with enable := side.dir.codes.rfOff } =
              live.data.channels n := by rw [← hoff]
          have hstep : parkWork side live devices (n + 1) = parkWork side live devices n := by
            simp only [parkWork, hch, hoff, if_true]
          rw [hstep]
          refine ⟨hchannels.trans (funext fun d => ?_), ?_⟩
          · simp only [parkUpdate]
            by_cases hd : d = n
            · subst hd
              rw [if_neg (Nat.lt_irrefl d), if_pos (Nat.lt_succ_self d), hsame]
            · have hlt : d < n + 1 ↔ d < n := by omega
              simp only [hlt]
          · rw [hflags]
            simp only [Update.flags, parkUpdate, hoff, if_true]
        · refine ⟨?_, ?_⟩
          · simp only [parkWork, hch, hoff, if_false, Live.set, hchannels]
            funext d
            simp only [parkUpdate]
            by_cases hd : d = n
            · subst hd
              rw [Function.update_self, if_pos (Nat.lt_succ_self d)]
            · have hlt : d < n + 1 ↔ d < n := by omega
              rw [Function.update_of_ne hd]
              simp only [hlt]
          · simp only [parkWork, hch, hoff, if_false, Live.set, Function.update_self, hflags]
            simp only [Update.flags, parkUpdate, hoff, if_false, if_pos (show n < count by omega)]
  exact hwork count le_rfl

/-- A write hands nothing over. -/
theorem storeUpdate_realised (side : Side Ch Edit) (count : Nat) (live : Live Ch) (edit : Edit) :
    (storeUpdate (side.write live.data.channels edit)).Realised side count live
      (live.write side edit) :=
  ⟨rfl, (flags_storeUpdate _ _ count).symm⟩

/-- One channel of a table that may have been written before. -/
theorem setUpdate_realised (side : Side Ch Edit) {count d : Nat} (hd : d < count)
    (before live : Live Ch) (ret : Int) (hflags : live.flags = before.flags) :
    (setUpdate live.data.channels d ret).Realised side count before (live.set side d ret) := by
  refine ⟨rfl, ?_⟩
  rw [flags_setUpdate, if_pos hd, ← hflags]
  rfl

/-- Each side is left as the event's update of it says, or alone. -/
theorem next_realised (hreset : event ≠ .reset) (hstep : table.next setup event = some reached) :
    (∀ update ∈ table.txUpdate setup event,
      update.Realised (setup.tx Other) setup.txCount table.tx reached.tx) ∧
    (table.txUpdate setup event = none → reached.tx = table.tx) ∧
    (∀ update ∈ table.rxUpdate setup event,
      update.Realised (setup.rx Other) setup.rxCount table.rx reached.rx) ∧
    (table.rxUpdate setup event = none → reached.rx = table.rx) := by
  -- an event updates one direction and leaves the other alone
  cases event with
  | txApply list outcome =>
      obtain rfl := Option.some.inj hstep
      refine ⟨?_, nofun, nofun, fun _ => rfl⟩
      rintro _ ⟨⟩
      exact listUpdate_realised _ _ table.tx list outcome
  | rxApply list outcome =>
      obtain rfl := Option.some.inj hstep
      refine ⟨nofun, fun _ => rfl, ?_, nofun⟩
      rintro _ ⟨⟩
      exact listUpdate_realised _ _ table.rx list outcome
  | park devices =>
      obtain rfl := Option.some.inj hstep
      refine ⟨?_, nofun, nofun, fun _ => rfl⟩
      rintro _ ⟨⟩
      exact parkUpdate_realised _ _ table.tx devices
  | gain d gainDb ret =>
      obtain ⟨hd, rfl⟩ := of_guard hstep
      refine ⟨nofun, fun _ => rfl, ?_, nofun⟩
      rintro _ ⟨⟩
      exact setUpdate_realised _ hd table.rx (table.rx.write (setup.rx Other) (.gain d gainDb)) ret
        rfl
  | dc d dcI dcQ ret =>
      obtain ⟨⟨hd, -⟩, rfl⟩ := of_guard hstep
      refine ⟨nofun, fun _ => rfl, ?_, nofun⟩
      rintro _ ⟨⟩
      exact setUpdate_realised _ hd table.rx (table.rx.write (setup.rx Other) (.dc d dcI dcQ)) ret
        rfl
  | txStore d stored =>
      obtain rfl := Option.some.inj hstep
      refine ⟨?_, nofun, nofun, fun _ => rfl⟩
      rintro _ ⟨⟩
      exact storeUpdate_realised (setup.tx Other) _ table.tx (.store d stored)
  | rxStore d stored =>
      obtain rfl := Option.some.inj hstep
      refine ⟨nofun, fun _ => rfl, ?_, nofun⟩
      rintro _ ⟨⟩
      exact storeUpdate_realised (setup.rx Other) _ table.rx (.store d stored)
  | txSet d ret =>
      obtain ⟨hd, rfl⟩ := of_guard hstep
      refine ⟨?_, nofun, nofun, fun _ => rfl⟩
      rintro _ ⟨⟩
      exact setUpdate_realised _ hd table.tx table.tx ret rfl
  | rxSet d ret =>
      obtain ⟨hd, rfl⟩ := of_guard hstep
      refine ⟨nofun, fun _ => rfl, ?_, nofun⟩
      rintro _ ⟨⟩
      exact setUpdate_realised _ hd table.rx table.rx ret rfl
  | reset => exact absurd rfl hreset

/-- After a reset nothing is in demand and every flag is off. -/
theorem resetSm_reflects (side : Side Ch Edit) (count : Nat) (live : Live Ch)
    (hcodes : side.dir.codes.streamOff ≠ side.dir.codes.streamOn)
    (hstream : ∀ ch, side.stream (side.dir.reset ch) = side.dir.codes.streamOff)
    (henable : ∀ ch, side.enable (side.dir.reset ch) = side.dir.codes.rfOff) :
    Reflects side count (live.resetSm side) := by
  intro converter hconverter
  have hflag : (live.resetSm side).flags converter = 0 := if_pos hconverter
  rw [hflag]
  refine iff_of_false (by omega) ?_
  rintro ⟨d, -, -, hdemands⟩
  have hwants : side.wants (side.dir.reset (live.data.channels d)) = some true := hdemands
  unfold Side.wants at hwants
  simp only [hstream, henable] at hwants
  split at hwants <;> simp at hwants

/-- A side that its update leaves with the demand, or that is left alone. -/
theorem reflects_iff_of_realised {side : Side Ch Edit} {count : Nat} {live following : Live Ch}
    {update : Option (Update Ch)} (h : Reflects side count live)
    (hsome : ∀ taken ∈ update, taken.Realised side count live following)
    (hnone : update = none → following = live) :
    Reflects side count following ↔
      ∀ taken ∈ update, taken.Agrees side count live.data.channels := by
  cases update with
  | none =>
      rw [hnone rfl]
      exact iff_of_true h nofun
  | some taken =>
      obtain ⟨hchannels, hflags⟩ := hsome taken rfl
      rw [reflects_iff h hchannels hflags]
      simp

/-- From a table whose stream word enables the demand, a step leads to such a table exactly when its
update agrees. -/
theorem next_enablesDemand_iff (h : table.EnablesDemand setup)
    (hstep : table.next setup event = some reached) :
    reached.EnablesDemand setup ↔ table.Agrees setup event := by
  obtain ⟨htx, hrx⟩ := enablesDemand_iff_reflects.mp h
  rw [enablesDemand_iff_reflects]
  by_cases hreset : event = .reset
  · subst hreset
    obtain rfl := Option.some.inj hstep
    refine iff_of_true ⟨?_, ?_⟩ ⟨nofun, nofun⟩
    · exact resetSm_reflects (setup.tx Other) _ table.tx setup.streamOff_ne (fun _ => rfl)
        fun _ => rfl
    · exact resetSm_reflects (setup.rx Other) _ table.rx setup.streamOff_ne (fun _ => rfl)
        fun _ => rfl
  · obtain ⟨htxSome, htxNone, hrxSome, hrxNone⟩ := next_realised hreset hstep
    rw [reflects_iff_of_realised htx htxSome htxNone, reflects_iff_of_realised hrx hrxSome hrxNone]
    exact Iff.rfl

/-! ## Runs -/

/-- From any table, over any sequence of applies and of the other writers, the next stream word
enables the demand in every state exactly when it does at the start and every update agrees. -/
theorem enablesDemand_iff (setup : Setup) (start : LiveTable Other)
    (events : List (LiveTableEvent Other)) :
    Always (LiveTable.next setup) (LiveTable.EnablesDemand setup) start events ↔
      start.EnablesDemand setup ∧
        Guarded (LiveTable.next setup) (LiveTable.Agrees setup) start events := by
  have hrun : start.EnablesDemand setup →
      (Always (LiveTable.next setup) (LiveTable.EnablesDemand setup) start events ↔
        Guarded (LiveTable.next setup) (LiveTable.Agrees setup) start events) :=
    always_iff_everyStep
      (fun _ _ _ h hagrees hstep => (next_enablesDemand_iff h hstep).mpr hagrees)
      (fun _ h => h) fun _ _ _ h hstep => (next_enablesDemand_iff h hstep).mp
  constructor
  · exact fun h => ⟨h.here, (hrun h.here).mp h⟩
  · exact fun ⟨hstart, hguarded⟩ => (hrun hstart).mpr hguarded

theorem sampleCodes_notSupported : sampleCodes.apiNotSupported ≠ 0 := by decide

theorem sampleCodes_streamOff : sampleCodes.streamOff ≠ sampleCodes.streamOn := by decide

/-- Two TX channels and two RX channels. -/
def sampleSetup : Setup := ⟨sampleCodes, sampleCodes_notSupported, sampleCodes_streamOff, 2, 2⟩

/-- A TX channel that streams when it is on. -/
def switchedTx (absId : Nat) (enable : Int) : TxEntry Unit where
  absId := absId
  freq := 900
  freqMin := 600
  freqMax := 6300
  rficLpfBw := 0
  power := 0
  powerMin := -60
  powerMax := 30
  enable := enable
  stream := 0
  biasTee := 0
  dgbId := absId
  dgbChId := 0
  dacId := 0
  other := ()

/-- A list for the channels of this mask, with what it asks of the second one. -/
def txList (mask : BitVec 8) (enable : Int) : ChList (TxEntry Unit) where
  cc := 1
  apply := mask
  ch d := if d = 0 then switchedTx 0 1 else switchedTx 1 enable

/-- Two boards with a TX channel each, none of them on. -/
def sampleTable : LiveTable Unit where
  tx := ⟨⟨txList 0 0, fun d => switchedTx d 0, fun _ => 0, fun _ => .none, 0⟩, fun _ => 0⟩
  rx := ⟨⟨⟨0, 0, fun _ => boardRx 0⟩, fun _ => boardRx 0, fun _ => 0, fun _ => .none, 0⟩,
    fun _ => 0⟩

/-- Both TX channels are turned on, and then the one of the second board off. The channel of the
first board still demands the DAC, and the stream word turns it off. -/
theorem other_channel_stops_dac : ¬ ∀ (setup : Setup) (start : LiveTable Unit)
    (events : List (LiveTableEvent Unit)), start.EnablesDemand setup →
      Always (LiveTable.next setup) (LiveTable.EnablesDemand setup) start events := by
  intro h
  have hstart : sampleTable.EnablesDemand sampleSetup :=
    enablesDemand_iff_reflects.mpr ⟨by decide, by decide⟩
  have hrun := h sampleSetup sampleTable
    [.txApply (txList 0x3#8 1) (.walked (fun _ => 0) 0),
      .txApply (txList 0x2#8 0) (.walked (fun _ => 0) 0)] hstart
  have hend := ((hrun.2 _ rfl).2 _ rfl).here
  have htx := (enablesDemand_iff_reflects.mp hend).1
  revert htx
  decide

end RfnmDriver.Daughterboard
