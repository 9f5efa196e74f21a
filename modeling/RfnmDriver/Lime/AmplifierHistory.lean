import RfnmDriver.Library.StepSystem
import RfnmDriver.Lime.TddProfiles

/-!
# The LNA bits of the Lime boards

Each band filter of `rfnm_fe_lime0.c` powers the amplifier of its band and switches no other off.
From one RX apply to the next the bits only gather: `run_lna` says which are on after a sequence of
applies, `last_alone_iff` exactly when they are those of its last request, and
`second_amplifier_on_in_gps` is a receiver that comes to the GPS band from below.
-/

namespace RfnmDriver.Lime

open LatchBit RegisterFile StepSystem

/-- The amplifier that the filter of the band powers. Up to 60 MHz there is none. -/
def bandAmplifier (ch : RxCh) : Option LatchBit :=
  let freq := mhz ch.freq
  if freq ≤ 60 then none
  else if freq ≤ 1000 then some g2l
  else if 1166 ≤ freq ∧ freq ≤ 1229 then some g2pl2
  else if 1574 ≤ freq ∧ freq ≤ 1605 then some g2pl1
  else some g2l

/-- The amplifier that an apply powers. The chip-internal loopback writes no latch. -/
def amplifier (owner : Option TxCh) (ch : RxCh) : Option LatchBit :=
  if chipLoopback owner ch then none else bandAmplifier ch

/-- The one write of a filter to the LNA bits. -/
def amplifierWrite (ch : RxCh) : Srb :=
  match bandAmplifier ch with
  | none => (g1l, false)
  | some bit => (bit, true)

/-- The LNA bits of a request on a board whose amplifiers are all off. -/
def lnaAlone (owner : Option TxCh) (ch : RxCh) : List Bool :=
  lnaBits.map (store (fun _ => false) (rxWrites owner ch))

namespace Driver

variable (params : Params) (driver : Driver) (slot : Slot)

/-- An RX apply that succeeds. -/
def rxNext (apply : RxApply) : Option Driver :=
  if driver.rxAccepts apply.ch apply.tune then
    some (driver.rxSet params apply.slot apply.ch apply.tune).1
  else none

/-- The LNA bits of the board are those of the request alone, and in the two GPS bands the second
amplifier is off. -/
structure LastAlone (ch : RxCh) : Prop where
  bits : lnaBits.map (driver.board slot).fe = lnaAlone (driver.board slot).txS ch
  gps : bandAmplifier ch = some g2pl1 ∨ bandAmplifier ch = some g2pl2 →
    (driver.board slot).fe g2l = false

/-- The requests power the amplifier of the last request or none, and no other amplifier is on where
they begin. -/
structure OneAmplifier (earlier : List RxApply) (ch : RxCh) : Prop where
  start : ∀ bit ∈ lnaBits, (driver.board slot).fe bit = true →
    amplifier (driver.board slot).txS ch = some bit
  earlier : ∀ apply ∈ earlier, apply.slot = slot →
    ∀ bit ∈ amplifier (driver.board slot).txS apply.ch,
      amplifier (driver.board slot).txS ch = some bit

end Driver

/-! ## One apply -/

/-- The filter of the band writes one of the LNA bits. -/
theorem filterWrites_amplifier (ch : RxCh) :
    (filterWrites ch).filter (fun write => write.1 ∈ lnaBits) = [amplifierWrite ch] := by
  have hnotch : ∀ en, (lime0FmNotch en).filter (fun write => write.1 ∈ lnaBits) = [] := by decide
  have hauto : ((if ch.fmNotch = .auto then lime0FmNotch false else []).filter
      fun write => write.1 ∈ lnaBits) = [] :=
    iteInduction (motive := fun writes : List Srb =>
      writes.filter (fun write => write.1 ∈ lnaBits) = []) (fun _ => hnotch false) fun _ => rfl
  unfold filterWrites amplifierWrite bandAmplifier
  dsimp only
  rw [List.filter_append, hnotch, List.nil_append]
  -- the filters are chosen by more bounds than the amplifiers, whose bounds are 60 and 1000 MHz
  by_cases hlow : mhz ch.freq ≤ 60
  · rw [if_pos hlow, if_pos hlow]
    split <;> rfl
  · rw [if_neg (by omega : ¬ mhz ch.freq ≤ 30), if_neg hlow, if_neg hlow]
    by_cases hmid : mhz ch.freq ≤ 1000
    · rw [if_pos hmid, if_pos hmid]
      split
      · rw [List.filter_append, hauto]
        rfl
      · split
        · rw [List.filter_append]
          split
          · rw [hauto]
            rfl
          · rfl
        · split <;> rfl
    · rw [if_neg (by omega : ¬ mhz ch.freq ≤ 120), if_neg (by omega : ¬ mhz ch.freq ≤ 250),
        if_neg (by omega : ¬ mhz ch.freq ≤ 480), if_neg hmid, if_neg hmid]
      split
      · rfl
      · split
        · rfl
        · split
          · rfl
          · split <;> rfl

theorem lnaBits_latch : ∀ bit ∈ lnaBits, bit.latch = 2 := by decide

/-- No filter powers the first amplifier. -/
theorem bandAmplifier_ne_g1l (ch : RxCh) : bandAmplifier ch ≠ some g1l := by
  unfold bandAmplifier
  dsimp only
  split_ifs <;> decide

theorem amplifier_lna {owner : Option TxCh} {ch : RxCh} {bit : LatchBit}
    (h : amplifier owner ch = some bit) : bit ∈ lnaBits := by
  unfold amplifier bandAmplifier at h
  dsimp only at h
  split_ifs at h <;> obtain rfl := Option.some.inj h <;> decide

/-- Where no channel is looped back in the chip, an apply writes one of the LNA bits. -/
theorem store_amplifier {owner : Option TxCh} {ch : RxCh} (hloop : chipLoopback owner ch = false)
    (fe : Fe) {bit : LatchBit} (hbit : bit ∈ lnaBits) :
    store fe (rxWrites owner ch) bit = store fe [amplifierWrite ch] bit := by
  have hlrim : lrim ≠ bit := by
    rintro rfl
    revert hbit
    decide
  have hrest : bit ∉ driven (if mhz ch.freq ≤ 60 then []
      else [(lrim, decide (1400 < mhz ch.freq))]) := by
    split
    · exact List.not_mem_nil
    · exact fun hmem => hlrim (List.mem_singleton.mp hmem).symm
  calc store fe (rxWrites owner ch) bit
      = store fe (bandWrites owner ch) bit := (rxWrites_second (lnaBits_latch bit hbit)).2 fe
    _ = store fe (filterWrites ch) bit := by
        rw [bandWrites, hloop, if_neg Bool.false_ne_true, store_append, store_of_not_driven hrest]
    _ = store fe [amplifierWrite ch] bit := by
        rw [← filterWrites_amplifier, store_filter hbit]

/-- Where the first amplifier is off, an apply powers its amplifier and leaves the others. -/
theorem store_lna (owner : Option TxCh) (ch : RxCh) {fe : Fe} (hg1l : fe g1l = false)
    {bit : LatchBit} (hbit : bit ∈ lnaBits) :
    store fe (rxWrites owner ch) bit = true ↔ fe bit = true ∨ amplifier owner ch = some bit := by
  cases hloop : chipLoopback owner ch with
  | true =>
      have hband : bandWrites owner ch = [] := if_pos hloop
      rw [(rxWrites_second (lnaBits_latch bit hbit)).2, hband, amplifier, hloop]
      exact (or_iff_left nofun).symm
  | false =>
      rw [store_amplifier hloop fe hbit, amplifier, hloop, if_neg Bool.false_ne_true]
      show Function.update fe (amplifierWrite ch).1 (amplifierWrite ch).2 bit = true ↔ _
      unfold amplifierWrite
      cases bandAmplifier ch with
      | none =>
          obtain rfl | hne := eq_or_ne bit g1l
          · simp [hg1l]
          · simp [hne]
      | some powered =>
          obtain rfl | hne := eq_or_ne bit powered
          · simp
          · simp [hne, hne.symm]

/-! ## The first amplifier -/

theorem rx_g1l {owner : Option TxCh} {ch : RxCh} {fe : Fe} (h : fe g1l = false) :
    store fe (rxWrites owner ch) g1l = false := by
  refine Bool.eq_false_iff.mpr fun hon => ?_
  rcases (store_lna owner ch h (by decide)).mp hon with hbefore | hpowers
  · exact absurd hbefore (h ▸ Bool.false_ne_true)
  · unfold amplifier at hpowers
    split at hpowers
    · cases hpowers
    · exact bandAmplifier_ne_g1l ch hpowers

theorem tx_g1l (params : Params) {ch : TxCh} {fe : Fe} (h : fe g1l = false) :
    store fe (txWrites params ch) g1l = false := by
  rw [← h]
  refine store_keeps fun write hwrite hregister => ?_
  have hswitch : ∀ path, ∀ write ∈ portSwitch path, write.1 = g1l → write.2 = false := by
    intro path
    unfold portSwitch
    split <;> decide
  have hchain : write ∉ lime0TxBand (2350 ≤ mhz ch.freq) ++ ((txChainWrites params ch).1 ++
      lime0TxLpf (mhz ch.freq)) := fun hmem => by
    have hlatch := chain_latch params ch write.1 (List.mem_map_of_mem hmem)
    rw [hregister] at hlatch
    cases hlatch
  rw [txWrites_eq] at hwrite
  simp only [List.mem_append, not_or] at hwrite hchain
  rcases hwrite with hband | hpower | hlpf | hport | hbias
  · exact absurd hband hchain.1
  · exact absurd hpower hchain.2.1
  · exact absurd hlpf hchain.2.2
  · exact (hswitch _ write hport hregister).trans h.symm
  · rw [List.mem_singleton.mp hbias] at hregister
    cases hregister

namespace Driver

variable {params : Params} {driver : Driver} {slot : Slot}

/-- The first amplifier is off on both boards. -/
def FirstOff (driver : Driver) : Prop := ∀ slot, (driver.board slot).fe g1l = false

theorem FirstOff.put (h : driver.FirstOff) {cache : Cache} {board : Board}
    (hboard : board.fe g1l = false) : (driver.put slot cache board).FirstOff := fun other => by
  obtain rfl | hne := eq_or_ne other slot
  · rw [put_board_self, hboard]
  · rw [put_board_of_ne _ _ hne, h other]

theorem FirstOff.rxSet (h : driver.FirstOff) (ch : RxCh) (tune : Tune) :
    (driver.rxSet params slot ch tune).1.FirstOff := by
  have hband : store (driver.board slot).fe (rxWrites (driver.board slot).txS ch) g1l = _ :=
    (rxWrites_second rfl).2 _
  rw [rxSet_eq]
  cases driver.rxAccepts ch tune with
  | true =>
      refine h.put (show store (store _ _) _ _ = _ from ?_)
      rw [← store_append]
      exact rx_g1l (h slot)
  | false =>
      refine h.put (show store _ _ _ = _ from ?_)
      rw [← hband]
      exact rx_g1l (h slot)

theorem FirstOff.txSet (h : driver.FirstOff) (ch : TxCh) (tune : Tune) :
    (driver.txSet params slot ch tune).1.FirstOff := by
  rw [txSet_eq]
  dsimp only
  split_ifs
  · exact h.put (h slot)
  · exact h.put (tx_g1l params (h slot))
  · exact h.put (h slot)

theorem FirstOff.step (h : driver.FirstOff) (event : Event) :
    (driver.step params event).FirstOff := by
  have hcalibrated : ∀ bwMhz left, (driver.calibrated bwMhz left).FirstOff :=
    fun _ _ => h.put (h .primary)
  cases event with
  | txSet slot ch tune =>
      dsimp only [Driver.step]
      split
      · exact h.txSet ch tune
      · exact h
  | rxSet slot ch tune => exact h.rxSet ch tune
  | rxWant slot ch => exact h.put (h slot)
  | lpfCal bwMhz left succeeds tune =>
      dsimp only [Driver.step, Driver.lpfCal]
      split
      · exact (hcalibrated bwMhz left).rxSet _ tune
      · exact hcalibrated bwMhz left
  | reset => exact h

/-- Nothing the driver does switches the first amplifier on. -/
theorem after_firstOff (params : Params) (events : List Event) :
    (Driver.after params events).FirstOff := by
  have hrun : ∀ (events : List Event) (driver : Driver), driver.FirstOff →
      (events.foldl (Driver.step params) driver).FirstOff := by
    intro events
    induction events with
    | nil => exact fun _ h => h
    | cons event rest ih => exact fun driver h => ih _ (h.step event)
  exact hrun events .probed fun _ => rfl

/-! ## Sequences of applies -/

theorem rxNext_eq {apply : RxApply} {following : Driver}
    (h : driver.rxNext params apply = some following) :
    following = (driver.rxSet params apply.slot apply.ch apply.tune).1 ∧
      driver.rxAccepts apply.ch apply.tune = true := by
  obtain ⟨haccepts, rfl⟩ := of_guard h
  exact ⟨rfl, haccepts⟩

/-- An apply keeps the transmitter's channel, and its board gathers the amplifier it powers. -/
theorem rxNext_lna (slot : Slot) {apply : RxApply} {following : Driver} (hoff : driver.FirstOff)
    (h : driver.rxNext params apply = some following) :
    following.FirstOff ∧ (following.board slot).txS = (driver.board slot).txS ∧
      ∀ bit ∈ lnaBits, (following.board slot).fe bit = true ↔
        (driver.board slot).fe bit = true ∨
          apply.slot = slot ∧ amplifier (driver.board slot).txS apply.ch = some bit := by
  obtain ⟨rfl, haccepts⟩ := rxNext_eq h
  refine ⟨hoff.rxSet apply.ch apply.tune, rxSet_txS _ _ _ _ _ _, fun bit hbit => ?_⟩
  obtain rfl | hne := eq_or_ne slot apply.slot
  · rw [rxSet_fe haccepts, store_lna _ _ (hoff apply.slot) hbit]
    simp
  · rw [(driver.rxSet_channels params apply.slot apply.ch apply.tune).2 slot hne]
    simp [hne.symm]

/-- After a sequence of applies a board has the amplifiers on that were on before and those that a
request to it powered. -/
theorem run_lna (slot : Slot) {applies : List RxApply} {final : Driver} (hoff : driver.FirstOff)
    (h : run (rxNext params) driver applies = some final) :
    final.FirstOff ∧ (final.board slot).txS = (driver.board slot).txS ∧
      ∀ bit ∈ lnaBits, (final.board slot).fe bit = true ↔
        (driver.board slot).fe bit = true ∨ ∃ apply ∈ applies,
          apply.slot = slot ∧ amplifier (driver.board slot).txS apply.ch = some bit := by
  induction applies generalizing driver with
  | nil =>
      obtain rfl := Option.some.inj h
      exact ⟨hoff, rfl, fun bit _ => (or_iff_left (by simp)).symm⟩
  | cons apply rest ih =>
      obtain ⟨following, hstep, hrest⟩ := Option.bind_eq_some_iff.mp h
      obtain ⟨hfollowing, htx, hbits⟩ := rxNext_lna slot hoff hstep
      obtain ⟨hfinal, howner, hgathered⟩ := ih hfollowing hrest
      refine ⟨hfinal, howner.trans htx, fun bit hbit => ?_⟩
      rw [hgathered bit hbit, hbits bit hbit, htx, List.exists_mem_cons_iff, or_assoc]

/-- On a board with all amplifiers off. -/
theorem alone_lna (owner : Option TxCh) (ch : RxCh) {bit : LatchBit} (hbit : bit ∈ lnaBits) :
    store (fun _ => false) (rxWrites owner ch) bit = true ↔ amplifier owner ch = some bit := by
  rw [store_lna owner ch rfl hbit]
  exact or_iff_right Bool.false_ne_true

/-- The bits are those of the last request exactly if no other amplifier came on. -/
theorem bits_iff {earlier : List RxApply} {last : RxApply} {final : Driver}
    (hoff : driver.FirstOff)
    (h : run (rxNext params) driver (earlier ++ [last]) = some final) :
    lnaBits.map (final.board last.slot).fe = lnaAlone (final.board last.slot).txS last.ch ↔
      driver.OneAmplifier last.slot earlier last.ch := by
  obtain ⟨-, howner, hgathered⟩ := run_lna last.slot hoff h
  rw [howner, lnaAlone, List.map_inj_left]
  constructor
  · intro halone
    have hlast : ∀ bit ∈ lnaBits, (final.board last.slot).fe bit = true →
        amplifier (driver.board last.slot).txS last.ch = some bit := fun bit hbit hon =>
      (alone_lna _ _ hbit).mp ((halone bit hbit).symm.trans hon)
    refine ⟨fun bit hbit hon => hlast bit hbit ((hgathered bit hbit).mpr (.inl hon)), ?_⟩
    intro apply happly hslot bit hbit
    have hlna : bit ∈ lnaBits := amplifier_lna hbit
    exact hlast bit hlna ((hgathered bit hlna).mpr
      (.inr ⟨apply, List.mem_append_left _ happly, hslot, hbit⟩))
  · intro hone bit hbit
    rw [Bool.eq_iff_iff, alone_lna _ _ hbit, hgathered bit hbit]
    constructor
    · rintro (hon | ⟨apply, happly, hslot, hpowers⟩)
      · exact hone.start bit hbit hon
      · rcases List.mem_append.mp happly with hearlier | hlast
        · exact hone.earlier apply hearlier hslot bit hpowers
        · obtain rfl := List.mem_singleton.mp hlast
          exact hpowers
    · exact fun hpowers => .inr
        ⟨last, List.mem_append_right _ (.head _), rfl, hpowers⟩

/-- In the GPS bands a request alone leaves the second amplifier off. -/
theorem alone_gps (owner : Option TxCh) {ch : RxCh}
    (h : bandAmplifier ch = some g2pl1 ∨ bandAmplifier ch = some g2pl2) :
    store (fun _ => false) (rxWrites owner ch) g2l = false := by
  refine Bool.eq_false_iff.mpr fun hon => ?_
  have hpowers := (alone_lna owner ch (by decide)).mp hon
  unfold amplifier at hpowers
  split at hpowers
  · cases hpowers
  · rw [hpowers] at h
    exact absurd h (by decide)

/-- From any state the driver can be in, a sequence of RX applies leaves the LNA bits of its last
request exactly if every amplifier that was on before or that an earlier request powers is the one
of the last. -/
theorem last_alone_iff (params : Params) (history : List Event) (earlier : List RxApply)
    (last : RxApply) {final : Driver}
    (h : run (rxNext params) (after params history) (earlier ++ [last]) = some final) :
    final.LastAlone last.slot last.ch ↔
      (after params history).OneAmplifier last.slot earlier last.ch := by
  rw [← bits_iff (after_firstOff params history) h]
  refine ⟨fun halone => halone.bits, fun hbits => ⟨hbits, fun hgps => ?_⟩⟩
  have hg2l : g2l ∈ lnaBits := by decide
  exact (List.map_inj_left.mp hbits g2l hg2l).trans (alone_gps _ hgps)

/-- An RX request of the given frequency. -/
def receiveAt (freq : Nat) : RxApply :=
  ⟨.primary, { RxCh.zeroed with freq := freq, path := .smaA, enable := .rfOn }, .locked⟩

/-- The filters up to 1 GHz share the amplifier. -/
theorem last_alone_iff_below_gps :
    Driver.LastAlone
      (((after .standard []).rxSet .standard .primary (receiveAt 100000000).ch .locked).1.rxSet
        .standard .primary (receiveAt 900000000).ch .locked).1
      .primary (receiveAt 900000000).ch :=
  (last_alone_iff .standard [] [receiveAt 100000000] (receiveAt 900000000) rfl).mpr
    ⟨by decide, fun apply happly _ bit hbit => by
      obtain rfl := List.mem_singleton.mp happly
      exact hbit⟩

/-- After 900 MHz the second amplifier is still on in the GPS band. -/
theorem second_amplifier_on_in_gps :
    ¬ ∀ (earlier : List RxApply) (last : RxApply) (final : Driver),
      run (rxNext .standard) (after .standard []) (earlier ++ [last]) = some final →
        final.LastAlone last.slot last.ch := by
  intro h
  have hoff := (h [receiveAt 900000000] (receiveAt 1575000000) _ rfl).gps (.inl (by decide))
  exact absurd hoff (by decide)

end Driver

end RfnmDriver.Lime
