import RfnmDriver.Lime.AmplifierHistory

/-!
# The order of the two applies

TX and RX of a Lime board share its latches. An RX apply leaves the antenna port and the power
amplifiers to a transmitter that is on, but a TX apply switches the amplifiers of the receiver off
and sets the bias of the antenna without a look at RX. `compatible_iff` says for which pairs of
requests the two applies do not get in each other's way, `order_free_iff` what follows for the
image of the latches, and `receiver_deaf_after_tx` is a pair for which the order shows.
-/

namespace RfnmDriver.Lime

open LatchBit RegisterFile StepSystem

/-- The two requests of a duplex session. -/
inductive Half
  | tx
  | rx
  deriving DecidableEq, Repr

/-- What the two applies write on a board whose transmitter is on. -/
def halfWrites (params : Params) (tx : TxCh) (rx : RxCh) : Half → List Srb
  | .tx => txWrites params tx
  | .rx => rxWrites (some tx) rx

namespace Driver

variable (params : Params) (driver : Driver) (slot : Slot) (tx : TxCh) (rx : RxCh)

/-- One of the two requests is applied, and succeeds. -/
def duplexNext (apply : Half × Tune) : Option Driver :=
  let set := match apply.1 with
    | .tx => driver.txSet params slot tx apply.2
    | .rx => driver.rxSet params slot rx apply.2
  if set.2 then some set.1 else none

end Driver

/-- How the image of the latches is divided: the antenna port and the TX chain are the
transmitter's, and the bits of the filter bank that the RX request writes are the receiver's. -/
structure Divided (params : Params) (tx : TxCh) (rx : RxCh) (before image : Fe) : Prop where
  port : ∀ bit ∈ antPort, image bit = store before (txWrites params tx) bit
  bank : ∀ bit ∈ driven (bandWrites (some tx) rx),
    image bit = store before (bandWrites (some tx) rx) bit
  chain : ∀ bit : LatchBit, bit.latch = 3 → image bit = store before (txWrites params tx) bit

/-- Both requests applied at least once, in any order and any number of times, come to the same
image, and it is divided between them. -/
def OrderFree (params : Params) (driver : Driver) (slot : Slot) (tx : TxCh) (rx : RxCh) : Prop :=
  ∀ word final, run (Driver.duplexNext params · slot tx rx) driver word = some final →
    (∀ half, half ∈ word.map Prod.fst) →
      Divided params tx rx (driver.board slot).fe (final.board slot).fe ∧
        ∀ word' final', run (Driver.duplexNext params · slot tx rx) driver word' = some final' →
          (∀ half, half ∈ word'.map Prod.fst) →
            (final.board slot).fe = (final'.board slot).fe

/-- The TX chain of the request is the parked one: no amplifier and all three attenuators. -/
def ChainParked (params : Params) (tx : TxCh) : Prop :=
  match params.txFeForce, params.txdbmPick tx.freq (tx.power * 100) with
  | some mask, _ => mask % 32 = 28
  | none, some pick => pick.mask % 32 = 28
  | none, none => tx.power < -42

/-- The receiver powers no amplifier, the two agree on the bias, and an RX half-profile is only
built where the transmitter is as that leaves it. -/
structure Peaceful (params : Params) (tx : TxCh) (rx : RxCh) : Prop where
  band : mhz rx.freq ≤ 60
  bias : tx.biasTee = rx.biasTee
  parked : rx.enable = .rfOnTdd → ChainParked params tx

/-! ## The chain -/

theorem txChain_inj {pa1 pa2 t24 t12 t6 pa1' pa2' t24' t12' t6' : Bool} :
    txChain pa1 pa2 t24 t12 t6 = txChain pa1' pa2' t24' t12' t6' ↔
      pa1 = pa1' ∧ pa2 = pa2' ∧ t24 = t24' ∧ t12 = t12' ∧ t6 = t6' := by
  simp [txChain, paStage, padStage]

theorem lime0TxForce_eq_parked (mask : Nat) :
    lime0TxForce mask = txChain false false true true true ↔ mask % 32 = 28 := by
  have hlow : ∀ low < 32, (low.testBit 0 = false ∧ low.testBit 1 = false ∧ low.testBit 2 = true ∧
      low.testBit 3 = true ∧ low.testBit 4 = true) ↔ low = 28 := by decide
  have hbit : ∀ i < 5, (mask % 32).testBit i = mask.testBit i := fun i hi => by
    rw [show 32 = 2 ^ 5 from rfl, Nat.testBit_mod_two_pow]
    simp [hi]
  rw [← hlow _ (Nat.mod_lt mask (by decide)), hbit 0 (by decide), hbit 1 (by decide),
    hbit 2 (by decide), hbit 3 (by decide), hbit 4 (by decide)]
  exact txChain_inj

theorem lime0TxPower_eq_parked (power : Int) :
    lime0TxPower power = txChain false false true true true ↔ power < -42 := by
  unfold lime0TxPower
  dsimp only
  rw [txChain_inj]
  by_cases hpower : 0 < power * 100
  · have hnot : ¬ power < -42 := by omega
    simp [hpower, hnot]
  · by_cases h24 : power * 100 < -2400
    · by_cases h12 : power * 100 < -3600
      · have hlast : power * 100 < -4200 ↔ power < -42 := by omega
        simp [hpower, h24, h12, hlast]
      · have hnot : ¬ power < -42 := by omega
        simp [hpower, h24, h12, hnot]
    · have hnot : ¬ power < -42 := by omega
      simp [hpower, h24, hnot]

theorem chainParked_iff (params : Params) (tx : TxCh) :
    ChainParked params tx ↔ (txChainWrites params tx).1 = txChain false false true true true := by
  unfold ChainParked txChainWrites
  cases params.txFeForce with
  | some mask => exact (lime0TxForce_eq_parked mask).symm
  | none =>
      cases params.txdbmPick tx.freq (tx.power * 100) with
      | some pick => exact (lime0TxForce_eq_parked pick.mask).symm
      | none => exact (lime0TxPower_eq_parked tx.power).symm

/-! ## What the two write -/

section Pair

variable {params : Params} {tx : TxCh} {rx : RxCh}

/-- On a path to the antenna a TX apply writes each of its bits once. -/
theorem txWrites_nodup (hpath : tx.path ≠ .loopback) : (driven (txWrites params tx)).Nodup := by
  obtain ⟨pa1, pa2, t24, t12, t6, hchain⟩ := txChainWrites_eq params tx
  rw [txWrites_eq, hchain, portSwitch, if_pos hpath]
  simp only [driven_append, driven_txChain, driven_txLpf]
  have hbits : ([tfi] ++ ([tl1i, tl1o, paS1, tl2i, tl2o, paS2, t24i, t24o, t12i, t12o, t6i, t6o] ++
      ([tfa, tfb1, tfb2] ++ (driven lime0AntTx ++ driven lime0DisableAllLna ++
        [antBias])))).Nodup := by decide
  exact hbits

theorem mem_txWrites (hpath : tx.path ≠ .loopback) {write : Srb} :
    write ∈ txWrites params tx ↔
      write ∈ lime0TxBand (2350 ≤ mhz tx.freq) ∨ write ∈ (txChainWrites params tx).1 ∨
        write ∈ lime0TxLpf (mhz tx.freq) ∨ write ∈ lime0AntTx ∨ write ∈ lime0DisableAllLna ∨
        write = (antBias, !tx.biasTee) := by
  rw [txWrites_eq, portSwitch, if_pos hpath]
  simp only [List.mem_append, or_assoc, setBiasT, List.mem_singleton]

section Receiver

variable {owner : Option TxCh}

theorem chipLoopback_of_path (hrx : rx.path ≠ .loopback) : chipLoopback owner rx = false := by
  simp [chipLoopback, hrx]

/-- Under a transmitter in plain RF_ON an RX apply writes nothing of the antenna port but the
bias. -/
theorem rx_port (hlive : rfLive owner = true) {bit : LatchBit} (hlatch : bit.latch = 1)
    (hbias : bit ≠ antBias) : bit ∉ driven (rxWrites owner rx) := by
  have howned : portStaging owner rx = .txOwned := if_pos hlive
  rw [(rxWrites_first hlatch hbias).1, howned]
  exact List.not_mem_nil

theorem rx_bias (owner : Option TxCh) (hrx : rx.path ≠ .loopback) (fe : Fe) :
    antBias ∈ driven (rxWrites owner rx) ∧ store fe (rxWrites owner rx) antBias = !rx.biasTee := by
  have hwrites : biasWrites owner rx = [(antBias, !rx.biasTee)] :=
    if_neg (chipLoopback_of_path hrx ▸ Bool.false_ne_true)
  have hdriven : antBias ∈ driven [(antBias, !rx.biasTee)] := .head _
  rw [rxWrites_eq, ← List.append_assoc, ← List.append_assoc, hwrites]
  rw [store_append_of_driven hdriven, driven_append]
  refine ⟨List.mem_append_right _ hdriven, ?_⟩
  show Function.update fe antBias (!rx.biasTee) antBias = _
  exact Function.update_self ..

/-- Under a transmitter in plain RF_ON the chain is parked for an RX half-profile only. -/
theorem rx_parking (hlive : rfLive owner = true) (hrx : rx.path ≠ .loopback) :
    paParking owner rx = if rx.enable = .rfOnTdd then .full else .untouched := by
  obtain ⟨tx, rfl⟩ : ∃ tx, owner = some tx := Option.isSome_iff_exists.mp (by
    cases owner with
    | none => cases hlive
    | some tx => rfl)
  have hon : tx.enable = .rfOn := of_decide_eq_true hlive
  simp [paParking, hrx, hon]

/-- Of the latch of the transmitter an RX apply writes nothing but the chain. -/
theorem rx_chain {bit : LatchBit} (hlatch : bit.latch = 3)
    (hdriven : bit ∈ driven (rxWrites owner rx)) : bit ∈ driven (lime0TxPower (-100)) := by
  have hparking : ∀ parking : PaParking, ∀ bit ∈ driven parking.writes,
      bit ∈ driven (lime0TxPower (-100)) := by
    intro parking
    cases parking <;> decide
  exact hparking _ bit ((rxWrites_third hlatch).1.mp hdriven)

/-- Which transmitter it is makes no difference to an RX apply. -/
theorem rxWrites_congr {other : Option TxCh} (hlive : rfLive owner = true)
    (hother : rfLive other = true) (hrx : rx.path ≠ .loopback) :
    rxWrites owner rx = rxWrites other rx := by
  have hport : portStaging owner rx = portStaging other rx := by
    rw [portStaging, portStaging, if_pos hlive, if_pos hother]
  rw [rxWrites, rxWrites, bandWrites, bandWrites, portWrites, portWrites, hport,
    rx_parking hlive hrx, rx_parking hother hrx, chipLoopback_of_path hrx, chipLoopback_of_path hrx]

end Receiver

/-! ## Where they meet -/

theorem bandAmplifier_eq_none : bandAmplifier rx = none ↔ mhz rx.freq ≤ 60 := by
  unfold bandAmplifier
  dsimp only
  constructor
  · intro h
    by_contra hfreq
    rw [if_neg hfreq] at h
    split_ifs at h
  · exact fun h => if_pos h

/-- On the amplifiers of the receiver. -/
theorem lna_compatible (owner : Option TxCh) (hrx : rx.path ≠ .loopback) :
    (∀ fe : Fe, ∀ write ∈ lime0DisableAllLna, write.1 ∈ driven (rxWrites owner rx) →
      store fe (rxWrites owner rx) write.1 = write.2) ↔ mhz rx.freq ≤ 60 := by
  have hamplifier : amplifier owner rx = bandAmplifier rx :=
    if_neg (chipLoopback_of_path hrx ▸ Bool.false_ne_true)
  have hoff : ∀ bit ∈ lnaBits, (bit, false) ∈ lime0DisableAllLna := by decide
  have hlna : ∀ write ∈ lime0DisableAllLna, write.1 ∈ lnaBits ∧ write.2 = false := by decide
  rw [← bandAmplifier_eq_none, ← hamplifier]
  constructor
  · intro h
    refine Option.eq_none_iff_forall_not_mem.mpr fun bit hpowers => ?_
    have hbit := amplifier_lna hpowers
    have hon := (Driver.alone_lna owner rx hbit).mpr hpowers
    have hdriven : bit ∈ driven (rxWrites owner rx) := by
      by_contra hnot
      rw [store_of_not_driven hnot] at hon
      cases hon
    exact absurd hon (Bool.eq_false_iff.mp (h _ _ (hoff bit hbit) hdriven))
  · intro h fe write hwrite hdriven
    obtain ⟨hbit, hvalue⟩ := hlna write hwrite
    have halone : store fe (rxWrites owner rx) write.1 =
        store (fun _ => false) (rxWrites owner rx) write.1 := store_eq_of_driven hdriven
    rw [hvalue, halone]
    refine Bool.eq_false_iff.mpr fun hon => ?_
    rw [Driver.alone_lna owner rx hbit, h] at hon
    cases hon

/-- On the chain. -/
theorem chain_compatible {owner : Option TxCh} (hlive : rfLive owner = true)
    (hrx : rx.path ≠ .loopback) :
    (∀ fe : Fe, ∀ write ∈ (txChainWrites params tx).1, write.1 ∈ driven (rxWrites owner rx) →
      store fe (rxWrites owner rx) write.1 = write.2) ↔
      (rx.enable = .rfOnTdd → ChainParked params tx) := by
  obtain ⟨pa1, pa2, t24, t12, t6, hchain⟩ := txChainWrites_eq params tx
  have hlatch : ∀ write ∈ txChain pa1 pa2 t24 t12 t6, write.1.latch = 3 := fun write hwrite => by
    have hbits : ∀ bit ∈ [tl1i, tl1o, paS1, tl2i, tl2o, paS2, t24i, t24o, t12i, t12o, t6i, t6o],
        bit.latch = 3 := by decide
    exact hbits write.1 (List.mem_map_of_mem hwrite)
  have hthird : ∀ write ∈ txChain pa1 pa2 t24 t12 t6, ∀ fe : Fe,
      (write.1 ∈ driven (rxWrites owner rx) → store fe (rxWrites owner rx) write.1 = write.2) ↔
        (write.1 ∈ driven (paParking owner rx).writes →
          store fe (paParking owner rx).writes write.1 = write.2) := fun write hwrite fe => by
    rw [(rxWrites_third (hlatch write hwrite)).1, (rxWrites_third (hlatch write hwrite)).2]
  rw [chainParked_iff, hchain, txChain_inj]
  rw [rx_parking hlive hrx] at hthird
  by_cases htdd : rx.enable = .rfOnTdd
  · rw [if_pos htdd] at hthird
    simp only [htdd, true_imp_iff]
    constructor
    · intro h
      -- the parking drives the whole chain, so the values are those of the parked one
      have hall : ∀ bit ∈ driven (txChain pa1 pa2 t24 t12 t6),
          bit ∈ driven PaParking.full.writes := by
        rw [driven_txChain]
        decide
      have hvalue : ∀ write ∈ txChain pa1 pa2 t24 t12 t6,
          store (fun _ => false) PaParking.full.writes write.1 = write.2 := fun write hwrite =>
        (hthird write hwrite _).mp (h _ write hwrite) (hall _ (List.mem_map_of_mem hwrite))
      apply txChain_inj.mp
      calc txChain pa1 pa2 t24 t12 t6
          = (driven (txChain pa1 pa2 t24 t12 t6)).map fun bit =>
              (bit, store (fun _ => false) PaParking.full.writes bit) := by
            rw [driven, List.map_map]
            refine (List.map_id _).symm.trans (List.map_congr_left fun write hwrite => ?_)
            exact Prod.ext rfl (hvalue write hwrite).symm
        _ = txChain false false true true true := by
            rw [driven_txChain]
            decide
    · rintro ⟨rfl, rfl, rfl, rfl, rfl⟩ fe write hwrite
      have hsame : ∀ write ∈ txChain false false true true true, write ∈ PaParking.full.writes ∧
          ∀ other ∈ PaParking.full.writes, other.1 = write.1 → other.2 = write.2 := by decide
      refine (hthird write hwrite fe).mpr fun _ => ?_
      exact store_eq_of_mem (hsame write hwrite).1 (hsame write hwrite).2
  · rw [if_neg htdd] at hthird
    have hnone : ∀ bit : LatchBit, bit ∉ driven ([] : List Srb) := fun bit => List.not_mem_nil
    refine iff_of_true (fun fe write hwrite => ?_) fun h => absurd h htdd
    exact (hthird write hwrite fe).mpr fun hmem => absurd hmem (hnone write.1)

/-- The two applies are compatible exactly for a peaceful pair. -/
theorem compatible_iff {owner : Option TxCh} (hlive : rfLive owner = true)
    (hpath : tx.path ≠ .loopback) (hrx : rx.path ≠ .loopback) :
    Compatible (txWrites params tx) (rxWrites owner rx) ↔ Peaceful params tx rx := by
  rw [compatible_iff_of_nodup (txWrites_nodup hpath)]
  have hbias := rx_bias owner hrx
  constructor
  · intro h
    have hpart : ∀ writes : List Srb, (∀ write ∈ writes, write ∈ txWrites params tx) →
        ∀ fe : Fe, ∀ write ∈ writes, write.1 ∈ driven (rxWrites owner rx) →
          store fe (rxWrites owner rx) write.1 = write.2 := fun writes hwrites fe write hwrite =>
      h fe write (hwrites write hwrite)
    refine ⟨?_, ?_, ?_⟩
    · refine (lna_compatible owner hrx).mp (hpart _ fun write hwrite => ?_)
      exact (mem_txWrites hpath).mpr (by simp [hwrite])
    · have hvalue := h (fun _ => false) (antBias, !tx.biasTee)
        ((mem_txWrites hpath).mpr (by simp)) (hbias fun _ => false).1
      rw [(hbias _).2] at hvalue
      exact (Bool.not_inj hvalue).symm
    · refine (chain_compatible hlive hrx).mp (hpart _ fun write hwrite => ?_)
      exact (mem_txWrites hpath).mpr (by simp [hwrite])
  · intro h fe write hwrite hdriven
    -- group by group: most bits of a transmission are none of those a reception drives
    rcases (mem_txWrites hpath).mp hwrite with hband | hchain | hlpf | hport | hlna | rfl
    · obtain rfl := List.mem_singleton.mp hband
      have hnot : tfi ∉ driven (lime0TxPower (-100)) := by decide
      exact absurd (rx_chain rfl hdriven) hnot
    · exact (chain_compatible hlive hrx).mpr h.parked fe write hchain hdriven
    · have hbits : ∀ bit ∈ [tfa, tfb1, tfb2], bit.latch = 3 ∧
          bit ∉ driven (lime0TxPower (-100)) := by decide
      have hbit : write.1 ∈ driven (lime0TxLpf (mhz tx.freq)) := List.mem_map_of_mem hlpf
      rw [driven_txLpf] at hbit
      exact absurd (rx_chain (hbits _ hbit).1 hdriven) (hbits _ hbit).2
    · have hbits : ∀ write ∈ lime0AntTx, write.1.latch = 1 ∧ write.1 ≠ antBias := by decide
      exact absurd hdriven (rx_port hlive (hbits write hport).1 (hbits write hport).2)
    · exact (lna_compatible owner hrx).mpr h.band fe write hlna hdriven
    · rw [(hbias fe).2, h.bias]

/-! ## Runs -/

/-- A transmitter that is on is in plain RF_ON. -/
theorem rfLive_of_txLive {owner : Option TxCh} (h : txLive owner = true) : rfLive owner = true := by
  cases owner with
  | none => cases h
  | some tx => exact (Bool.and_eq_true_iff.mp h).1

theorem txLive_some (hon : tx.enable = .rfOn) (hpath : tx.path ≠ .loopback) :
    txLive (some tx) = true := by
  simp [txLive, hon, hpath]

namespace Driver

variable {driver : Driver} {slot : Slot}

/-- An apply that succeeds writes its bits, and leaves a transmitter that is on on. -/
theorem duplexNext_fe (hon : tx.enable = .rfOn) (hpath : tx.path ≠ .loopback)
    (hrx : rx.path ≠ .loopback) (hair : txLive (driver.board slot).txS = true)
    {apply : Half × Tune} {following : Driver}
    (h : driver.duplexNext params slot tx rx apply = some following) :
    txLive (following.board slot).txS = true ∧
      (following.board slot).fe =
        store (driver.board slot).fe (halfWrites params tx rx apply.1) := by
  obtain ⟨half, tune⟩ := apply
  cases half with
  | tx =>
      obtain ⟨hsucceeds, rfl⟩ := of_guard h
      have henable : tx.enable ≠ .rfOff := by simp [hon]
      refine ⟨?_, driver.txSet_fe params slot henable hsucceeds⟩
      rw [(driver.txSet_channels params slot tx tune).2.1, if_pos hsucceeds]
      exact txLive_some hon hpath
  | rx =>
      obtain ⟨hsucceeds, rfl⟩ := of_guard h
      dsimp only at hsucceeds ⊢
      rw [rxSet_snd] at hsucceeds
      refine ⟨by rwa [rxSet_txS], ?_⟩
      rw [rxSet_fe hsucceeds, halfWrites]
      rw [rxWrites_congr (rfLive_of_txLive hair) (rfLive_of_txLive (txLive_some hon hpath)) hrx]

/-- The image after a sequence of applies. -/
theorem run_duplex_fe (hon : tx.enable = .rfOn) (hpath : tx.path ≠ .loopback)
    (hrx : rx.path ≠ .loopback) (hair : txLive (driver.board slot).txS = true)
    {word : List (Half × Tune)} {final : Driver}
    (h : run (duplexNext params · slot tx rx) driver word = some final) :
    (final.board slot).fe =
      store (driver.board slot).fe ((word.map Prod.fst).flatMap (halfWrites params tx rx)) := by
  induction word generalizing driver with
  | nil =>
      obtain rfl := Option.some.inj h
      rfl
  | cons apply rest ih =>
      obtain ⟨following, hstep, hrest⟩ := Option.bind_eq_some_iff.mp h
      obtain ⟨hlive, hfe⟩ := duplexNext_fe hon hpath hrx hair hstep
      rw [ih hlive hrest, hfe, List.map_cons, List.flatMap_cons, store_append]

/-- Whatever the driver, both applies succeed where the synthesizers lock. -/
theorem duplexNext_locked (params : Params) (driver : Driver) (slot : Slot) (rx : RxCh)
    (hon : tx.enable = .rfOn) (half : Half) :
    ∃ following, driver.duplexNext params slot tx rx (half, .locked) = some following := by
  cases half with
  | tx =>
      have htuned : (driver.txTuned slot tx .locked).2 = true := by
        unfold txTuned Radio.tuneTx
        split <;> rfl
      have hsucceeds : (driver.txSet params slot tx .locked).2 = true := by
        rw [txSet_eq]
        simp [hon, htuned]
      exact ⟨_, if_pos hsucceeds⟩
  | rx =>
      have hsucceeds : (driver.rxSet params slot rx .locked).2 = true := by
        simp [rxAccepts]
      exact ⟨_, if_pos hsucceeds⟩

theorem run_both (params : Params) (driver : Driver) (slot : Slot) (rx : RxCh)
    (hon : tx.enable = .rfOn) (first second : Half) :
    ∃ final, run (duplexNext params · slot tx rx) driver
      [(first, Tune.locked), (second, Tune.locked)] = some final := by
  obtain ⟨middle, hmiddle⟩ := duplexNext_locked params driver slot rx hon first
  obtain ⟨final, hfinal⟩ := duplexNext_locked params middle slot rx hon second
  refine ⟨final, ?_⟩
  simp only [run, hmiddle, hfinal, bind, Option.bind_some]

end Driver

/-- Every half's bits are compatible with those of every half. -/
theorem halves_compatible (hon : tx.enable = .rfOn) (hpath : tx.path ≠ .loopback)
    (hrx : rx.path ≠ .loopback) (h : Peaceful params tx rx) (first rest : Half) :
    Compatible (halfWrites params tx rx first) (halfWrites params tx rx rest) := by
  have hlive := rfLive_of_txLive (txLive_some hon hpath)
  have hboth := (compatible_iff hlive hpath hrx).mpr h
  cases first with
  | tx =>
      cases rest with
      | tx => exact .refl _
      | rx => exact hboth
  | rx =>
      cases rest with
      | tx => exact hboth.symm
      | rx => exact .refl _

/-- The image of a peaceful pair is divided between the two. -/
theorem divided_of_peaceful (hon : tx.enable = .rfOn) (hpath : tx.path ≠ .loopback)
    (hrx : rx.path ≠ .loopback) (h : Peaceful params tx rx) {halves : List Half}
    (hboth : ∀ half, half ∈ halves) (before : Fe) :
    Divided params tx rx before (store before (halves.flatMap (halfWrites params tx rx))) := by
  have hlive := rfLive_of_txLive (txLive_some hon hpath)
  have hcompatible := halves_compatible hon hpath hrx h
  -- a bit that RX drives only where TX does too is as TX alone leaves it
  have htx : ∀ bit, (bit ∈ driven (rxWrites (some tx) rx) → bit ∈ driven (txWrites params tx)) →
      store before (halves.flatMap (halfWrites params tx rx)) bit =
        store before (txWrites params tx) bit := by
    intro bit himp
    by_cases hdriven : bit ∈ driven (txWrites params tx)
    · exact store_flatMap hcompatible (hboth .tx) hdriven
    · rw [store_of_not_driven hdriven, store_flatMap_of_not_driven]
      intro half _
      cases half with
      | tx => exact hdriven
      | rx => exact fun hmem => hdriven (himp hmem)
  refine ⟨fun bit hbit => htx bit fun hrxDriven => ?_, fun bit hbit => ?_,
    fun bit hlatch => htx bit fun hrxDriven => ?_⟩
  · have hport : ∀ bit ∈ antPort, bit.latch = 1 := by decide
    by_cases hbias : bit = antBias
    · have hmem : (antBias, !tx.biasTee) ∈ txWrites params tx := (mem_txWrites hpath).mpr (by simp)
      exact hbias ▸ List.mem_map_of_mem hmem
    · exact absurd hrxDriven (rx_port hlive (hport bit hbit) hbias)
  · obtain ⟨hsecond, hstored⟩ := rxWrites_second (bandWrites_latch (some tx) rx bit hbit)
    rw [← hstored before]
    exact store_flatMap hcompatible (hboth .rx) (hsecond.mpr hbit)
  · obtain ⟨pa1, pa2, t24, t12, t6, hchain⟩ := txChainWrites_eq params tx
    have hbit : bit ∈ driven (txChainWrites params tx).1 := by
      rw [hchain]
      exact rx_chain hlatch hrxDriven
    rw [txWrites_eq, driven_append, driven_append]
    exact List.mem_append_right _ (List.mem_append_left _ hbit)

/-- With the transmitter on, the order and the number of the applies of a pair of requests make no
difference exactly if the pair is peaceful. -/
theorem order_free_iff (driver : Driver) (slot : Slot)
    (hair : txLive (driver.board slot).txS = true) (hon : tx.enable = .rfOn)
    (hpath : tx.path ≠ .loopback) (hrx : rx.path ≠ .loopback) :
    OrderFree params driver slot tx rx ↔ Peaceful params tx rx := by
  have hlive := rfLive_of_txLive (txLive_some hon hpath)
  constructor
  · intro h
    obtain ⟨one, hone⟩ := Driver.run_both params driver slot rx hon .tx .rx
    obtain ⟨two, htwo⟩ := Driver.run_both params driver slot rx hon .rx .tx
    have hhalves : ∀ half : Half, half ∈ [Half.tx, .rx] ∧ half ∈ [Half.rx, .tx] := fun half => by
      cases half <;> decide
    have himage := (h _ one hone fun half => (hhalves half).1).2 _ two htwo fun half =>
      (hhalves half).2
    rw [Driver.run_duplex_fe hon hpath hrx hair hone,
      Driver.run_duplex_fe hon hpath hrx hair htwo] at himage
    have hswap : store (driver.board slot).fe (txWrites params tx ++ rxWrites (some tx) rx) =
        store (driver.board slot).fe (rxWrites (some tx) rx ++ txWrites params tx) := by
      simpa [halfWrites] using himage
    exact (compatible_iff hlive hpath hrx).mp (compatible_of_swap hswap)
  · intro h word final hrun hboth
    have hfe := Driver.run_duplex_fe hon hpath hrx hair hrun
    refine ⟨hfe ▸ divided_of_peaceful hon hpath hrx h hboth _, fun word' final' hrun' hboth' => ?_⟩
    rw [hfe, Driver.run_duplex_fe hon hpath hrx hair hrun']
    exact store_flatMap_congr (halves_compatible hon hpath hrx h) fun half =>
      iff_of_true (hboth half) (hboth' half)

end Pair

/-- A transmit request in the 70 cm band. -/
def transmitRequest : TxCh := ⟨433000000, 0, .smaA, false, .rfOn⟩

/-- The board of the first slot with it applied. -/
def onAir : Driver := (Driver.probed.txSet .standard .primary transmitRequest .locked).1

/-- On short wave the receiver has no amplifier for the transmitter to switch off. -/
theorem order_free_on_short_wave :
    OrderFree .standard onAir .primary transmitRequest (Driver.receiveAt 7000000).ch :=
  (order_free_iff onAir .primary (by decide) rfl (by decide) (by decide)).mpr
    ⟨by decide, rfl, nofun⟩

/-- Above it the amplifier is on if RX was applied last, and off if TX was. -/
theorem receiver_deaf_after_tx :
    ¬ OrderFree .standard onAir .primary transmitRequest (Driver.receiveAt 900000000).ch := by
  intro h
  have hhalves : ∀ half : Half, half ∈ [Half.tx, .rx] ∧ half ∈ [Half.rx, .tx] := fun half => by
    cases half <;> decide
  have himage := (h [(.tx, .locked), (.rx, .locked)] _ rfl fun half => (hhalves half).1).2
    [(.rx, .locked), (.tx, .locked)] _ rfl fun half => (hhalves half).2
  have hamplifier := congrFun himage g2l
  revert hamplifier
  decide

end RfnmDriver.Lime
