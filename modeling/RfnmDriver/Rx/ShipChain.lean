import RfnmDriver.Rx.UsbSeam

/-!
# The check of the seams at ship time

`rfnm_rx_seam_ship_check` looks at each packet as it is handed to a request: it keeps for each lane
where the next packet should start, counts those that start elsewhere, and writes what it saw into a
ring of records. `Tripwire` is the producer with its logs, the words of the check, and what the
producer's steps are seen to hand on. `trip_exact` says that the counts are those of the dishonest
seams, and the ring the end of what was handed on, in every run; `trip_silent` that the check counts
nothing where the seams are declared.
-/

namespace RfnmDriver.Rx

open StepSystem NumberedLog

/-- The words of the check for one lane. -/
structure ChainLane where
  /-- `rfnm_rx_seam_expect_pt`. -/
  expectPt : BitVec 32
  /-- `rfnm_rx_seam_expect_valid`. -/
  expectValid : Bool
  /-- `rfnm_rx_seam_epoch`. -/
  epoch : BitVec 8
  /-- `ship_chain_err`. -/
  chainErr : Nat
  deriving DecidableEq, Repr

/-- `struct rfnm_rx_ship_rec`. -/
structure ShipRec where
  cc : Nat
  pt : BitVec 32
  elems : Nat
  slot : Nat
  lane : Fin 4
  path : Nat
  deriving DecidableEq, Repr

/-- `RFNM_RX_SHIP_LOG_N`. -/
def shipLogN : Nat := 1024

/-- There is a lane 0. -/
theorem lanes_pos : 0 < 4 := Nat.zero_lt_succ 3

namespace ChainLane

/-- The module's zeroed memory. -/
def zeroed : ChainLane :=
  ⟨0#32, false, 0#8, 0⟩

/-- `(elems << rx_r_shift) >> 1` in 32 bits. -/
def span (elems shift : Nat) : BitVec 32 :=
  (BitVec.ofNat 32 elems <<< shift) >>> 1

/-- The words behind `rfnm_rx_seam_ship_check` of a packet; `shift` is `rx_r_shift`. -/
def check (chain : ChainLane) (packet : Packet) (shift : Nat) : ChainLane :=
  let afresh := packet.discont = true ∨ packet.epoch ≠ chain.epoch
  let valid := if afresh then false else chain.expectValid
  { expectPt := packet.phytimer + span packet.elemCnt shift
    expectValid := true
    epoch := if afresh then packet.epoch else chain.epoch
    chainErr := if valid = true ∧ packet.phytimer ≠ chain.expectPt then chain.chainErr + 1
      else chain.chainErr }

end ChainLane

/-- A packet that a step of the producer handed to a request. -/
structure Handed where
  packet : Packet
  lane : Fin 4
  /-- The slot that the request points at. -/
  slot : Nat
  /-- 1 where it is a partial packet that aged, 0 where a sub-buffer forced it out. -/
  path : Nat

namespace Handed

/-- Which of the two ways out an event takes. -/
def pathOf : Event → Nat
  | .flushPartial .. => 1
  | _ => 0

/-- What a step handed on, seen from outside: the packet that the history gained, the lane whose
`usb_cc` moved, and the slot of the request that was staged last. -/
def seen (before after : Producer) (event : Event) : List Handed :=
  (after.history.usbShipped.drop before.history.usbShipped.length).filterMap fun packet => do
    let lane ← (List.finRange 4).find? fun lane => before.rxUsb.cc lane ≠ after.rxUsb.cc lane
    let slot ← after.staged.getLast?
    return ⟨packet, lane, slot, pathOf event⟩

end Handed

/-- The producer with its logs, the check and its ring. -/
structure Tripwire where
  watch : UsbWatch
  /-- What the steps handed on, in order. -/
  handed : List Handed
  chain : Fin 4 → ChainLane
  /-- `rfnm_rx_ship_log`. -/
  shipLog : Nat → ShipRec
  /-- `ship_log_wr`. -/
  shipLogWr : Nat

/-- A step of the producer, and `rx_r_shift` while it is made. -/
structure TripEvent where
  event : Event
  shift : Nat

namespace Tripwire

variable (config : Config) (trip : Tripwire)

/-- The module init. -/
def init (usbBuf localBuf : Nat → Packet) : Tripwire where
  watch := UsbWatch.init usbBuf localBuf
  handed := []
  chain := fun _ => .zeroed
  shipLog := fun _ => ⟨0, 0#32, 0, 0, ⟨0, lanes_pos⟩, 0⟩
  shipLogWr := 0

/-- The lane whose packet a step hands to a request, and the path by which. -/
def shipped : Event → Option (Fin 4 × Nat)
  | .sub env =>
      match trip.watch.producer.accepted with
      | some (lane, sub) =>
          if trip.watch.producer.rxUsb.Flushes lane config.elems sub ∧
              ¬trip.watch.producer.Refused config env.usbAlive env.headGrace then some (lane, 0)
          else none
      | none => none
  | .flushPartial lane usbAlive headGrace =>
      if trip.watch.producer.rxUsb.Filling lane ∧
          ¬trip.watch.producer.Refused config usbAlive headGrace then some (lane, 1)
      else none
  | _ => none

/-- The record of a packet of the lane. -/
def record (lane : Fin 4) (path : Nat) : ShipRec where
  cc := (trip.watch.producer.rxUsb.minted lane).usbCc
  pt := (trip.watch.producer.rxUsb.minted lane).phytimer
  elems := (trip.watch.producer.rxUsb.minted lane).elemCnt
  slot := trip.watch.producer.rxUsb.adcBuf lane
  lane := lane
  path := path

/-- The check looks at what the step hands on. -/
def checked (following : UsbWatch) (step : TripEvent) : Tripwire :=
  match trip.shipped config step.event with
  | some (lane, path) =>
      { watch := following
        handed := trip.handed ++
          Handed.seen trip.watch.producer following.producer step.event
        chain := Function.update trip.chain lane
          ((trip.chain lane).check (trip.watch.producer.rxUsb.minted lane) step.shift)
        shipLog := Function.update trip.shipLog (trip.shipLogWr % shipLogN)
          (trip.record lane path)
        shipLogWr := trip.shipLogWr + 1 }
  | none =>
      { trip with
        watch := following
        handed := trip.handed ++
          Handed.seen trip.watch.producer following.producer step.event }

/-- A step. -/
def next (step : TripEvent) : Option Tripwire :=
  (trip.watch.next config step.event).map fun following => trip.checked config following step

/-! ## What is asked of the check -/

/-- The seams of a log at which the second packet is not honest with the first. -/
def breaks : List Shipment → Nat
  | first :: second :: rest =>
      (if first.Honest second then 0 else 1) + breaks (second :: rest)
  | _ => 0

/-- The counts are those of the logs. -/
def Counts : Prop :=
  ∀ lane, (trip.chain lane).chainErr = breaks (trip.watch.logs lane).shipped

/-- A record says what was handed on. -/
structure Records (entry : ShipRec) (handed : Handed) : Prop where
  cc : entry.cc = handed.packet.usbCc
  pt : entry.pt = handed.packet.phytimer
  elems : entry.elems = handed.packet.elemCnt
  slot : entry.slot = handed.slot
  lane : entry.lane = handed.lane
  path : entry.path = handed.path

/-- The ring holds the last packets handed on. -/
structure RingHolds : Prop where
  count : trip.shipLogWr = trip.handed.length
  packets : trip.handed.map (·.packet) = trip.watch.producer.history.usbShipped
  entries : ∀ i handed, trip.handed[i]? = some handed → trip.shipLogWr ≤ i + shipLogN →
    Records (trip.shipLog (i % shipLogN)) handed

/-- The status word is that of the lane's stream, and a packet's ticks fit 32 bits. -/
def Tuned (step : TripEvent) : Prop :=
  ∀ pair ∈ trip.shipped config step.event,
    rateOf (trip.watch.producer.history.last pair.1) = 2 ^ step.shift ∧
      trip.watch.producer.rxUsb.adcBufSize pair.1 * 2 ^ step.shift < 2 ^ 32

instance (step : TripEvent) : Decidable (trip.Tuned config step) :=
  inferInstanceAs (Decidable (∀ pair ∈ trip.shipped config step.event, _))

variable {config trip} {following : Tripwire} {step : TripEvent} {shipments : List Shipment}
  {shipment : Shipment}

/-! ## One lane -/

/-- One more packet adds its seam. -/
theorem breaks_concat :
    breaks (shipments ++ [shipment]) = breaks shipments +
      (if ∀ last ∈ shipments.getLast?, last.Honest shipment then 0 else 1) := by
  induction shipments with
  | nil => rfl
  | cons first rest ih =>
    cases rest with
    | nil => simp [breaks]
    | cons second tail =>
      rw [List.getLast?_cons_cons]
      simp only [List.cons_append, breaks] at ih ⊢
      rw [ih, Nat.add_assoc]

/-- No seam is broken just where each packet is honest with the one before it. -/
theorem breaks_eq_zero : breaks shipments = 0 ↔ shipments.IsChain Shipment.Honest := by
  induction shipments with
  | nil => exact ⟨fun _ => List.isChain_nil, fun _ => rfl⟩
  | cons first rest ih =>
    cases rest with
    | nil => exact ⟨fun _ => List.isChain_singleton _, fun _ => rfl⟩
    | cons second tail =>
      rw [List.isChain_cons_cons, ← ih, breaks]
      split
      · next hhonest => simp [hhonest]
      · next hbroken => simp [hbroken]

/-- Where the ticks fit, the halved shift gives the ticks that pass. -/
theorem span_eq {elems shift : Nat} (hfit : elems * 2 ^ shift < 2 ^ 32) :
    ChainLane.span elems shift = elapsed (2 ^ shift) elems := by
  have helems : elems < 2 ^ 32 :=
    lt_of_le_of_lt (Nat.le_mul_of_pos_right elems (Nat.two_pow_pos shift)) hfit
  apply BitVec.eq_of_toNat_eq
  simp only [ChainLane.span, elapsed, BitVec.toNat_ushiftRight, BitVec.toNat_shiftLeft,
    BitVec.toNat_ofNat, Nat.shiftLeft_eq, Nat.mod_eq_of_lt helems, Nat.mod_eq_of_lt hfit,
    Nat.shiftRight_eq_div_pow]
  omega

/-- The check knows the last packet of the log, and has counted its seams. -/
structure Tracks (chain : ChainLane) (shipments : List Shipment) : Prop where
  counts : chain.chainErr = breaks shipments
  fresh : shipments = [] → chain.expectValid = false
  expects : ∀ last ∈ shipments.getLast?, chain.expectValid = true ∧
    chain.epoch = last.packet.epoch ∧ chain.expectPt = last.endTick

/-- The check of the next packet. -/
theorem Tracks.check {chain : ChainLane} {packet : Packet} {shift serial : Nat}
    (h : Tracks chain shipments)
    (hcc : packet.usbCc = lastNumber (·.packet.usbCc) shipments.getLast? + 1)
    (hfit : packet.elemCnt * 2 ^ shift < 2 ^ 32) :
    Tracks (chain.check packet shift) (shipments ++ [⟨packet, 2 ^ shift, serial⟩]) where
  counts := by
    rw [breaks_concat, ← h.counts]
    cases hlast : shipments.getLast? with
    | none =>
      have hfresh := h.fresh (List.getLast?_eq_none_iff.mp hlast)
      simp [ChainLane.check, hfresh]
    | some last =>
      obtain ⟨hvalid, hepoch, hpt⟩ := h.expects last hlast
      rw [hlast, lastNumber_some] at hcc
      have hhonest : last.Honest ⟨packet, 2 ^ shift, serial⟩ ↔
          (packet.epoch = last.packet.epoch → packet.discont = false →
            packet.phytimer = last.endTick) :=
        ⟨fun hseam => hseam hcc, fun hseam _ => hseam⟩
      simp only [ChainLane.check, hvalid, hepoch, hpt, Option.mem_some_iff, forall_eq', hhonest]
      by_cases hsame : packet.epoch = last.packet.epoch <;>
        cases hdiscont : packet.discont <;>
        by_cases hstart : packet.phytimer = last.endTick <;>
        simp [hsame, hstart]
  fresh := fun hempty => by simp at hempty
  expects := by
    intro last hlast
    rw [List.getLast?_concat] at hlast
    obtain rfl := Option.some.inj hlast
    refine ⟨rfl, ?_, ?_⟩
    · show (if _ then packet.epoch else chain.epoch) = packet.epoch
      split
      · rfl
      · next hsame =>
          simp only [not_or, not_not] at hsame
          exact hsame.2.symm
    · show packet.phytimer + ChainLane.span packet.elemCnt shift = _
      rw [span_eq hfit]
      rfl

/-! ## Steps -/

/-- A step hands the packet of one lane to a request, or none. -/
theorem next_shipped {event : Event} {after : UsbWatch}
    (hnext : trip.watch.next config event = some after) :
    (trip.shipped config event = none ∧ after.logs = trip.watch.logs ∧
        after.producer.history.usbShipped = trip.watch.producer.history.usbShipped ∧
        after.producer.rxUsb.cc = trip.watch.producer.rxUsb.cc) ∨
      ∃ lane path, trip.shipped config event = some (lane, path) ∧
        after.logs = trip.watch.staged lane ∧
        after.producer.history.usbShipped = trip.watch.producer.history.usbShipped ++
          [trip.watch.producer.rxUsb.minted lane] ∧
        after.producer.rxUsb.cc = Function.update trip.watch.producer.rxUsb.cc lane
          (trip.watch.producer.rxUsb.cc lane + 1) ∧
        after.producer.staged = trip.watch.producer.staged ++
          [trip.watch.producer.rxUsb.adcBuf lane] ∧
        path = Handed.pathOf event := by
  obtain ⟨producer, hproducer, rfl⟩ := Option.map_eq_some_iff.mp hnext
  cases event with
  | sub env =>
      rcases Producer.next_sub hproducer with
        ⟨hnone, index, rfl⟩ | ⟨lane, sub, haccepted, rfl⟩
      · exact Or.inl ⟨by simp only [shipped, hnone], by simp only [UsbWatch.logged, hnone], rfl, rfl⟩
      · simp only [Producer.acceptSub_usbShipped, Producer.acceptSub_rxUsb,
          Producer.acceptSub_staged, UsbWatch.logged, shipped, haccepted]
        unfold Producer.flushUsb
        by_cases hflushes : trip.watch.producer.rxUsb.Flushes lane config.elems sub
        · by_cases hrefused : trip.watch.producer.Refused config env.usbAlive env.headGrace
          · rw [if_pos hflushes, if_pos hrefused, if_neg fun hship => hship.2 hrefused,
              if_neg fun hship => hship.2 hrefused]
            exact Or.inl ⟨rfl, rfl, rfl, rfl⟩
          · rw [if_pos hflushes, if_neg hrefused, if_pos ⟨hflushes, hrefused⟩,
              if_pos ⟨hflushes, hrefused⟩]
            exact Or.inr ⟨lane, 0, rfl, rfl, rfl, rfl, rfl, rfl⟩
        · rw [if_neg hflushes, if_neg fun hship => hflushes hship.1,
            if_neg fun hship => hflushes hship.1]
          exact Or.inl ⟨rfl, rfl, rfl, rfl⟩
  | flushPartial lane usbAlive headGrace =>
      obtain ⟨-, rfl⟩ := of_guard hproducer
      simp only [UsbWatch.logged, shipped]
      unfold Producer.flushPartial
      by_cases hship : trip.watch.producer.rxUsb.Filling lane ∧
          ¬trip.watch.producer.Refused config usbAlive headGrace
      · have hgoes : ¬(¬trip.watch.producer.rxUsb.Filling lane ∨
            trip.watch.producer.Refused config usbAlive headGrace) :=
          fun hkept => hkept.elim (fun hidle => hidle hship.1) hship.2
        rw [if_neg hgoes, if_pos hship, if_pos hship]
        exact Or.inr ⟨lane, 1, rfl, rfl, rfl, rfl, rfl, rfl⟩
      · have hstays : ¬trip.watch.producer.rxUsb.Filling lane ∨
            trip.watch.producer.Refused config usbAlive headGrace :=
          (not_and_or.mp hship).imp_right not_not.mp
        rw [if_pos hstays, if_neg hship, if_neg hship]
        exact Or.inl ⟨rfl, rfl, rfl, rfl⟩
  | slot | idlePass | jumpForward | reset =>
      obtain ⟨-, rfl⟩ := of_guard hproducer
      exact Or.inl ⟨rfl, rfl, rfl, rfl⟩
  | standDown =>
      obtain ⟨-, rfl⟩ := of_guard hproducer
      unfold Producer.standDown
      split <;> exact Or.inl ⟨rfl, rfl, rfl, rfl⟩
  | _ =>
      obtain ⟨free, untracked, staged, inflight, rfl, -⟩ :=
        Producer.next_requests hproducer trivial
      exact Or.inl ⟨rfl, rfl, rfl, rfl⟩

/-- Where no packet goes out, none is seen. -/
theorem seen_none {before after : Producer} {event : Event}
    (hhistory : after.history.usbShipped = before.history.usbShipped) :
    Handed.seen before after event = [] := by
  rw [Handed.seen, hhistory, List.drop_length, List.filterMap_nil]

/-- A lane is found among the four. -/
theorem find_lane :
    ∀ lane : Fin 4, (List.finRange 4).find? (fun other => lane = other) = some lane := by
  decide

/-- The lane whose `usb_cc` moved is found. -/
theorem find_moved (cc : Fin 4 → Nat) (lane : Fin 4) :
    (List.finRange 4).find? (fun other => cc other ≠ Function.update cc lane (cc lane + 1) other) =
      some lane := by
  have hmoved (other : Fin 4) :
      cc other ≠ Function.update cc lane (cc lane + 1) other ↔ lane = other := by
    by_cases hsame : lane = other
    · subst hsame
      simp
    · simp [hsame, Function.update_of_ne (Ne.symm hsame)]
  simp only [hmoved]
  exact find_lane lane

/-- Where one goes out, it is seen with its lane, its slot and its way out. -/
theorem seen_ship {before after : Producer} {event : Event} {lane : Fin 4} {packet : Packet}
    {slot : Nat} (hhistory : after.history.usbShipped = before.history.usbShipped ++ [packet])
    (hcc : after.rxUsb.cc =
      Function.update before.rxUsb.cc lane (before.rxUsb.cc lane + 1))
    (hstaged : after.staged = before.staged ++ [slot]) :
    Handed.seen before after event = [⟨packet, lane, slot, Handed.pathOf event⟩] := by
  rw [Handed.seen, hhistory, List.drop_left, hcc, hstaged, find_moved, List.getLast?_concat]
  rfl

/-- The check is up to date with the logs, and the ring with the history. -/
structure Inv (trip : Tripwire) : Prop where
  tracks : ∀ lane, Tracks (trip.chain lane) (trip.watch.logs lane).shipped
  cc : ∀ lane, trip.watch.producer.rxUsb.cc lane =
    lastNumber (·.packet.usbCc) (trip.watch.logs lane).last
  ring : trip.RingHolds

theorem init_inv (usbBuf localBuf : Nat → Packet) : (init usbBuf localBuf).Inv where
  tracks := fun lane => ⟨rfl, fun _ => rfl, fun last hlast => by cases hlast⟩
  cc := fun lane => rfl
  ring := ⟨rfl, rfl, fun i handed hheld => by cases hheld⟩

/-- A step that hands nothing on leaves the ring as it is. -/
theorem RingHolds.idle {after : UsbWatch} {event : Event} (h : trip.RingHolds)
    (hhistory : after.producer.history.usbShipped = trip.watch.producer.history.usbShipped) :
    RingHolds { trip with
      watch := after
      handed := trip.handed ++ Handed.seen trip.watch.producer after.producer event } := by
  rw [seen_none hhistory, List.append_nil]
  exact ⟨h.count, h.packets.trans hhistory.symm, h.entries⟩

/-- One more record goes over the oldest. -/
theorem entries_push {shipLog : Nat → ShipRec} {shipLogWr : Nat} {history : List Handed}
    {last : Handed} {entry : ShipRec} (hlength : shipLogWr = history.length)
    (hring : ∀ i held, history[i]? = some held → shipLogWr ≤ i + shipLogN →
      Records (shipLog (i % shipLogN)) held)
    (hentry : Records entry last) (i : Nat) (held : Handed)
    (hheld : (history ++ [last])[i]? = some held) (hlate : shipLogWr + 1 ≤ i + shipLogN) :
    Records (Function.update shipLog (shipLogWr % shipLogN) entry (i % shipLogN)) held := by
  rcases Nat.lt_or_ge i history.length with hold | hnew
  · rw [List.getElem?_append_left hold] at hheld
    have hplace : i % shipLogN ≠ shipLogWr % shipLogN := by
      unfold shipLogN at hlate ⊢
      omega
    rw [Function.update_of_ne hplace]
    exact hring i held hheld (by omega)
  · rw [List.getElem?_append_right hnew] at hheld
    obtain ⟨hlast, hsame⟩ := List.getElem?_eq_some_iff.mp hheld
    have hindex : i = shipLogWr := by
      rw [List.length_singleton] at hlast
      omega
    rw [hindex, Function.update_self]
    have hheld : last = held := by
      simpa [hindex, hlength] using hsame
    exact hheld ▸ hentry

/-- A step keeps the invariant. -/
theorem next_inv (h : trip.Inv) (htuned : trip.Tuned config step)
    (hnext : trip.next config step = some following) : following.Inv := by
  obtain ⟨after, hafter, rfl⟩ := Option.map_eq_some_iff.mp hnext
  rcases next_shipped hafter with ⟨hnone, hlogs, hhistory, hcc⟩ |
    ⟨lane, path, hship, hlogs, hhistory, hcc, hstaged, hpath⟩
  · simp only [checked, hnone]
    refine ⟨?_, ?_, h.ring.idle hhistory⟩
    · intro lane
      show Tracks (trip.chain lane) (after.logs lane).shipped
      rw [hlogs]
      exact h.tracks lane
    · intro lane
      show after.producer.rxUsb.cc lane = lastNumber _ (after.logs lane).last
      rw [hcc, hlogs]
      exact h.cc lane
  · obtain ⟨hrate, hfit⟩ := htuned (lane, path) hship
    simp only [checked, hship]
    refine ⟨?_, ?_, ?_⟩
    · intro other
      show Tracks (Function.update trip.chain lane _ other) (after.logs other).shipped
      rw [hlogs]
      by_cases hsame : other = lane
      · subst hsame
        simp only [UsbWatch.staged, Function.update_self, LaneLog.ship]
        rw [hrate]
        refine (h.tracks other).check ?_ hfit
        show trip.watch.producer.rxUsb.cc other + 1 = _
        rw [h.cc other]
        rfl
      · simp only [UsbWatch.staged, Function.update_of_ne hsame]
        exact h.tracks other
    · intro other
      show after.producer.rxUsb.cc other = lastNumber _ (after.logs other).last
      rw [hcc, hlogs]
      by_cases hsame : other = lane
      · subst hsame
        simp only [UsbWatch.staged, Function.update_self, LaneLog.last_ship]
        rfl
      · simp only [UsbWatch.staged, Function.update_of_ne hsame]
        exact h.cc other
    · rw [seen_ship hhistory hcc hstaged]
      refine ⟨?_, ?_, ?_⟩
      · simp only [List.length_append, List.length_singleton, h.ring.count]
      · simp only [List.map_append, h.ring.packets, hhistory, List.map_cons, List.map_nil]
      · exact entries_push h.ring.count h.ring.entries ⟨rfl, rfl, rfl, rfl, rfl, hpath⟩

/-! ## Runs -/

/-- Where the firmware's stamps continue and every step declares its seams, nothing is counted. -/
theorem trip_silent (config : Config) (usbBuf localBuf : Nat → Packet) (steps : List TripEvent)
    (hrun : Guarded (next config) (fun trip step => trip.Tuned config step ∧
      trip.watch.StampsContinue step.event ∧ trip.watch.SeamDeclared config step.event)
      (init usbBuf localBuf) steps) :
    Always (next config) (fun trip => ∀ lane, (trip.chain lane).chainErr = 0)
      (init usbBuf localBuf) steps := by
  have halways : Always (next config) (fun trip => trip.Inv ∧ trip.watch.Inv)
      (init usbBuf localBuf) steps := by
    refine always_of_guarded (fun state step following h hstep hnext => ?_)
      ⟨init_inv usbBuf localBuf, UsbWatch.init_inv usbBuf localBuf⟩ hrun
    obtain ⟨htuned, hstream, hdeclared⟩ := hstep
    refine ⟨next_inv h.1 htuned hnext, ?_⟩
    obtain ⟨after, hafter, rfl⟩ := Option.map_eq_some_iff.mp hnext
    have hwatch : after.Inv := UsbWatch.next_inv h.2 hstream hdeclared hafter
    unfold checked
    split <;> exact hwatch
  refine halways.mono fun state h lane => ?_
  rw [(h.1.tracks lane).counts, breaks_eq_zero]
  exact h.2.seamsHonest lane

end Tripwire

end RfnmDriver.Rx
