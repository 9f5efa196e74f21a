import RfnmDriver.Rx.PacketParts
import RfnmDriver.Rx.PayloadOffset
import RfnmDriver.Rx.StampContinuity

/-!
# Packets staged with a payload

The copy of a sub-buffer into a USB packet is skipped while nobody reads, and whether the packet is
then staged is decided later, by the stage gate. The log beside the producer has the sub-buffers of
every lane's partial packet, and every packet staged with the sub-buffers it was put together from.
`real_of_careful`: a staged packet carries the samples of its sub-buffers as long as the stage
refuses one with an elided copy or a part behind a rejected header, and no lane begins a packet in
another's ring slot.
-/

namespace RfnmDriver.Rx

open StepSystem Ownership

/-- A packet as it was staged, and what went into it. -/
structure Sent where
  packet : Packet
  parts : List Part

/-- The payload is exactly the samples of the sub-buffers, and none of them was skipped. -/
def Sent.Whole (sent : Sent) : Prop :=
  sent.packet.Carries sent.packet.elemCnt sent.parts ∧ ∀ part ∈ sent.parts, part.copied = true

/-- The producer, the parts of every lane's partial packet, and the packets staged. -/
structure PayloadLog where
  producer : Producer
  parts : Fin 4 → List Part
  sent : List Sent

namespace PayloadLog

open Producer

variable {config : Config} {log following : PayloadLog} {event : Event} {lane : Fin 4}
  {sub : SubBuffer} {env : SubEnv}

/-- The packet of the lane is staged. -/
def stage (log : PayloadLog) (lane : Fin 4) : List Sent :=
  log.sent ++ [⟨log.producer.rxUsb.minted lane, log.parts lane⟩]

/-- The packet that the sub-buffer forces out is staged unless the stage refuses it. -/
def stageFull (config : Config) (log : PayloadLog) (lane : Fin 4) (sub : SubBuffer)
    (env : SubEnv) : List Sent :=
  if log.producer.rxUsb.Flushes lane config.elems sub ∧
      ¬ log.producer.Refused config env.usbAlive env.headGrace then log.stage lane
  else log.sent

/-- The next sub-buffer of the slot as a part of a packet. -/
def part (log : PayloadLog) (sub : SubBuffer) (env : SubEnv) : Part where
  sub := sub
  samples := log.producer.slot.written log.producer.index sub
  copied := env.copyOpen
  behindRejected :=
    (log.producer.slot.subs.take log.producer.index).any fun earlier => earlier.lane?.isNone

/-- An accepted sub-buffer, after it has forced a packet out, is the first part of the next one or
one more part of the lane's. -/
def accept (config : Config) (log : PayloadLog) (lane : Fin 4) (sub : SubBuffer) (env : SubEnv) :
    PayloadLog where
  producer := log.producer.acceptSub config lane sub env
  parts := (log.producer.flushUsb config lane sub env).rxUsb.addPart log.parts lane
    (log.part sub env)
  sent := log.stageFull config lane sub env

/-- One step, written down. -/
def record (config : Config) (log : PayloadLog) (producer : Producer) : Event → PayloadLog
  | .sub env =>
      match log.producer.accepted with
      | some (lane, sub) => log.accept config lane sub env
      | none => { log with producer := producer }
  | .flushPartial lane usbAlive headGrace =>
      { log with
        producer := producer
        sent :=
          if ¬ log.producer.rxUsb.Filling lane ∨
              log.producer.Refused config usbAlive headGrace then log.sent
          else log.stage lane }
  | _ => { log with producer := producer }

/-- One step of the producer. -/
def next (config : Config) (log : PayloadLog) (event : Event) : Option PayloadLog :=
  (log.producer.next config event).map fun producer => log.record config producer event

/-- The module init. -/
def init (usbBuf localBuf : Nat → Packet) : PayloadLog where
  producer := .init usbBuf localBuf
  parts := fun _ => []
  sent := []

/-- The log has every packet handed to a request, and each carries the samples of its sub-buffers. -/
structure Real (log : PayloadLog) : Prop where
  staged : log.sent.map Sent.packet = log.producer.history.usbShipped
  whole : ∀ sent ∈ log.sent, sent.Whole

/-! ## The condition -/

/-- A copy into the lane's partial packet was skipped. -/
def Skipped (log : PayloadLog) (lane : Fin 4) : Prop :=
  ∃ part ∈ log.parts lane, part.copied = false

/-- A copy into the lane's partial packet was skipped, or was of a sub-buffer behind a rejected
header. -/
def Spoilt (log : PayloadLog) (lane : Fin 4) : Prop :=
  ∃ part ∈ log.parts lane, ¬ part.Sound

/-- A packet of this kind is refused by the stage, when a sub-buffer forces it out and when it is
found aged. -/
def Refuses (config : Config) (log : PayloadLog) (kind : Fin 4 → Prop) : Event → Prop
  | .sub env => ∀ pair ∈ log.producer.accepted,
      log.producer.rxUsb.Flushes pair.1 config.elems pair.2 → kind pair.1 →
        log.producer.Refused config env.usbAlive env.headGrace
  | .flushPartial lane usbAlive headGrace => log.producer.rxUsb.Filling lane → kind lane →
      log.producer.Refused config usbAlive headGrace
  | _ => True

/-- A packet into which a copy was skipped is refused. -/
def SkippedRefused (config : Config) (log : PayloadLog) (event : Event) : Prop :=
  log.Refuses config log.Skipped event

/-- A sub-buffer begins a packet only in a ring slot that no other lane fills: the one the lane is
parked on, or after a ship the one at the head. -/
def BeginsAlone (config : Config) (log : PayloadLog) : Event → Prop
  | .sub env => ∀ pair ∈ log.producer.accepted,
      (¬ log.producer.rxUsb.Filling pair.1 →
        Unowned log.producer.rxUsb.owned pair.1 (log.producer.rxUsb.adcBuf pair.1)) ∧
      (log.producer.rxUsb.Flushes pair.1 config.elems pair.2 →
        ¬ log.producer.Refused config env.usbAlive env.headGrace →
          Unowned log.producer.rxUsb.owned pair.1 log.producer.rxUsb.head)
  | _ => True

/-- The condition of a step. -/
def Careful (config : Config) (log : PayloadLog) (event : Event) : Prop :=
  log.Refuses config log.Spoilt event ∧ log.BeginsAlone config event

section Decidable

instance (sent : Sent) : Decidable sent.Whole :=
  inferInstanceAs (Decidable (_ ∧ _))

instance (log : PayloadLog) (lane : Fin 4) : Decidable (log.Spoilt lane) :=
  inferInstanceAs (Decidable (∃ _ ∈ _, _))

instance (config : Config) (log : PayloadLog) (event : Event) :
    Decidable (log.Careful config event) := by
  have hrefuses : Decidable (log.Refuses config log.Spoilt event) := by
    cases event <;> unfold Refuses
    case sub =>
      exact Option.decidableForallMem _
    all_goals infer_instance
  have halone : Decidable (log.BeginsAlone config event) := by
    cases event <;> unfold BeginsAlone
    case sub =>
      exact Option.decidableForallMem _
    all_goals infer_instance
  unfold Careful
  infer_instance

end Decidable

/-! ## Packets that are staged -/

/-- What a flush before a sub-buffer does to the log. -/
theorem stageFull_cases (config : Config) (log : PayloadLog) (lane : Fin 4) (sub : SubBuffer)
    (env : SubEnv) (hlane : sub.lane? = some lane) :
    (log.stageFull config lane sub env = log.sent ∧
      (log.producer.flushUsb config lane sub env).history.usbShipped =
        log.producer.history.usbShipped ∧
      (log.producer.rxUsb.Flushes lane config.elems sub →
        log.producer.Refused config env.usbAlive env.headGrace)) ∨
    log.producer.rxUsb.Filling lane ∧ log.stageFull config lane sub env = log.stage lane ∧
      (log.producer.flushUsb config lane sub env).history.usbShipped =
        log.producer.history.usbShipped ++ [log.producer.rxUsb.minted lane] ∧
      log.producer.rxUsb.Flushes lane config.elems sub ∧
      ¬ log.producer.Refused config env.usbAlive env.headGrace := by
  unfold stageFull flushUsb
  by_cases hflushes : log.producer.rxUsb.Flushes lane config.elems sub
  · by_cases hrefused : log.producer.Refused config env.usbAlive env.headGrace
    · rw [if_neg fun h => h.2 hrefused, if_pos hflushes, if_pos hrefused]
      exact Or.inl ⟨rfl, rfl, fun _ => hrefused⟩
    · rw [if_pos ⟨hflushes, hrefused⟩, if_pos hflushes, if_neg hrefused]
      exact Or.inr ⟨filling_of_flushes hlane hflushes, rfl, rfl, hflushes, hrefused⟩
  · rw [if_neg fun h => hflushes h.1, if_neg hflushes]
    exact Or.inl ⟨rfl, rfl, fun h => absurd h hflushes⟩

/-- The lane of an accepted sub-buffer is the one its header names. -/
theorem lane_of_accepted {producer : Producer} (h : producer.accepted = some (lane, sub)) :
    sub.lane? = some lane := by
  obtain ⟨found, -, hfound⟩ := Option.bind_eq_some_iff.mp h
  split at hfound
  · cases hfound
  · obtain ⟨other, hlane, hpair⟩ := Option.map_eq_some_iff.mp hfound
    obtain ⟨rfl, rfl⟩ := Prod.mk.inj hpair
    exact hlane

/-- A step stages no packet, and then refuses those of the kind; or it stages the partial packet of
one lane, and then refuses those of the kind only if it is not one. -/
theorem next_cases (kind : Fin 4 → Prop) (hnext : log.next config event = some following) :
    (following.sent = log.sent ∧
      following.producer.history.usbShipped = log.producer.history.usbShipped ∧
      log.Refuses config kind event) ∨
    ∃ lane, log.producer.rxUsb.Filling lane ∧ following.sent = log.stage lane ∧
      following.producer.history.usbShipped =
        log.producer.history.usbShipped ++ [log.producer.rxUsb.minted lane] ∧
      (log.Refuses config kind event ↔ ¬ kind lane) := by
  obtain ⟨producer, hproducer, rfl⟩ := Option.map_eq_some_iff.mp hnext
  -- a packet is staged by a sub-buffer that fills it, or by a flush of what is there
  cases event with
  | sub env =>
      unfold record
      obtain ⟨hnone, index, rfl⟩ | ⟨lane, sub, hsome, rfl⟩ := next_sub hproducer
      · rw [hnone]
        refine Or.inl ⟨rfl, rfl, fun pair hpair => ?_⟩
        exact absurd (hnone.symm.trans hpair) (by simp)
      · rw [hsome]
        have hshipped := acceptSub_usbShipped config log.producer lane sub env
        have hrule : log.Refuses config kind (.sub env) ↔
            (log.producer.rxUsb.Flushes lane config.elems sub → kind lane →
              log.producer.Refused config env.usbAlive env.headGrace) := by
          unfold Refuses
          rw [hsome]
          simp
        rw [hrule]
        obtain ⟨hsent, hsame, hrefused⟩ | ⟨hfilling, hsent, hmore, hflushes, hrefused⟩ :=
          stageFull_cases config log lane sub env (lane_of_accepted hsome)
        · exact Or.inl ⟨hsent, hshipped.trans hsame, fun hflushes _ => hrefused hflushes⟩
        · refine Or.inr ⟨lane, hfilling, hsent, hshipped.trans hmore, ?_⟩
          exact ⟨fun h hkind => hrefused (h hflushes hkind),
            fun h _ hkind => absurd hkind h⟩
  | flushPartial lane usbAlive headGrace =>
      obtain ⟨-, rfl⟩ := of_guard hproducer
      unfold record Producer.flushPartial
      by_cases hstays : ¬ log.producer.rxUsb.Filling lane ∨
          log.producer.Refused config usbAlive headGrace
      · dsimp only
        rw [if_pos hstays, if_pos hstays]
        refine Or.inl ⟨rfl, rfl, fun hfilling _ => ?_⟩
        exact hstays.resolve_left (not_not.mpr hfilling)
      · obtain ⟨hfilling, hrefused⟩ := not_or.mp hstays
        rw [not_not] at hfilling
        dsimp only
        rw [if_neg hstays, if_neg hstays]
        refine Or.inr ⟨lane, hfilling, rfl, rfl, ?_⟩
        exact ⟨fun h hkind => hrefused (h hfilling hkind),
          fun h _ hkind => absurd hkind h⟩
  | standDown =>
      obtain ⟨-, rfl⟩ := of_guard hproducer
      refine Or.inl ⟨rfl, ?_, trivial⟩
      show (log.producer.standDown).history.usbShipped = _
      unfold Producer.standDown
      split <;> rfl
  | slot slot | idlePass | jumpForward | reset =>
      obtain ⟨-, rfl⟩ := of_guard hproducer
      exact Or.inl ⟨rfl, rfl, trivial⟩
  | _ =>
      obtain ⟨free, untracked, staged, inflight, rfl, -⟩ := next_requests hproducer trivial
      exact Or.inl ⟨rfl, rfl, trivial⟩

/-! ## Packets under way -/

/-- What a run keeps: every partial packet carries its parts, and the running offset counts the
sub-buffers accepted. -/
structure Stocked (log : PayloadLog) : Prop where
  lanes : log.producer.rxUsb.Stocked log.parts
  read : log.producer.ReadInv

/-- A flush before a sub-buffer keeps the packets it leaves. -/
theorem kept_flushUsb (config : Config) (producer : Producer) (lane : Fin 4) (sub : SubBuffer)
    (env : SubEnv) (other : Fin 4)
    (hfilling : (producer.flushUsb config lane sub env).rxUsb.Filling other) :
    Assembler.Kept producer.rxUsb (producer.flushUsb config lane sub env).rxUsb other := by
  unfold Producer.flushUsb at hfilling ⊢
  split at hfilling
  · split at hfilling
    · -- dropped: the mark and the drop each keep the packets left
      have hclear := Assembler.kept_clear hfilling
      have hmark : Assembler.Kept producer.rxUsb (producer.rxUsb.markDiscont lane) other :=
        Assembler.kept_markDiscont
      simp only [*, if_true]
      exact hmark.trans hclear
    · simp only [*, if_true, if_false]
      exact Assembler.kept_ship hfilling
  · simp only [*, if_false]
    exact .refl other

/-- The part is made of the samples the copy takes, unless a header before it was rejected. -/
theorem part_samples (hread : log.producer.ReadInv)
    (hsub : log.producer.slot.subs[log.producer.index]? = some sub)
    (hsound : (log.part sub env).Sound) :
    (log.part sub env).samples = (List.range sub.size).map fun position =>
      log.producer.slot.samples (log.producer.subRead + position) := by
  obtain ⟨hindex, -⟩ := List.getElem?_eq_some_iff.mp hsub
  obtain ⟨hsizes, hoffset⟩ := hread hindex
  have hall : ∀ earlier ∈ log.producer.slot.subs.take log.producer.index,
      earlier.lane?.isSome := by
    intro earlier hearlier
    have hnone := hsound.2
    simp only [part, List.any_eq_false] at hnone
    simpa [Option.isNone_iff_eq_none, Option.isSome_iff_ne_none] using hnone earlier hearlier
  have hstart : log.producer.subRead = log.producer.slot.start log.producer.index := by
    rw [hoffset, acceptedStart, Slot.start]
    exact (sum_accepted_eq_iff hsizes).mpr hall
  show (List.range sub.size).map _ = _
  rw [hstart]

/-- An accepted sub-buffer is the one at the loop counter, and is not empty. -/
theorem sub_of_accepted {producer : Producer} (h : producer.accepted = some (lane, sub)) :
    producer.slot.subs[producer.index]? = some sub ∧ sub.size ≠ 0 := by
  obtain ⟨found, hfound, hchecks⟩ := Option.bind_eq_some_iff.mp h
  split at hchecks
  · cases hchecks
  · next hsize =>
      obtain ⟨other, -, hpair⟩ := Option.map_eq_some_iff.mp hchecks
      obtain ⟨-, rfl⟩ := Prod.mk.inj hpair
      exact ⟨hfound, hsize⟩

/-- An accepted sub-buffer that begins its packet alone goes behind the parts of its lane. -/
theorem Stocked.accept (h : log.Stocked) (hsome : log.producer.accepted = some (lane, sub))
    (halone : log.BeginsAlone config (.sub env)) :
    (log.accept config lane sub env).producer.rxUsb.Stocked
      (log.accept config lane sub env).parts := by
  have hlane := lane_of_accepted hsome
  obtain ⟨hsub, hsize⟩ := sub_of_accepted hsome
  obtain ⟨hparked, hhead⟩ := halone (lane, sub) hsome
  have hto : Assembler.FlushedTo log.producer.rxUsb
      (log.producer.flushUsb config lane sub env).rxUsb lane config.elems sub :=
    flushedTo_flushUsb h.lanes.exclusive hlane hhead
  have hflushed := h.lanes.vacate (kept_flushUsb config log.producer lane sub env)
  unfold PayloadLog.accept
  dsimp only
  rw [acceptSub_rxUsb]
  refine hflushed.append (fun hidle => ?_) hlane hsize (part_samples h.read hsub)
  obtain ⟨hstays, hsame⟩ | ⟨-, hunowned⟩ := hto
  · rw [hsame] at hidle ⊢
    exact hparked hidle
  · exact hunowned

/-- Every step that begins its packet alone keeps the partial packets. -/
theorem Stocked.next (h : log.Stocked) (halone : log.BeginsAlone config event)
    (hnext : log.next config event = some following) : following.Stocked := by
  obtain ⟨producer, hproducer, rfl⟩ := Option.map_eq_some_iff.mp hnext
  have hread : producer.ReadInv := h.read.next hproducer
  cases event with
  | sub env =>
      unfold record
      obtain ⟨hnone, index, rfl⟩ | ⟨lane, sub, hsome, rfl⟩ := next_sub hproducer
      · rw [hnone]
        exact ⟨h.lanes, hread⟩
      · rw [hsome]
        exact ⟨h.accept hsome halone, hread⟩
  | flushPartial lane usbAlive headGrace =>
      obtain ⟨-, rfl⟩ := of_guard hproducer
      refine ⟨?_, hread⟩
      show (log.producer.flushPartial config lane usbAlive headGrace).rxUsb.Stocked log.parts
      unfold Producer.flushPartial
      split
      · exact h.lanes
      · exact h.lanes.vacate fun _ => Assembler.kept_ship
  | standDown =>
      obtain ⟨-, rfl⟩ := of_guard hproducer
      refine ⟨?_, hread⟩
      show (log.producer.standDown).rxUsb.Stocked log.parts
      unfold Producer.standDown
      split
      · exact h.lanes
      · exact Assembler.stocked_of_clear rfl
  | jumpForward =>
      obtain ⟨-, rfl⟩ := of_guard hproducer
      exact ⟨h.lanes.vacate fun _ _ => Assembler.kept_markAll, hread⟩
  | reset =>
      obtain ⟨-, rfl⟩ := of_guard hproducer
      exact ⟨Assembler.stocked_of_clear rfl, hread⟩
  | slot slot | idlePass =>
      obtain ⟨-, rfl⟩ := of_guard hproducer
      exact ⟨h.lanes, hread⟩
  | _ =>
      obtain ⟨free, untracked, staged, inflight, rfl, -⟩ := next_requests hproducer trivial
      exact ⟨h.lanes, hread⟩

/-! ## Steps and runs -/

/-- A packet that carries its parts is staged whole. -/
theorem Stocked.whole (h : log.Stocked) (hfilling : log.producer.rxUsb.Filling lane)
    (hsound : ¬ log.Spoilt lane) :
    (⟨log.producer.rxUsb.minted lane, log.parts lane⟩ : Sent).Whole := by
  have hparts : ∀ part ∈ log.parts lane, part.Sound := by
    intro part hpart
    by_contra hbad
    exact hsound ⟨part, hpart, hbad⟩
  have hcarries := h.lanes.carries lane hfilling hparts
  exact ⟨hcarries.congr rfl rfl rfl rfl, fun part hpart => (hparts part hpart).1⟩

/-- A careful step stages only whole packets. -/
theorem Real.next (h : log.Real) (hstocked : log.Stocked)
    (hrefuses : log.Refuses config log.Spoilt event)
    (hnext : log.next config event = some following) : following.Real := by
  obtain ⟨hsent, hshipped, -⟩ | ⟨lane, hfilling, hsent, hshipped, hrule⟩ :=
    next_cases log.Spoilt hnext
  · constructor
    · rw [hsent, hshipped]
      exact h.staged
    · rw [hsent]
      exact h.whole
  · constructor
    · rw [hsent, hshipped, stage, List.map_append, h.staged]
      rfl
    · rw [hsent, stage, List.forall_mem_append, List.forall_mem_singleton]
      exact ⟨h.whole, hstocked.whole hfilling (hrule.mp hrefuses)⟩

/-- What was staged whole had no copy skipped, so the step refuses those that had. -/
theorem Real.skippedRefused (h : following.Real)
    (hnext : log.next config event = some following) : log.SkippedRefused config event := by
  obtain ⟨-, -, hrefuses⟩ | ⟨lane, -, hsent, -, hrule⟩ := next_cases log.Skipped hnext
  · exact hrefuses
  · refine hrule.mpr fun ⟨part, hpart, hskipped⟩ => ?_
    have hlast : ⟨log.producer.rxUsb.minted lane, log.parts lane⟩ ∈ following.sent := by
      rw [hsent, stage]
      exact List.mem_append_right _ List.mem_cons_self
    have hcopied := (h.whole _ hlast).2 part hpart
    exact Bool.noConfusion (hskipped.symm.trans hcopied)

/-- Somebody reads; nobody does. -/
def read : SubEnv := ⟨true, true, true, true, true⟩
def unread : SubEnv := ⟨false, false, false, false, true⟩

end PayloadLog

end RfnmDriver.Rx
