import RfnmDriver.Rx.SeamlessLane

/-!
# The parts of a packet

A packet is put together from sub-buffers, its parts. `Packet.Carries` says that a payload is the
samples of its parts, one part after the other, under the header of the first; `Assembler.Stocked`
that every lane's partial packet is, as long as its parts were copied from where the DMA wrote them.
Operations that drop or hand on packets keep it (`Stocked.vacate`), and so does a sub-buffer that
begins its packet in a slot no other lane fills (`Stocked.append`).
-/

namespace RfnmDriver.Rx

open Ownership

/-- The samples the DMA wrote for the sub-buffer at this place of the slot. -/
def Slot.written (slot : Slot) (index : Nat) (sub : SubBuffer) : List Sample :=
  (List.range sub.size).map fun position => slot.samples (slot.start index + position)

/-- A sub-buffer that went into a packet. -/
structure Part where
  sub : SubBuffer
  /-- The samples the DMA wrote for it. -/
  samples : List Sample
  /-- Its payload was copied. -/
  copied : Bool
  /-- The header of a sub-buffer before it in its ADC slot was rejected. -/
  behindRejected : Bool
  deriving DecidableEq, Repr

/-- The part was copied, and no header before it was rejected. -/
def Part.Sound (part : Part) : Prop :=
  part.copied = true ∧ part.behindRejected = false

instance (part : Part) : Decidable part.Sound :=
  inferInstanceAs (Decidable (_ ∧ _))

/-- The first `count` samples of the payload. -/
def Packet.samples (packet : Packet) (count : Nat) : List Sample :=
  (List.range count).map packet.payload

/-- The first `count` samples of the payload are those of the parts, in their order; the parts are
of the lane in the header, and the stamp and the epoch are the first one's. -/
structure Packet.Carries (packet : Packet) (count : Nat) (parts : List Part) : Prop where
  samples : packet.samples count = parts.flatMap Part.samples
  lane : ∀ part ∈ parts, part.sub.lane? = some packet.adcId
  stamp : ∀ first ∈ parts.head?, packet.phytimer = first.sub.phytimer ∧
    packet.epoch = first.sub.epoch
  begun : parts ≠ []

instance (packet : Packet) (count : Nat) (parts : List Part) :
    Decidable (packet.Carries count parts) :=
  have : Decidable (∀ first ∈ parts.head?, packet.phytimer = first.sub.phytimer ∧
      packet.epoch = first.sub.epoch) := Option.decidableForallMem _
  decidable_of_iff (packet.samples count = parts.flatMap Part.samples ∧
      (∀ part ∈ parts, part.sub.lane? = some packet.adcId) ∧
      (∀ first ∈ parts.head?, packet.phytimer = first.sub.phytimer ∧
        packet.epoch = first.sub.epoch) ∧ parts ≠ [])
    ⟨fun ⟨hsamples, hlane, hstamp, hbegun⟩ => ⟨hsamples, hlane, hstamp, hbegun⟩,
      fun h => ⟨h.samples, h.lane, h.stamp, h.begun⟩⟩

section Packets

variable {packet other : Packet} {parts : List Part} {part : Part} {lane : Fin 4} {jump : Bool}
  {source : Nat → Sample} {offset count : Nat}

/-- The samples behind a position are the ones copied there. -/
theorem Packet.samples_copy (packet : Packet) (source : Nat → Sample) (offset count size : Nat) :
    (packet.copy source offset count size).samples (count + size) =
      packet.samples count ++
        (List.range size).map fun position => source (offset + position) := by
  unfold Packet.samples
  rw [List.range_add, List.map_append, List.map_map]
  congr 1
  · refine List.map_congr_left fun k hk => ?_
    have hout : ¬ (count ≤ k ∧ k < count + size) := by
      have := List.mem_range.mp hk
      omega
    simp only [Packet.copy, if_neg hout]
  · refine List.map_congr_left fun k hk => ?_
    have hin : count ≤ count + k ∧ count + k < count + size := by
      have := List.mem_range.mp hk
      omega
    simp only [Packet.copy, Function.comp, if_pos hin, Nat.add_sub_cancel_left]

/-- A part copied to the start of a payload under its own header. -/
theorem Packet.carries_birth (hlane : part.sub.lane? = some lane)
    (hsource : part.samples = (List.range part.sub.size).map fun position =>
      source (offset + position)) :
    ((packet.copy source offset 0 part.sub.size).birth lane part.sub jump).Carries part.sub.size
      [part] where
  samples := by
    have hcopy := packet.samples_copy source offset 0 part.sub.size
    rw [Nat.zero_add] at hcopy
    rw [List.flatMap_singleton, hsource]
    exact hcopy
  lane other hother := by
    obtain rfl := List.mem_singleton.mp hother
    exact hlane
  stamp first hfirst := by
    obtain rfl := Option.some.inj hfirst
    exact ⟨rfl, rfl⟩
  begun := List.cons_ne_nil _ _

/-- A part copied behind the others. -/
theorem Packet.Carries.copy (h : packet.Carries count parts)
    (hlane : part.sub.lane? = some packet.adcId)
    (hsource : part.samples = (List.range part.sub.size).map fun position =>
      source (offset + position)) :
    (packet.copy source offset count part.sub.size).Carries (count + part.sub.size)
      (parts ++ [part]) where
  samples := by
    rw [Packet.samples_copy, List.flatMap_append, List.flatMap_singleton, hsource, h.samples]
  lane := by
    rw [List.forall_mem_append, List.forall_mem_singleton]
    exact ⟨h.lane, hlane⟩
  stamp first hfirst := by
    rw [List.head?_append_of_ne_nil _ h.begun] at hfirst
    exact h.stamp first hfirst
  begun := List.append_ne_nil_of_right_ne_nil _ (List.cons_ne_nil _ _)

/-- The header fields written when a packet is handed on are others. -/
theorem Packet.Carries.congr (h : packet.Carries count parts) (hadcId : other.adcId = packet.adcId)
    (hphytimer : other.phytimer = packet.phytimer) (hepoch : other.epoch = packet.epoch)
    (hpayload : other.payload = packet.payload) : other.Carries count parts where
  samples := by
    rw [Packet.samples, hpayload]
    exact h.samples
  lane := hadcId ▸ h.lane
  stamp := hphytimer ▸ hepoch ▸ h.stamp
  begun := h.begun

end Packets

/-! ## Lanes -/

namespace Assembler

/-- No two lanes fill one slot, and every partial packet is its lane's and carries its parts if they
are sound. -/
structure Stocked (assembler : Assembler) (parts : Fin 4 → List Part) : Prop where
  exclusive : Exclusive assembler.owned
  named : ∀ lane, assembler.Filling lane → (assembler.packet lane).adcId = lane
  carries : ∀ lane, assembler.Filling lane → (∀ part ∈ parts lane, part.Sound) →
    (assembler.packet lane).Carries (assembler.adcBufSize lane) (parts lane)

variable {assembler following : Assembler} {lane : Fin 4} {parts : Fin 4 → List Part} {part : Part}
  {source : Nat → Sample} {offset : Nat}

/-- A lane that still fills its packet after packets were dropped or handed on filled it before. -/
theorem Kept.filling (h : Kept assembler following lane) (hfilling : following.Filling lane) :
    assembler.Filling lane := by
  rw [Filling, ← h.size]
  exact hfilling

/-- When every partial packet left is kept, it still carries its parts. -/
theorem Stocked.vacate (h : assembler.Stocked parts)
    (hkept : ∀ lane, following.Filling lane → Kept assembler following lane) :
    following.Stocked parts where
  exclusive := by
    refine h.exclusive.weaken fun lane slot howns => ?_
    obtain ⟨hfilling, hslot⟩ := mem_owned.mp howns
    have hlane := hkept lane hfilling
    exact mem_owned.mpr ⟨hlane.filling hfilling, hlane.slot ▸ hslot⟩
  named lane hfilling := by
    have hlane := hkept lane hfilling
    rw [hlane.adcId]
    exact h.named lane (hlane.filling hfilling)
  carries lane hfilling hsound := by
    have hlane := hkept lane hfilling
    have hcarries := h.carries lane (hlane.filling hfilling) hsound
    rw [hlane.size]
    exact hcarries.congr hlane.adcId hlane.phytimer hlane.epoch hlane.payload

/-- Without partial packets there is nothing to carry. -/
theorem stocked_of_clear (hclear : assembler.adcBufSize = fun _ => 0) :
    assembler.Stocked parts where
  exclusive first second slot hfirst := by
    rw [owned_of_clear hclear] at hfirst
    cases hfirst
  named lane hfilling := absurd (congrFun hclear lane) hfilling
  carries lane hfilling := absurd (congrFun hclear lane) hfilling

/-- The parts of a lane after a sub-buffer: it begins a packet or goes behind the others. -/
def addPart (assembler : Assembler) (parts : Fin 4 → List Part) (lane : Fin 4) (part : Part) :
    Fin 4 → List Part :=
  Function.update parts lane
    ((if assembler.adcBufSize lane = 0 then [] else parts lane) ++ [part])

/-- A sub-buffer that goes into a packet in a slot no other lane fills. -/
theorem Stocked.append (h : assembler.Stocked parts)
    (hunowned : ¬ assembler.Filling lane → Unowned assembler.owned lane (assembler.adcBuf lane))
    (hlane : part.sub.lane? = some lane) (hsize : part.sub.size ≠ 0)
    (hsource : part.Sound → part.samples = (List.range part.sub.size).map fun position =>
      source (offset + position)) :
    (assembler.append lane part.sub source offset part.copied).Stocked
      (assembler.addPart parts lane part) := by
  have hfree : Unowned assembler.owned lane (assembler.adcBuf lane) := by
    by_cases hfilling : assembler.Filling lane
    · exact h.exclusive.unowned (mem_owned.mpr ⟨hfilling, rfl⟩)
    · exact hunowned hfilling
  -- another lane fills another packet, which the copy leaves alone
  have hkept : ∀ other ≠ lane, (assembler.append lane part.sub source offset part.copied).Filling
      other → assembler.Filling other ∧ Kept assembler
        (assembler.append lane part.sub source offset part.copied) other := by
    intro other hne hother
    have hfilling : assembler.Filling other := by
      simpa [Filling, Assembler.append, hne] using hother
    exact ⟨hfilling, kept_append hne fun hslot => hfree hne (mem_owned.mpr ⟨hfilling, hslot⟩)⟩
  refine ⟨?_, fun other hother => ?_, fun other hother hsound => ?_⟩
  · rw [owned_append hsize]
    exact h.exclusive.take hfree
  · by_cases hsame : other = lane
    · subst hsame
      simp only [Assembler.append, packet, Function.update_self, filled]
      by_cases hempty : assembler.adcBufSize other = 0
      · rw [if_pos hempty]
        rfl
      · rw [if_neg hempty]
        have hnamed : (assembler.packet other).adcId = other := h.named other hempty
        split <;> exact hnamed
    · obtain ⟨hfilling, hothers⟩ := hkept other hsame hother
      rw [hothers.adcId]
      exact h.named other hfilling
  unfold addPart at hsound ⊢
  by_cases hsame : other = lane
  · subst hsame
    rw [Function.update_self, List.forall_mem_append, List.forall_mem_singleton] at hsound
    obtain ⟨hparts, hpart⟩ := hsound
    have hcopied : part.copied = true := hpart.1
    simp only [Assembler.append, packet, Function.update_self, filled, hcopied, if_true]
    by_cases hempty : assembler.adcBufSize other = 0
    · rw [if_pos hempty, if_pos hempty, hempty, Nat.zero_add, List.nil_append]
      exact Packet.carries_birth hlane (hsource hpart)
    · rw [if_neg hempty] at hparts
      rw [if_neg hempty, if_neg hempty]
      refine (h.carries other hempty hparts).copy ?_ (hsource hpart)
      rw [hlane]
      exact congrArg some (h.named other hempty).symm
  · obtain ⟨hfilling, hothers⟩ := hkept other hsame hother
    rw [Function.update_of_ne hsame] at hsound ⊢
    rw [hothers.size]
    exact (h.carries other hfilling hsound).congr hothers.adcId hothers.phytimer hothers.epoch
      hothers.payload

end Assembler

end RfnmDriver.Rx
