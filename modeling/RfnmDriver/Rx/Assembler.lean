import Mathlib.Data.Fintype.Defs
import RfnmDriver.Library.Ownership
import RfnmDriver.Rx.Packet

/-!
# Packet assembly on four lanes

`rx_usb_cb` with `rfnm_rx_usb_buf`, and `rx_local_cb` with `rfnm_local_buf_rx`, are the same
structure: each lane fills a packet in one slot of a shared ring, and takes the slot at `head` when
it has shipped one. A lane with a partial packet owns its slot. Read `append` first: it is what a
sub-buffer does to a lane.
-/

namespace RfnmDriver.Rx

open Ownership

/-- `rx_usb_cb` or `rx_local_cb`, the ring behind it, and its `rfnm_rx_jump_discont` word. -/
structure Assembler where
  /-- The slot the next packet shipped makes its lane continue in. -/
  head : Nat
  adcBuf : Fin 4 → Nat
  adcBufSize : Fin 4 → Nat
  /-- `usb_cc` or `local_cc`. -/
  cc : Fin 4 → Nat
  jumpDiscont : Fin 4 → Bool
  buf : Nat → Packet

namespace Assembler

variable (assembler : Assembler) (ring : Nat) (lane : Fin 4)

/-- The packet in the lane's slot. -/
def packet : Packet :=
  assembler.buf (assembler.adcBuf lane)

/-- The lane holds a partial packet. -/
def Filling : Prop :=
  assembler.adcBufSize lane ≠ 0

instance : Decidable (assembler.Filling lane) :=
  inferInstanceAs (Decidable (_ ≠ _))

/-- The slots the lanes are writing. -/
def owned (lane : Fin 4) : Option Nat :=
  if assembler.adcBufSize lane = 0 then none else some (assembler.adcBuf lane)

/-! ## Operations -/

/-- `usb_seam_flush` or `local_seam_flush`: the sub-buffer may not go into the partial packet. -/
def SeamFlush (sub : SubBuffer) : Prop :=
  assembler.Filling lane ∧ (sub.discont = true ∨ sub.epoch ≠ (assembler.packet lane).epoch)

instance (sub : SubBuffer) : Decidable (assembler.SeamFlush lane sub) :=
  inferInstanceAs (Decidable (_ ∧ _))

/-- The partial packet is forced out before the sub-buffer is appended. -/
def Flushes (full : Nat) (sub : SubBuffer) : Prop :=
  full < assembler.adcBufSize lane + sub.size ∨ assembler.SeamFlush lane sub

instance (full : Nat) (sub : SubBuffer) : Decidable (assembler.Flushes lane full sub) :=
  inferInstanceAs (Decidable (_ ∨ _))

/-- The packet as shipped: a fresh `usb_cc`, and the fill in `elem_cnt`. -/
def minted : Packet :=
  { assembler.packet lane with
    usbCc := assembler.cc lane + 1
    elemCnt := assembler.adcBufSize lane }

/-- The header fields written at ship time. -/
def mint : Assembler :=
  { assembler with
    cc := Function.update assembler.cc lane (assembler.cc lane + 1)
    buf := Function.update assembler.buf (assembler.adcBuf lane) (assembler.minted lane) }

/-- `adc_buf_size[lane] = 0`. -/
def clear : Assembler :=
  { assembler with adcBufSize := Function.update assembler.adcBufSize lane 0 }

/-- The lane continues in the slot at `head`, which moves on around the ring. -/
def advance : Assembler :=
  { assembler with
    adcBuf := Function.update assembler.adcBuf lane assembler.head
    head := if assembler.head + 1 = ring then 0 else assembler.head + 1 }

/-- The lane's bit of `rfnm_rx_jump_discont`. -/
def markDiscont : Assembler :=
  { assembler with jumpDiscont := Function.update assembler.jumpDiscont lane true }

/-- A packet handed on: its header is completed, and the lane continues in the next slot. -/
def ship : Assembler :=
  ((assembler.mint lane).clear lane).advance ring lane

/-- The payload copy, unless skipped, and at write position 0 the header. -/
def filled (sub : SubBuffer) (source : Nat → Sample) (offset : Nat) (copied : Bool) : Packet :=
  let written := if copied then
    (assembler.packet lane).copy source offset (assembler.adcBufSize lane) sub.size
    else assembler.packet lane
  if assembler.adcBufSize lane = 0 then
    written.birth lane sub (assembler.jumpDiscont lane)
  else written

/-- A sub-buffer goes into the lane's slot. -/
def append (sub : SubBuffer) (source : Nat → Sample) (offset : Nat) (copied : Bool) :
    Assembler :=
  { assembler with
    buf := Function.update assembler.buf (assembler.adcBuf lane)
      (assembler.filled lane sub source offset copied)
    adcBufSize := Function.update assembler.adcBufSize lane
      (assembler.adcBufSize lane + sub.size)
    jumpDiscont := if assembler.adcBufSize lane = 0 then
      Function.update assembler.jumpDiscont lane false else assembler.jumpDiscont }

/-- `rfnm_rx_jump_discont = 0xf`. -/
def markAll : Assembler :=
  { assembler with jumpDiscont := fun _ => true }

/-- `adc_buf_size[i] = 0` for all lanes. -/
def clearAll : Assembler :=
  { assembler with adcBufSize := fun _ => 0 }

/-- The stream reset: the head and every lane on slot 0, no partial packet. -/
def restart : Assembler :=
  { assembler with head := 0, adcBuf := fun _ => 0, adcBufSize := fun _ => 0 }

/-- The module's zeroed memory; the rings hold whatever they held. -/
def init (buf : Nat → Packet) : Assembler where
  head := 0
  adcBuf := fun _ => 0
  adcBufSize := fun _ => 0
  cc := fun _ => 0
  jumpDiscont := fun _ => false
  buf := buf

end Assembler

/-! ## Slots owned -/

namespace Assembler

variable {assembler following : Assembler} {ring full slot : Nat} {lane other : Fin 4}
  {sub : SubBuffer} {source : Nat → Sample} {offset : Nat} {copied : Bool}

instance (slot : Nat) : Decidable (Unowned assembler.owned lane slot) :=
  inferInstanceAs (Decidable (∀ other, other ≠ lane → slot ∉ assembler.owned other))

/-- A lane owns the slot it fills. -/
theorem mem_owned :
    slot ∈ assembler.owned lane ↔ assembler.Filling lane ∧ assembler.adcBuf lane = slot := by
  unfold owned Filling
  split
  · next hidle => simp [hidle]
  · next hfilling => simp [hfilling]

/-- Every lane that fills a slot is alone in it and the slot is not held, exactly when the lanes own
their slots exclusively and apart from what is held. -/
theorem exclusive_iff {held : Nat → Prop} :
    (∀ lane, assembler.Filling lane →
        (∀ other, other ≠ lane → assembler.Filling other →
          assembler.adcBuf other ≠ assembler.adcBuf lane) ∧ ¬held (assembler.adcBuf lane)) ↔
      Exclusive assembler.owned ∧ Apart assembler.owned held := by
  constructor
  · intro h
    constructor
    · intro first second slot hfirst hsecond
      by_contra hne
      obtain ⟨hfilling, rfl⟩ := mem_owned.mp hfirst
      obtain ⟨hother, hsame⟩ := mem_owned.mp hsecond
      exact (h first hfilling).1 second (Ne.symm hne) hother hsame
    · intro lane slot howns
      obtain ⟨hfilling, rfl⟩ := mem_owned.mp howns
      exact (h lane hfilling).2
  · rintro ⟨hexclusive, hapart⟩ lane hfilling
    have howns := mem_owned.mpr ⟨hfilling, rfl⟩
    refine ⟨fun other hne hother hsame => ?_, hapart howns⟩
    exact hexclusive.unowned howns hne (mem_owned.mpr ⟨hother, hsame⟩)

/-- A packet is begun or continued in the lane's slot. -/
theorem owned_append (hsize : sub.size ≠ 0) :
    (assembler.append lane sub source offset copied).owned =
      Function.update assembler.owned lane (some (assembler.adcBuf lane)) := by
  funext other
  by_cases hsame : other = lane
  · subst hsame
    simp [owned, append, hsize]
  · simp [owned, append, hsame]

/-- A lane whose write position is set to 0 owns nothing, and the others what they did. -/
theorem mem_owned_of_clear (hsize : following.adcBufSize lane = 0)
    (hothers : ∀ other, other ≠ lane → following.adcBufSize other = assembler.adcBufSize other ∧
      following.adcBuf other = assembler.adcBuf other)
    (howns : slot ∈ following.owned other) : other ≠ lane ∧ slot ∈ assembler.owned other := by
  obtain ⟨hfilling, hslot⟩ := mem_owned.mp howns
  have hne : other ≠ lane := by
    intro hsame
    exact hfilling (hsame ▸ hsize)
  obtain ⟨hothersize, hotherslot⟩ := hothers other hne
  refine ⟨hne, mem_owned.mpr ⟨?_, hotherslot ▸ hslot⟩⟩
  rw [Filling, ← hothersize]
  exact hfilling

/-- After a ship only the other lanes own what they did. -/
theorem mem_owned_ship (howns : slot ∈ (assembler.ship ring lane).owned other) :
    other ≠ lane ∧ slot ∈ assembler.owned other := by
  refine mem_owned_of_clear ?_ ?_ howns
  · simp [ship, mint, clear, advance]
  · intro third hne
    simp [ship, mint, clear, advance, hne]

/-- After a partial packet is dropped only the other lanes own what they did. -/
theorem mem_owned_clear (howns : slot ∈ (assembler.clear lane).owned other) :
    other ≠ lane ∧ slot ∈ assembler.owned other := by
  refine mem_owned_of_clear ?_ ?_ howns
  · simp [clear]
  · intro third hne
    simp [clear, hne]

/-- After a packet is dropped and the lane moves on, only the others own what they did. -/
theorem mem_owned_advance
    (howns : slot ∈ ((assembler.clear lane).advance ring lane).owned other) :
    other ≠ lane ∧ slot ∈ assembler.owned other := by
  refine mem_owned_of_clear ?_ ?_ howns
  · simp [clear, advance]
  · intro third hne
    simp [clear, advance, hne]

/-- With no partial packet nothing is owned. -/
theorem owned_of_clear (hsize : assembler.adcBufSize = fun _ => 0) :
    assembler.owned = fun _ => none := by
  funext lane
  simp [owned, hsize]

end Assembler

end RfnmDriver.Rx
