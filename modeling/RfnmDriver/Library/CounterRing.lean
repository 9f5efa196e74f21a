import Mathlib.Data.BitVec
import Mathlib.Data.List.Basic
import Mathlib.Data.Nat.ModEq
import Mathlib.Logic.Function.Basic

/-!
# Rings with free-running counters

A bounded queue between one producer and one consumer: both count modulo `2 ^ width`, neither
counter is ever folded into the ring, and the slot of a counter is what it leaves modulo the
capacity. A `Ledger` keeps beside the ring a record of all that was ever put into it, with its
author, and of how much of it was taken. What the ring holds is what the record says is still
waiting (`Intact`): nothing that waits is ever overwritten. That needs the capacity to divide the
modulus, and room when an entry is put in; it does not need the counters to start anywhere.
-/

namespace CounterRing

/-- The two counters, and the slots by number. -/
structure Ring (Entry : Type*) (width cap : ℕ) where
  prod : BitVec width
  cons : BitVec width
  slots : ℕ → Entry

variable {Entry Author : Type*} {width cap : ℕ}

namespace Ring

/-- How many entries wait, as the producer works it out. -/
def occupancy (ring : Ring Entry width cap) : ℕ :=
  (ring.prod - ring.cons).toNat

/-- The slot of a counter. -/
def entryAt (ring : Ring Entry width cap) (counter : BitVec width) : Entry :=
  ring.slots (counter.toNat % cap)

/-- The entries that wait, the oldest first. -/
def entries (ring : Ring Entry width cap) : List Entry :=
  (List.range ring.occupancy).map fun ahead => ring.entryAt (ring.cons + BitVec.ofNat width ahead)

/-- The producer fills the slot it is at. -/
def write (ring : Ring Entry width cap) (entry : Entry) : Ring Entry width cap :=
  { ring with slots := Function.update ring.slots (ring.prod.toNat % cap) entry }

/-- The producer lets the consumer see the slot it is at. -/
def publish (ring : Ring Entry width cap) : Ring Entry width cap :=
  { ring with prod := ring.prod + 1 }

/-- The consumer is done with the slot it is at. -/
def take (ring : Ring Entry width cap) : Ring Entry width cap :=
  { ring with cons := ring.cons + 1 }

variable {ring : Ring Entry width cap} {entry : Entry} {ahead : ℕ}

@[simp]
theorem occupancy_write : (ring.write entry).occupancy = ring.occupancy := rfl

@[simp]
theorem prod_write : (ring.write entry).prod = ring.prod := rfl

@[simp]
theorem cons_write : (ring.write entry).cons = ring.cons := rfl

@[simp]
theorem entryAt_publish (counter : BitVec width) :
    ring.publish.entryAt counter = ring.entryAt counter := rfl

@[simp]
theorem entryAt_take (counter : BitVec width) :
    ring.take.entryAt counter = ring.entryAt counter := rfl

/-- The slot just filled. -/
@[simp]
theorem entryAt_write_prod : (ring.write entry).entryAt ring.prod = entry :=
  Function.update_self ..

/-- No entry waits exactly where the counters agree. -/
theorem occupancy_eq_zero_iff : ring.occupancy = 0 ↔ ring.cons = ring.prod := by
  unfold occupancy
  constructor
  · intro h
    exact (sub_eq_zero.mp (BitVec.eq_of_toNat_eq h)).symm
  · intro h
    rw [h, BitVec.sub_self]
    rfl

@[simp]
theorem length_entries : ring.entries.length = ring.occupancy := by
  simp [entries]

/-- The producer is as many entries ahead of the consumer as wait. -/
theorem cons_add_occupancy : ring.cons + BitVec.ofNat width ring.occupancy = ring.prod := by
  unfold occupancy
  rw [BitVec.ofNat_toNat, BitVec.setWidth_eq]
  exact add_sub_cancel ring.cons ring.prod

/-- When the capacity divides the modulus, a wrap of the counter does not disturb its slot. -/
theorem add_mod (hcap : cap ∣ 2 ^ width) (counter : BitVec width) (ahead : ℕ) :
    (counter + BitVec.ofNat width ahead).toNat % cap = (counter.toNat + ahead) % cap := by
  rw [BitVec.toNat_add, BitVec.toNat_ofNat, Nat.add_mod_mod, Nat.mod_mod_of_dvd _ hcap]

/-- The slot the producer is at is not the slot of an entry that waits. -/
theorem slot_ne_of_room (hcap : cap ∣ 2 ^ width) (hroom : ring.occupancy < cap)
    (hahead : ahead < ring.occupancy) :
    (ring.cons + BitVec.ofNat width ahead).toNat % cap ≠ ring.prod.toNat % cap := by
  intro h
  rw [← cons_add_occupancy, add_mod hcap, add_mod hcap] at h
  have hsame : ahead ≡ ring.occupancy [MOD cap] := Nat.ModEq.add_left_cancel' _ h
  have heq : ahead = ring.occupancy :=
    hsame.eq_of_lt_of_lt (hahead.trans hroom) hroom
  omega

/-- A slot filled where there is room leaves what waits alone. -/
theorem entries_write (hcap : cap ∣ 2 ^ width) (hroom : ring.occupancy < cap) :
    (ring.write entry).entries = ring.entries := by
  refine List.map_congr_left fun ahead hahead => ?_
  have hne := slot_ne_of_room hcap hroom (List.mem_range.mp hahead)
  exact Function.update_of_ne hne ..

/-- One more entry waits. -/
theorem occupancy_publish (hroom : ring.occupancy + 1 < 2 ^ width) :
    ring.publish.occupancy = ring.occupancy + 1 := by
  have hnext : ring.prod + 1 - ring.cons = ring.prod - ring.cons + BitVec.ofNat width 1 := by
    rw [add_sub_right_comm]
    rfl
  unfold occupancy at hroom ⊢
  rw [publish, hnext, BitVec.toNat_add, BitVec.toNat_ofNat, Nat.add_mod_mod]
  exact Nat.mod_eq_of_lt hroom

/-- The entry that becomes visible waits behind all others. -/
theorem entries_publish (hroom : ring.occupancy + 1 < 2 ^ width) :
    ring.publish.entries = ring.entries ++ [ring.entryAt ring.prod] := by
  unfold entries
  rw [occupancy_publish hroom, List.range_succ, List.map_append, List.map_singleton, entryAt_publish]
  have hlast : ring.cons + BitVec.ofNat width ring.occupancy = ring.prod := cons_add_occupancy
  rw [show ring.publish.cons = ring.cons from rfl, hlast]
  rfl

/-- One entry fewer waits. -/
theorem occupancy_take (hnonempty : ring.cons ≠ ring.prod) :
    ring.take.occupancy + 1 = ring.occupancy := by
  have hpos : ring.occupancy ≠ 0 := fun h => hnonempty (occupancy_eq_zero_iff.mp h)
  have hnext : ring.prod - ring.cons =
      ring.prod - (ring.cons + 1) + BitVec.ofNat width 1 := by
    rw [← sub_sub]
    exact (sub_add_cancel _ _).symm
  unfold occupancy at hpos ⊢
  rw [hnext, BitVec.toNat_add, BitVec.toNat_ofNat, Nat.add_mod_mod] at hpos ⊢
  have hlt := (ring.prod - (ring.cons + 1)).isLt
  rcases Nat.lt_or_ge ((ring.prod - (ring.cons + 1)).toNat + 1) (2 ^ width) with hsmall | hwrap
  · exact (Nat.mod_eq_of_lt hsmall).symm
  · rw [show (ring.prod - (ring.cons + 1)).toNat + 1 = 2 ^ width by omega, Nat.mod_self] at hpos
    exact absurd rfl hpos

/-- The entry the consumer is done with was the oldest. -/
theorem entries_eq_cons (hnonempty : ring.cons ≠ ring.prod) :
    ring.entries = ring.entryAt ring.cons :: ring.take.entries := by
  unfold entries
  rw [← occupancy_take hnonempty, List.range_succ_eq_map, List.map_cons, List.map_map]
  congr 1
  · rw [BitVec.add_zero]
  · refine List.map_congr_left fun ahead _ => ?_
    have hshift : ring.cons + BitVec.ofNat width (ahead + 1) =
        ring.take.cons + BitVec.ofNat width ahead := by
      rw [take, add_assoc, Nat.add_comm, BitVec.ofNat_add]
      rfl
    exact congrArg ring.entryAt hshift

end Ring

/-- A ring with the record of it: what was put in, by whom, and how much was taken. -/
structure Ledger (Entry Author : Type*) (width cap : ℕ) where
  ring : Ring Entry width cap
  log : List (Author × Entry)
  taken : ℕ

namespace Ledger

/-- The record starts with the entries that wait in the ring. -/
def start (author : Author) (ring : Ring Entry width cap) : Ledger Entry Author width cap where
  ring := ring
  log := ring.entries.map (Prod.mk author)
  taken := 0

/-- The producer fills the slot it is at. -/
def write (ledger : Ledger Entry Author width cap) (entry : Entry) :
    Ledger Entry Author width cap :=
  { ledger with ring := ledger.ring.write entry }

/-- The producer lets the consumer see the slot it is at. -/
def publish (ledger : Ledger Entry Author width cap) (author : Author) :
    Ledger Entry Author width cap :=
  { ledger with
    ring := ledger.ring.publish
    log := ledger.log ++ [(author, ledger.ring.entryAt ledger.ring.prod)] }

/-- The consumer is done with the slot it is at. -/
def take (ledger : Ledger Entry Author width cap) : Ledger Entry Author width cap :=
  { ledger with ring := ledger.ring.take, taken := ledger.taken + 1 }

/-- What an author put into the ring. -/
def addedBy [DecidableEq Author] (ledger : Ledger Entry Author width cap) (author : Author) :
    List Entry :=
  (ledger.log.filter fun added => added.1 = author).map Prod.snd

/-- What waits in the ring is what was put in and not taken, in order. -/
structure Intact (ledger : Ledger Entry Author width cap) : Prop where
  taken_le : ledger.taken ≤ ledger.log.length
  entries : ledger.ring.entries = (ledger.log.drop ledger.taken).map Prod.snd

variable {ledger : Ledger Entry Author width cap} {entry : Entry} {author other : Author}

theorem intact_start (ring : Ring Entry width cap) : (start author ring).Intact where
  taken_le := Nat.zero_le _
  entries := by simp [start, Function.comp_def]

/-- A slot filled where there is room overwrites nothing that waits. -/
theorem Intact.write (h : ledger.Intact) (hcap : cap ∣ 2 ^ width)
    (hroom : ledger.ring.occupancy < cap) : (ledger.write entry).Intact where
  taken_le := h.taken_le
  entries := (Ring.entries_write hcap hroom).trans h.entries

/-- An entry made visible joins what waits. -/
theorem Intact.publish (h : ledger.Intact) (hroom : ledger.ring.occupancy + 1 < 2 ^ width) :
    (ledger.publish author).Intact where
  taken_le := by
    have htaken := h.taken_le
    simp only [Ledger.publish, List.length_append, List.length_singleton]
    omega
  entries := by
    simp only [Ledger.publish]
    rw [Ring.entries_publish hroom, h.entries, List.drop_append_of_le_length h.taken_le,
      List.map_append]
    rfl

/-- An entry that is taken leaves the others waiting. -/
theorem Intact.take (h : ledger.Intact) (hnonempty : ledger.ring.cons ≠ ledger.ring.prod) :
    ledger.take.Intact := by
  have hentries := h.entries
  rw [Ring.entries_eq_cons hnonempty] at hentries
  have hlt : ledger.taken < ledger.log.length := by
    by_contra hge
    rw [List.drop_of_length_le (by omega)] at hentries
    cases hentries
  rw [List.drop_eq_getElem_cons hlt, List.map_cons] at hentries
  exact { taken_le := hlt, entries := (List.cons.inj hentries).2 }

section AddedBy

variable [DecidableEq Author]

@[simp]
theorem addedBy_write : (ledger.write entry).addedBy author = ledger.addedBy author := rfl

@[simp]
theorem addedBy_take : ledger.take.addedBy author = ledger.addedBy author := rfl

/-- An entry belongs to the one who made it visible. -/
theorem addedBy_publish : (ledger.publish author).addedBy author =
    ledger.addedBy author ++ [ledger.ring.entryAt ledger.ring.prod] := by
  simp [addedBy, publish]

/-- An entry does not belong to anybody else. -/
theorem addedBy_publish_of_ne (hne : author ≠ other) :
    (ledger.publish author).addedBy other = ledger.addedBy other := by
  simp [addedBy, publish, hne]

/-- What waits at the start belongs to its author alone. -/
theorem addedBy_start_of_ne (ring : Ring Entry width cap) (hne : author ≠ other) :
    (start author ring).addedBy other = [] := by
  simp [addedBy, start, hne]

end AddedBy

end Ledger

end CounterRing
