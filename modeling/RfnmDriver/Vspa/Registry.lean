import Mathlib.Data.List.Nodup
import Mathlib.Logic.Function.Basic
import RfnmDriver.Library.StepSystem
import RfnmDriver.Vspa.Image

/-!
# What the VSPA registry holds

`rfnm_vspa_registry_register` checks an image outside the lock, and then writes the entry of its
name in place: the old blob is freed, the new one allocated and filled. When the allocation fails
and the name is registered already, the entry stays visible without a blob.
`registry_sound_iff_affordable` says that nothing else goes wrong.
-/

namespace RfnmDriver.Vspa

open StepSystem

/-- A file name, without the terminating zero. -/
abbrev FwName := List Byte

/-- `struct rfnm_vspa_reg_entry`. -/
structure RegEntry where
  fwname : FwName
  id : Ident
  /-- The bytes of the image; none for `NULL`. -/
  blob : Option (List Byte)
  size : Nat
  deriving DecidableEq, Repr

/-- `rfnm_vspa_reg`, as far as `rfnm_vspa_reg_cnt` makes it visible. -/
abbrev RegTable := List RegEntry

/-- `RFNM_VSPA_REG_MAX`. -/
def regMax : Nat := 8

/-- `sizeof(e->fwname)`. -/
def fwnameSize : Nat := 64

def eNoDev : Int := 19

def eNameTooLong : Int := 36

def eInval : Int := 22

def eNoSpc : Int := 28

def eNoMem : Int := 12

/-- A call of `rfnm_vspa_registry_register`, with what it finds. -/
structure Registration where
  fwname : FwName
  /-- `get_la9310_dev_byname` finds the device. -/
  device : Bool
  /-- What `request_firmware` reads, or its error. -/
  firmware : Except { rc : Int // rc ≠ 0 } Firmware
  /-- `kvmalloc` succeeds. -/
  allocated : Bool

/-- The entry of an image. -/
def Firmware.entry (image : Firmware) (fwname : FwName) (id : Ident) : RegEntry where
  fwname := fwname
  id := id
  blob := some image.data
  size := image.data.length % 4294967296

/-- Where a name is in the table; behind its last entry if it is not there. -/
def RegTable.place (table : RegTable) (fwname : FwName) : Nat :=
  table.findIdx fun e => e.fwname == fwname

/-- `rfnm_vspa_registry_register`, under the lock. -/
def RegTable.enter (table : RegTable) (fwname : FwName) (image : Firmware) (id : Ident)
    (allocated : Bool) : Int × RegTable :=
  let i := table.place fwname
  if i = table.length ∧ table.length = regMax then (-eNoSpc, table)
  else
    let freed := table.modify i fun e => { e with blob := none }
    if !allocated then (-eNoMem, freed)
    else if i = table.length then (0, table ++ [image.entry fwname id])
    else (0, freed.set i (image.entry fwname id))

/-- `rfnm_vspa_registry_register`: what it returns, and the table after it. -/
def RegTable.register (table : RegTable) (call : Registration) : Int × RegTable :=
  if !call.device then (-eNoDev, table)
  else if call.fwname.length ≥ fwnameSize then (-eNameTooLong, table)
  else
    match call.firmware with
    | .error rc => (rc, table)
    | .ok image =>
        match checked image.data with
        | none => (-eInval, table)
        | some id => table.enter call.fwname image id call.allocated

/-- The table, and beside it the last image that was registered under each name. -/
structure Ledger where
  table : RegTable
  last : FwName → Option Firmware

/-- The image of a call that returns no error is the last one of its name. -/
def Ledger.note (ledger : Ledger) (call : Registration) : FwName → Option Firmware :=
  match call.firmware with
  | .error _ => ledger.last
  | .ok image =>
      if (ledger.table.register call).1 = 0 then
        Function.update ledger.last call.fwname (some image)
      else ledger.last

/-- One call. -/
def Ledger.next (ledger : Ledger) (call : Registration) : Option Ledger :=
  some ⟨(ledger.table.register call).2, ledger.note call⟩

/-- Nothing is registered. -/
def Ledger.blank : Ledger := ⟨[], fun _ => none⟩

/-- Names are unique, and every visible entry is the last image registered under its name, which
passed the checks. -/
structure Ledger.Whole (ledger : Ledger) : Prop where
  nodup : (ledger.table.map RegEntry.fwname).Nodup
  entries : ∀ e ∈ ledger.table, ∃ image, ledger.last e.fwname = some image ∧
    e.blob = some image.data ∧ e.size = image.data.length ∧ Stamped image.data e.id

/-- A call leaves the registry whole, and unchanged if it returns an error. -/
structure Ledger.Sound (ledger : Ledger) (call : Registration) (following : Ledger) : Prop where
  whole : following.Whole
  unchanged : (ledger.table.register call).1 ≠ 0 → following.table = ledger.table

/-- The call comes to the allocation with this identity. -/
def Registration.Accepted (call : Registration) (image : Firmware) (id : Ident) : Prop :=
  call.device = true ∧ call.fwname.length < fwnameSize ∧ call.firmware = .ok image ∧
    checked image.data = some id

/-- The name is registered. -/
def RegTable.Has (table : RegTable) (fwname : FwName) : Prop :=
  ∃ e ∈ table, e.fwname = fwname

/-- There is memory for an image that replaces another. -/
def Ledger.Affordable (ledger : Ledger) (call : Registration) : Prop :=
  ∀ image id, call.Accepted image id → ledger.table.Has call.fwname → call.allocated = true

/-! ## What one call does -/

/-- The ends of a call. -/
inductive Registered (table : RegTable) (call : Registration) : Int → RegTable → Prop
  /-- An error before the entry is touched, or about an entry that is not visible. -/
  | refused {ret : Int} (hret : ret ≠ 0)
      (hfree : ∀ image id, call.Accepted image id → ¬ table.Has call.fwname) :
      Registered table call ret table
  /-- The blob of a visible entry is freed, and there is no other. -/
  | lost {image : Firmware} {id : Ident} (haccepted : call.Accepted image id)
      (hhas : table.Has call.fwname) (hmemory : call.allocated = false) :
      Registered table call (-eNoMem)
        (table.modify (table.place call.fwname) fun e => { e with blob := none })
  | added {image : Firmware} {id : Ident} (haccepted : call.Accepted image id)
      (hnew : ¬ table.Has call.fwname) :
      Registered table call 0 (table ++ [image.entry call.fwname id])
  | replaced {image : Firmware} {id : Ident} (haccepted : call.Accepted image id)
      (hhas : table.Has call.fwname) (hmemory : call.allocated = true) :
      Registered table call 0
        (table.set (table.place call.fwname) (image.entry call.fwname id))

variable {table : RegTable} {call : Registration} {ledger following : Ledger}

/-- A registered name has a place in the table. -/
theorem has_iff (table : RegTable) (fwname : FwName) :
    table.Has fwname ↔ table.place fwname < table.length := by
  unfold RegTable.Has RegTable.place
  rw [List.findIdx_lt_length]
  simp

/-- The entry at the place of a name bears it. -/
theorem fwname_place {fwname : FwName} (h : table.place fwname < table.length) :
    (table[table.place fwname]).fwname = fwname := by
  have hfound : ((table[table.place fwname]).fwname == fwname) = true :=
    List.findIdx_getElem (w := h)
  exact eq_of_beq hfound

/-- An accepted image is the only one that its call can be accepted with. -/
theorem Registration.Accepted.unique {image other : Firmware} {id otherId : Ident}
    (h : call.Accepted image id) (hother : call.Accepted other otherId) :
    other = image ∧ otherId = id := by
  obtain ⟨-, -, hfirmware, hid⟩ := h
  obtain ⟨-, -, hotherFirmware, hotherId⟩ := hother
  rw [hfirmware] at hotherFirmware
  obtain rfl := Except.ok.inj hotherFirmware
  rw [hid] at hotherId
  exact ⟨rfl, (Option.some.inj hotherId).symm⟩

/-- A freed blob leaves no trace in an entry that is written. -/
theorem set_modify (table : RegTable) (i : Nat) (freed : RegEntry → RegEntry) (e : RegEntry) :
    (table.modify i freed).set i e = table.set i e := by
  refine List.ext_getElem? fun k => ?_
  rw [List.getElem?_set, List.getElem?_set, List.length_modify]
  by_cases hk : i = k
  · simp [hk]
  · simp [hk, List.getElem?_modify_ne _ _ hk]

/-- An accepted image comes to one of four ends. -/
theorem registered_enter {image : Firmware} {id : Ident} (haccepted : call.Accepted image id) :
    Registered table call (table.enter call.fwname image id call.allocated).1
      (table.enter call.fwname image id call.allocated).2 := by
  have hplace := has_iff table call.fwname
  have hle : table.place call.fwname ≤ table.length := List.findIdx_le_length
  unfold RegTable.enter
  dsimp only
  split
  case isTrue hfull =>
    show Registered table call (-eNoSpc) table
    refine .refused (by decide) fun _ _ _ hhas => ?_
    have hlt := hplace.mp hhas
    omega
  case isFalse hfree =>
    -- an old entry is emptied before its blob is allocated, so a failure loses it
    cases hmemory : call.allocated with
    | false =>
        by_cases hhas : table.Has call.fwname
        · exact .lost haccepted hhas hmemory
        · -- the entry that loses its blob is the one behind the last
          have hbehind : table.length ≤ table.place call.fwname := by
            rw [hplace] at hhas
            omega
          simp only [Bool.not_false, if_true]
          rw [List.modify_eq_self hbehind]
          show Registered table call (-eNoMem) table
          exact .refused (by decide) fun _ _ _ => hhas
    | true =>
        simp only [Bool.not_true, Bool.false_eq_true, if_false]
        split
        case isTrue hnew =>
          refine .added haccepted fun hhas => ?_
          have hlt := hplace.mp hhas
          omega
        case isFalse hold =>
          rw [set_modify]
          exact .replaced haccepted (hplace.mpr (by omega)) hmemory

/-- A call comes to one of four ends. -/
theorem registered (table : RegTable) (call : Registration) :
    Registered table call (table.register call).1 (table.register call).2 := by
  unfold RegTable.register
  -- the checks in their order; a call that fails one is not accepted
  split
  case isTrue hdevice =>
    show Registered table call (-eNoDev) table
    refine .refused (by decide) fun _ _ haccepted => ?_
    simp [haccepted.1] at hdevice
  case isFalse hdevice =>
    split
    case isTrue hlong =>
      show Registered table call (-eNameTooLong) table
      refine .refused (by decide) fun _ _ haccepted => ?_
      exact absurd hlong (Nat.not_le.mpr haccepted.2.1)
    case isFalse hshort =>
      cases hfirmware : call.firmware with
      | error rc =>
          refine .refused rc.2 fun _ _ haccepted => ?_
          have hread := haccepted.2.2.1
          rw [hfirmware] at hread
          cases hread
      | ok image =>
          dsimp only
          cases hid : checked image.data with
          | none =>
              show Registered table call (-eInval) table
              refine .refused (by decide) fun other id haccepted => ?_
              obtain ⟨-, -, hread, hchecked⟩ := haccepted
              rw [hfirmware] at hread
              obtain rfl := Except.ok.inj hread
              rw [hid] at hchecked
              cases hchecked
          | some id =>
              exact registered_enter
                ⟨by simpa using hdevice, Nat.lt_of_not_le hshort, hfirmware, hid⟩

/-! ## What the registry keeps -/

/-- The ledger after a call that returns no error. -/
theorem note_of_ok {image : Firmware} {id : Ident} (haccepted : call.Accepted image id)
    (hret : (ledger.table.register call).1 = 0) :
    ledger.note call = Function.update ledger.last call.fwname (some image) := by
  unfold Ledger.note
  rw [haccepted.2.2.1]
  simp only [hret, if_true]

/-- The ledger after a call that returns an error. -/
theorem note_of_error (hret : (ledger.table.register call).1 ≠ 0) :
    ledger.note call = ledger.last := by
  unfold Ledger.note
  split
  · rfl
  · rw [if_neg hret]

/-- The entry of an accepted image is that image. -/
theorem entry_whole {image : Firmware} {id : Ident} (haccepted : call.Accepted image id)
    (last : FwName → Option Firmware) :
    ∃ found, Function.update last call.fwname (some image) (image.entry call.fwname id).fwname =
        some found ∧ (image.entry call.fwname id).blob = some found.data ∧
      (image.entry call.fwname id).size = found.data.length ∧
        Stamped found.data (image.entry call.fwname id).id := by
  refine ⟨image, Function.update_self _ _ _, rfl, ?_, checked_iff.mp haccepted.2.2.2⟩
  have hlength := image.length_lt
  exact Nat.mod_eq_of_lt (by omega)

/-- A new name goes behind the others. -/
theorem Ledger.Whole.added (h : ledger.Whole) {image : Firmware} {id : Ident}
    (haccepted : call.Accepted image id) (hnew : ¬ ledger.table.Has call.fwname) :
    Ledger.Whole ⟨ledger.table ++ [image.entry call.fwname id],
      Function.update ledger.last call.fwname (some image)⟩ := by
  constructor
  · rw [List.map_append, List.map_singleton, List.nodup_append]
    refine ⟨h.nodup, List.nodup_singleton _, fun name hname other hother => ?_⟩
    obtain ⟨e, he, rfl⟩ := List.mem_map.mp hname
    obtain rfl := List.mem_singleton.mp hother
    exact fun hsame => hnew ⟨e, he, hsame⟩
  · intro e he
    rcases List.mem_append.mp he with hold | hlast
    · have hother : e.fwname ≠ call.fwname := fun hsame => hnew ⟨e, hold, hsame⟩
      obtain ⟨found, hfound, hwhole⟩ := h.entries e hold
      exact ⟨found, (Function.update_of_ne hother _ _).trans hfound, hwhole⟩
    · obtain rfl := List.mem_singleton.mp hlast
      exact entry_whole haccepted ledger.last

/-- An entry written in place of one with its name leaves the names. -/
theorem fwnames_set {table : RegTable} {fwname : FwName} {e : RegEntry}
    (hplace : table.place fwname < table.length) (he : e.fwname = fwname) :
    (table.set (table.place fwname) e).map RegEntry.fwname = table.map RegEntry.fwname := by
  have hmapped : table.place fwname < (table.map RegEntry.fwname).length := by
    rwa [List.length_map]
  have hget : (table.map RegEntry.fwname)[table.place fwname] = fwname := by
    rw [List.getElem_map, fwname_place hplace]
  rw [List.map_set, he]
  nth_rewrite 2 [← hget]
  exact List.set_getElem_self hmapped

/-- Where the names are unique, the entry with a name is the one at its place. -/
theorem place_of_fwname {table : RegTable} {fwname : FwName}
    (hnodup : (table.map RegEntry.fwname).Nodup) (hplace : table.place fwname < table.length)
    {k : Nat} (hk : k < table.length) (hname : table[k].fwname = fwname) :
    table.place fwname = k := by
  have hfirst : table.place fwname < (table.map RegEntry.fwname).length := by
    rwa [List.length_map]
  have hlast : k < (table.map RegEntry.fwname).length := by
    rwa [List.length_map]
  have hmapped : (table.map RegEntry.fwname)[table.place fwname] =
      (table.map RegEntry.fwname)[k] := by
    rw [List.getElem_map, List.getElem_map, fwname_place hplace, hname]
  exact (List.Nodup.getElem_inj_iff hnodup).mp hmapped

/-- A registered name keeps its place. -/
theorem Ledger.Whole.replaced (h : ledger.Whole) {image : Firmware} {id : Ident}
    (haccepted : call.Accepted image id) (hhas : ledger.table.Has call.fwname) :
    Ledger.Whole ⟨ledger.table.set (ledger.table.place call.fwname)
        (image.entry call.fwname id),
      Function.update ledger.last call.fwname (some image)⟩ := by
  have hplace := (has_iff ledger.table call.fwname).mp hhas
  constructor
  · rw [fwnames_set hplace rfl]
    exact h.nodup
  · intro e he
    obtain ⟨k, hk, rfl⟩ := List.mem_iff_getElem.mp he
    rw [List.getElem_set]
    split
    · exact entry_whole haccepted ledger.last
    case isFalse hother =>
      rw [List.length_set] at hk
      obtain ⟨found, hfound, hwhole⟩ := h.entries _ (List.getElem_mem hk)
      have hne : ledger.table[k].fwname ≠ call.fwname :=
        fun hsame => hother (place_of_fwname h.nodup hplace hk hsame)
      exact ⟨found, (Function.update_of_ne hne _ _).trans hfound, hwhole⟩

/-- A step of a whole registry is sound exactly when it is affordable. -/
theorem next_sound_iff (ledger : Ledger) (call : Registration) (following : Ledger)
    (h : ledger.Whole) (hnext : ledger.next call = some following) :
    ledger.Sound call following ↔ ledger.Affordable call := by
  obtain rfl := Option.some.inj hnext
  have hregistered := registered ledger.table call
  obtain ⟨ret, hret⟩ : ∃ ret, (ledger.table.register call).1 = ret := ⟨_, rfl⟩
  obtain ⟨table, htable⟩ : ∃ table, (ledger.table.register call).2 = table := ⟨_, rfl⟩
  rw [hret, htable] at hregistered
  rw [htable]
  cases hregistered with
  | refused hne hfree =>
      rw [note_of_error (hret ▸ hne)]
      refine ⟨fun _ image id haccepted hhas => absurd hhas (hfree image id haccepted),
        fun _ => ⟨h, fun _ => rfl⟩⟩
  | lost haccepted hhas hmemory =>
      -- the entry had a blob, so a visible entry has changed
      have hplace := (has_iff ledger.table call.fwname).mp hhas
      constructor
      · intro hsound
        exfalso
        have hsame := hsound.unchanged (by rw [hret]; decide)
        have hlost : (ledger.table[ledger.table.place call.fwname]).blob = none := by
          have hget := congrArg (·[ledger.table.place call.fwname]?) hsame
          simp only [List.getElem?_modify_eq, List.getElem?_eq_getElem hplace] at hget
          exact congrArg RegEntry.blob (Option.some.inj hget).symm
        obtain ⟨image, -, hblob, -⟩ := h.entries _ (List.getElem_mem hplace)
        rw [hlost] at hblob
        cases hblob
      · intro haffordable
        have hallocated := haffordable _ _ haccepted hhas
        rw [hmemory] at hallocated
        cases hallocated
  | added haccepted hnew =>
      rw [note_of_ok haccepted hret]
      exact ⟨fun _ _ _ _ hhas => absurd hhas hnew,
        fun _ => ⟨h.added haccepted hnew, fun hne => absurd hret hne⟩⟩
  | replaced haccepted hhas hmemory =>
      rw [note_of_ok haccepted hret]
      exact ⟨fun _ _ _ _ _ => hmemory,
        fun _ => ⟨h.replaced haccepted hhas, fun hne => absurd hret hne⟩⟩

/-- From an empty registry on, every call leaves every visible entry what was registered last under
its name, and an error leaves everything as it was, exactly as long as there is memory for the
images that replace others. -/
theorem registry_sound_iff_affordable (calls : List Registration) :
    EveryStep Ledger.next Ledger.Sound .blank calls ↔
      Guarded Ledger.next Ledger.Affordable .blank calls := by
  refine everyStep_iff_guarded next_sound_iff (fun _ _ _ _ hsound _ => hsound.whole) ?_
  exact ⟨List.nodup_nil, fun e he => absurd he List.not_mem_nil⟩

/-- A small image is registered, if there is memory for it. -/
def registerSample (caps : Nat) (allocated : Bool) : Registration where
  fwname := [0x61]
  device := true
  firmware := .ok (stampedFirmware caps)
  allocated := allocated

/-- An image is registered again, and there is no memory for its blob: the call returns an error,
and the visible entry has no blob any more. -/
theorem failed_replacement_drops_blob :
    ¬ EveryStep Ledger.next Ledger.Sound .blank
      [registerSample 3 true, registerSample 3 false] := by
  intro h
  have hsound := ((h _ rfl).2 _ rfl).1
  have hsame := hsound.unchanged (by decide +kernel)
  revert hsame
  decide +kernel

end RfnmDriver.Vspa
