import RfnmDriver.Vspa.Registry

/-!
# What the running image can do

`rfnm_vspa_running_has` answers from the registry entry that `rfnm_vspa_running` names, without the
lock. The core executes the bytes that were in the entry when it was booted. Entry and core part
where a name is registered again with other capabilities, where a fresh endpoint finds nothing to
boot, and, as long as it takes, where a fast boot loads over the image that still is the running
one.
-/

namespace RfnmDriver.Vspa

open StepSystem

/-- `hweight32`. -/
def hweight32 (w : UInt32) : Nat :=
  ((List.range 32).filter fun bit => w.toNat.testBit bit).length

/-- `RFNM_VSPA_CAP_STREAMING_BASE`. -/
def capStreamingBase : UInt32 := 1

/-- `rfnm_vspa_provides`. -/
def RegTable.provides (table : RegTable) (i : Option Nat) (caps : UInt32) : Bool :=
  match i with
  | none => false
  | some i => table[i]?.elim false fun e => e.id.caps &&& caps == caps

/-- The weight of the capabilities of an entry. -/
def RegTable.weight (table : RegTable) (i : Nat) : Nat :=
  table[i]?.elim 0 fun e => hweight32 e.id.caps

/-- The rank of an entry. -/
def RegTable.rank (table : RegTable) (i : Nat) : Nat :=
  table[i]?.elim 0 fun e => e.id.rank.toNat

/-- An entry is preferred to the best one so far. Only `rfnm_vspa_select_for` looks at the rank. -/
def RegTable.preferred (table : RegTable) (byRank : Bool) (i best : Nat) : Bool :=
  decide (table.weight i < table.weight best) ||
    (byRank && decide (table.weight i = table.weight best) &&
      decide (table.rank i < table.rank best))

/-- The loop of `rfnm_vspa_select_for` and of `rfnm_vspa_probe_boot` over the first entries. -/
def RegTable.bestUpTo (table : RegTable) (caps : UInt32) (byRank : Bool) : Nat → Option Nat
  | 0 => none
  | i + 1 =>
      let best := table.bestUpTo caps byRank i
      if table.provides (some i) caps && best.elim true (table.preferred byRank i) then some i
      else best

/-- The registry, and the core. -/
structure Core where
  table : RegTable
  /-- `rfnm_vspa_selected`; none for a negative one. -/
  selected : Option Nat
  /-- `rfnm_vspa_running`; none for a negative one. -/
  running : Option Nat
  /-- The boot that holds the lock has a parked core, and loads this entry. -/
  loading : Option Nat
  /-- The bytes that the core executes, if they are known. -/
  executing : Option (List Byte)
  deriving DecidableEq, Repr

/-- `rfnm_vspa_running_has`. -/
def Core.runningHas (core : Core) (caps : UInt32) : Bool :=
  core.table.provides core.running caps

/-- `rfnm_vspa_registry_register`. -/
def Core.register (core : Core) (call : Registration) : Core :=
  { core with table := (core.table.register call).2 }

/-- `rfnm_vspa_select_for`. -/
def Core.selectFor (core : Core) (caps : UInt32) : Core :=
  if core.runningHas caps then { core with selected := core.running }
  else { core with selected := core.table.bestUpTo caps true core.table.length }

/-- `rfnm_vspa_boot_image_locked` once the core has parked: nothing runs until the start-up. -/
def Core.load (core : Core) (i : Nat) : Core :=
  { core with loading := some i, executing := none }

/-- `rfnm_vspa_boot_selected` up to the load. A core that does not park goes on as before. -/
def Core.bootSelected (core : Core) (device parked : Bool) : Core :=
  match core.selected with
  | none => core
  | some i => if device && parked then core.load i else core

/-- What `rfnm_vspa_probe_boot` boots. -/
def Core.candidate (core : Core) : Option Nat :=
  let kept := core.selected.filter fun i => decide (i < core.table.length)
  kept.or (core.table.bestUpTo capStreamingBase false core.table.length)

/-- `rfnm_vspa_probe_boot` up to the load, on a fresh endpoint with zeroised memories. Where there
is no candidate the prober may start a file that is not in the registry. -/
def Core.probeBoot (core : Core) (parked : Bool) : Core :=
  let fresh := { core with selected := core.candidate, executing := none }
  match core.candidate with
  | none => fresh
  | some i =>
      let cleared := { fresh with running := none }
      if parked then cleared.load i else cleared

/-- The end of `rfnm_vspa_boot_image_locked`. -/
def Core.finish (core : Core) (i : Nat) (booted : Bool) : Option Core :=
  if booted then
    (core.table[i]?.bind RegEntry.blob).map fun data =>
      { core with loading := none, running := some i, executing := some data }
  else some { core with loading := none, running := none }

/-- What happens to the registry and to the core. -/
inductive CoreEvent
  /-- `rfnm_vspa_registry_register`. -/
  | register (call : Registration)
  /-- `rfnm_vspa_select_for`. -/
  | select (caps : UInt32)
  /-- `rfnm_vspa_boot_selected`, with or without a device, and a core that parks or stays busy. -/
  | boot (device parked : Bool)
  /-- `rfnm_vspa_probe_boot`. -/
  | probe (parked : Bool)
  /-- The load and the start-up succeed, or one of them fails. -/
  | finish (booted : Bool)

/-- One step; the lock keeps the others out until a load is finished. -/
def Core.next (core : Core) (event : CoreEvent) : Option Core :=
  match core.loading, event with
  | none, .register call => some (core.register call)
  | none, .select caps => some (core.selectFor caps)
  | none, .boot device parked => some (core.bootSelected device parked)
  | none, .probe parked => some (core.probeBoot parked)
  | some i, .finish booted => core.finish i booted
  | _, _ => none

/-- The module is loaded. -/
def Core.blank : Core := ⟨[], none, none, none, none⟩

/-- The image carries the capabilities in its identity. -/
def Carries (data : List Byte) (caps : UInt32) : Prop :=
  ∃ id, Stamped data id ∧ id.caps &&& caps = caps

/-- The answers are those of the image that the core executes. -/
def Core.Answers (core : Core) : Prop :=
  ∀ caps, core.runningHas caps = true ↔ ∃ data, core.executing = some data ∧ Carries data caps

/-- They are when no boot is at work. -/
def Core.AnswersAtRest (core : Core) : Prop :=
  core.loading = none → core.Answers

/-- The running image is not registered again with other capabilities, and no fresh endpoint is
without a candidate while an image counts as the running one. -/
def Core.Steady (core : Core) : CoreEvent → Prop
  | .register call => ∀ image id i e, call.Accepted image id → call.allocated = true →
      core.running = some i → i = core.table.place call.fwname → core.table[i]? = some e →
        id.caps = e.id.caps
  | .probe _ => core.candidate = none → core.running = none
  | _ => True

/-- A fast boot loads only while no image counts as the running one. -/
def Core.Unloaded (core : Core) : CoreEvent → Prop
  | .boot device parked => device = true → parked = true → core.selected ≠ none →
      core.running = none
  | _ => True

/-! ## Selections -/

/-- The best provider is a provider. -/
theorem provides_bestUpTo {table : RegTable} {caps : UInt32} {byRank : Bool} {n i : Nat}
    (h : table.bestUpTo caps byRank n = some i) : table.provides (some i) caps = true := by
  induction n with
  | zero => cases h
  | succ n ih =>
      simp only [RegTable.bestUpTo] at h
      split at h
      case isTrue hbetter =>
        obtain rfl := Option.some.inj h
        exact (Bool.and_eq_true _ _ |>.mp hbetter).1
      case isFalse => exact ih h

/-- What is selected has the capabilities. -/
theorem selectFor_provides {core : Core} {caps : UInt32} {i : Nat}
    (h : (core.selectFor caps).selected = some i) :
    core.table.provides (some i) caps = true := by
  unfold Core.selectFor at h
  split at h
  case isTrue hhas =>
    rw [Core.runningHas] at hhas
    rwa [← h]
  case isFalse => exact provides_bestUpTo h

/-! ## Answers -/

variable {core following : Core} {caps : UInt32}

/-- The capabilities that the answers are about. -/
def Core.told (core : Core) : Option UInt32 :=
  core.running.bind fun i => core.table[i]?.map fun e => e.id.caps

/-- The answer is about these capabilities. -/
theorem runningHas_iff (core : Core) (caps : UInt32) :
    core.runningHas caps = true ↔ ∃ held, core.told = some held ∧ held &&& caps = caps := by
  unfold Core.runningHas RegTable.provides Core.told
  cases core.running with
  | none => simp
  | some i => cases hentry : core.table[i]? <;> simp [hentry]

/-- Capabilities that cover the same ones are the same. -/
theorem eq_of_covers {held other : UInt32}
    (h : ∀ caps, held &&& caps = caps ↔ other &&& caps = caps) : held = other := by
  have hother := (h held).mp (UInt32.and_self)
  have hheld := (h other).mpr (UInt32.and_self)
  rw [← hother, UInt32.and_comm, hheld]

/-- A file has one identity. -/
theorem Stamped.unique {data : List Byte} {id other : Ident} (h : Stamped data id)
    (hother : Stamped data other) : other = id := by
  have hsame := (checked_iff.mpr h).symm.trans (checked_iff.mpr hother)
  exact (Option.some.inj hsame).symm

/-- The answers are those of the image if they are about its capabilities. -/
theorem answers_of_stamped {data : List Byte} {id : Ident} (hexecuting : core.executing = some data)
    (hid : Stamped data id) (htold : core.told = some id.caps) : core.Answers := by
  intro caps
  rw [runningHas_iff, htold, hexecuting]
  constructor
  · rintro ⟨held, hheld, hcovers⟩
    obtain rfl := Option.some.inj hheld
    exact ⟨data, rfl, id, hid, hcovers⟩
  · rintro ⟨other, hother, found, hfound, hcovers⟩
    obtain rfl := Option.some.inj hother
    obtain rfl := hid.unique hfound
    exact ⟨_, rfl, hcovers⟩

/-- While no image is known to execute, the answers are right if they are about none. -/
theorem answers_iff_of_idle (hidle : core.executing = none) :
    core.Answers ↔ core.told = none := by
  constructor
  · intro h
    cases htold : core.told with
    | none => rfl
    | some held =>
        have hhas := (runningHas_iff core held).mpr ⟨held, htold, UInt32.and_self⟩
        obtain ⟨data, hdata, -⟩ := (h held).mp hhas
        rw [hidle] at hdata
        cases hdata
  · intro htold caps
    rw [runningHas_iff, htold, hidle]
    simp

/-- Right answers stay right exactly as long as they are about the same capabilities. -/
theorem answers_iff_told (h : core.Answers) (hexecuting : following.executing = core.executing)
    {held other : UInt32} (htold : core.told = some held) (hother : following.told = some other) :
    following.Answers ↔ other = held := by
  have hheld : ∀ caps, held &&& caps = caps ↔
      ∃ data, core.executing = some data ∧ Carries data caps := by
    intro caps
    rw [← h caps, runningHas_iff, htold]
    simp
  have hafter : following.Answers ↔ ∀ caps, other &&& caps = caps ↔ held &&& caps = caps := by
    refine forall_congr' fun caps => ?_
    rw [runningHas_iff, hother, hexecuting, hheld]
    simp
  rw [hafter]
  constructor
  · exact eq_of_covers
  · rintro rfl
    exact fun caps => Iff.rfl

/-- What happens to neither answers nor image keeps the answers right. -/
theorem answers_congr (hexecuting : following.executing = core.executing)
    (htold : following.told = core.told) : following.Answers ↔ core.Answers := by
  refine forall_congr' fun caps => ?_
  rw [runningHas_iff, runningHas_iff, htold, hexecuting]

/-! ## Registrations -/

/-- The blobs of the registry carry the identities beside them, the running index is one of its
entries, and nothing executes during a load. -/
structure Core.Kept (core : Core) : Prop where
  stamped : ∀ e ∈ core.table, ∀ data, e.blob = some data → Stamped data e.id
  running_lt : ∀ i, core.running = some i → i < core.table.length
  idle : ∀ i, core.loading = some i → core.executing = none

variable {table after : RegTable} {call : Registration} {ret : Int} {event : CoreEvent}

/-- A registration leaves every entry where it is. -/
theorem registered_length (h : Registered table call ret after) : table.length ≤ after.length := by
  cases h with
  | refused => exact Nat.le_refl _
  | lost => exact Nat.le_of_eq (List.length_modify ..).symm
  | added => rw [List.length_append]; omega
  | replaced => exact Nat.le_of_eq List.length_set.symm

/-- A registration writes blobs with their identities. -/
theorem registered_stamped (h : Registered table call ret after)
    (hstamped : ∀ e ∈ table, ∀ data, e.blob = some data → Stamped data e.id) :
    ∀ e ∈ after, ∀ data, e.blob = some data → Stamped data e.id := by
  have hentry : ∀ {image : Firmware} {id : Ident}, call.Accepted image id →
      ∀ data, (image.entry call.fwname id).blob = some data →
        Stamped data (image.entry call.fwname id).id := by
    intro image id haccepted data hdata
    obtain rfl := Option.some.inj hdata
    exact checked_iff.mp haccepted.2.2.2
  cases h with
  | refused => exact hstamped
  | lost =>
      intro e he data hdata
      rw [List.mem_iff_getElem] at he
      obtain ⟨k, hk, rfl⟩ := he
      rw [List.getElem_modify] at hdata ⊢
      split at hdata
      · cases hdata
      case isFalse hother =>
        rw [if_neg hother]
        exact hstamped _ (List.getElem_mem _) data hdata
  | added haccepted =>
      intro e he
      rcases List.mem_append.mp he with hold | hlast
      · exact hstamped e hold
      · obtain rfl := List.mem_singleton.mp hlast
        exact hentry haccepted
  | replaced haccepted =>
      intro e he
      rcases List.mem_or_eq_of_mem_set he with hold | rfl
      · exact hstamped e hold
      · exact hentry haccepted

/-- An entry has the same capabilities after a registration, unless it is written with others. -/
theorem registered_caps (h : Registered table call ret after) {i : Nat} {e : RegEntry}
    (hentry : table[i]? = some e) :
    ∃ later, after[i]? = some later ∧ (later.id.caps = e.id.caps ↔
      ∀ image id, call.Accepted image id → call.allocated = true →
        i = table.place call.fwname → id.caps = e.id.caps) := by
  have hi : i < table.length := (List.getElem?_eq_some_iff.mp hentry).1
  have hhas : i = table.place call.fwname → table.Has call.fwname := by
    intro hplace
    rw [has_iff, ← hplace]
    exact hi
  cases h with
  | refused _ hfree =>
      exact ⟨e, hentry, iff_of_true rfl fun image id haccepted _ hplace =>
        absurd (hhas hplace) (hfree image id haccepted)⟩
  | lost _ _ hmemory =>
      refine ⟨if table.place call.fwname = i then { e with blob := none } else e, ?_,
        iff_of_true ?_ fun _ _ _ hallocated => ?_⟩
      · -- an entry without its blob still has its identity
        rw [List.getElem?_modify, hentry]
        split <;> rfl
      · split <;> rfl
      · rw [hmemory] at hallocated
        cases hallocated
  | added _ hnew =>
      exact ⟨e, by rw [List.getElem?_append_left hi, hentry],
        iff_of_true rfl fun _ _ _ _ hplace => absurd (hhas hplace) hnew⟩
  | @replaced image id haccepted _ hmemory =>
      by_cases hplace : table.place call.fwname = i
      · refine ⟨image.entry call.fwname id, ?_, fun hcaps other otherId hother _ _ => ?_,
          fun hsame => hsame image id haccepted hmemory hplace.symm⟩
        · rw [hplace, List.getElem?_set_self hi]
        · obtain ⟨-, rfl⟩ := haccepted.unique hother
          exact hcaps
      · exact ⟨e, by rw [List.getElem?_set_ne hplace, hentry],
          iff_of_true rfl fun _ _ _ _ hsame => absurd hsame.symm hplace⟩

/-! ## Steps -/

/-- Answers are about something exactly while an image counts as the running one. -/
theorem Core.Kept.told_eq_none (h : core.Kept) : core.told = none ↔ core.running = none := by
  unfold Core.told
  cases hrunning : core.running with
  | none => simp
  | some i =>
      have hi := h.running_lt i hrunning
      simp [List.getElem?_eq_getElem hi]

/-- A registration keeps the answers right exactly if it leaves the running image its
capabilities. -/
theorem register_answers (hkept : core.Kept) (h : core.Answers) (call : Registration) :
    (core.register call).Answers ↔ core.Steady (.register call) := by
  have hregistered := registered core.table call
  have hexecuting : (core.register call).executing = core.executing := rfl
  cases hrunning : core.running with
  | none =>
      have htold : (core.register call).told = core.told := by
        simp [Core.told, Core.register, hrunning]
      refine iff_of_true ((answers_congr hexecuting htold).mpr h) fun _ _ i _ _ _ hsome => ?_
      rw [hrunning] at hsome
      cases hsome
  | some i =>
      obtain ⟨e, hentry⟩ : ∃ e, core.table[i]? = some e :=
        ⟨_, List.getElem?_eq_getElem (hkept.running_lt i hrunning)⟩
      obtain ⟨later, hlater, hcaps⟩ := registered_caps hregistered hentry
      have htold : core.told = some e.id.caps := by
        simp [Core.told, hrunning, hentry]
      have hafter : (core.register call).told = some later.id.caps := by
        simp [Core.told, Core.register, hrunning, hlater]
      rw [answers_iff_told h hexecuting htold hafter, hcaps]
      constructor
      · intro hsame image id j other haccepted hallocated hj hplace hother
        obtain rfl : i = j := Option.some.inj (hrunning.symm.trans hj)
        obtain rfl : e = other := Option.some.inj (hentry.symm.trans hother)
        exact hsame image id haccepted hallocated hplace
      · intro hsteady image id haccepted hallocated hplace
        exact hsteady image id i e haccepted hallocated hrunning hplace hentry

/-- A selection changes no answer. -/
theorem selectFor_answers (core : Core) (caps : UInt32) :
    (core.selectFor caps).Answers ↔ core.Answers := by
  unfold Core.selectFor
  split <;> exact Iff.rfl

/-- A load that begins leaves the answers right exactly if no image counts as the running one. -/
theorem load_answers (hkept : core.Kept) (i : Nat) :
    (core.load i).Answers ↔ core.running = none := by
  have hidle : (core.load i).executing = none := rfl
  rw [answers_iff_of_idle hidle, ← hkept.told_eq_none]
  exact Iff.rfl

/-- A fast boot leaves the answers right exactly if it does not load, or no image counts as the
running one. -/
theorem bootSelected_answers (hkept : core.Kept) (h : core.Answers) (device parked : Bool) :
    (core.bootSelected device parked).Answers ↔ core.Unloaded (.boot device parked) := by
  unfold Core.bootSelected
  cases hselected : core.selected with
  | none => exact iff_of_true h fun _ _ hsome => absurd hselected hsome
  | some i =>
      by_cases hload : (device && parked) = true
      · obtain ⟨hdevice, hparked⟩ := Bool.and_eq_true _ _ |>.mp hload
        simp only [hload, if_true]
        rw [load_answers hkept]
        constructor
        · exact fun hnone _ _ _ => hnone
        · exact fun hunloaded => hunloaded hdevice hparked (by rw [hselected]; nofun)
      · simp only [hload]
        refine iff_of_true h fun hdevice hparked => ?_
        rw [hdevice, hparked] at hload
        exact absurd rfl hload

/-- A fresh endpoint answers nothing exactly if it has a candidate, or no image counts as the
running one. -/
theorem probeBoot_answers (hkept : core.Kept) (parked : Bool) :
    (core.probeBoot parked).Answers ↔ core.Steady (.probe parked) := by
  unfold Core.probeBoot
  cases hcandidate : core.candidate with
  | none =>
      dsimp only
      have hidle : Core.executing { core with selected := none, executing := none } = none := rfl
      rw [answers_iff_of_idle hidle]
      have htold : Core.told { core with selected := none, executing := none } = none ↔
          core.running = none := hkept.told_eq_none
      rw [htold]
      exact ⟨fun hnone _ => hnone, fun hsteady => hsteady hcandidate⟩
  | some i =>
      refine iff_of_true ?_ fun hnone => ?_
      · dsimp only
        split
        · exact (answers_iff_of_idle rfl).mpr rfl
        · exact (answers_iff_of_idle rfl).mpr rfl
      · rw [hcandidate] at hnone
        cases hnone

/-- After a boot, the answers are those of what was booted. -/
theorem finish_answers (hkept : core.Kept) {i : Nat} (hloading : core.loading = some i)
    {booted : Bool} (hfinish : core.finish i booted = some following) : following.Answers := by
  unfold Core.finish at hfinish
  split at hfinish
  · obtain ⟨data, hdata, rfl⟩ := Option.map_eq_some_iff.mp hfinish
    obtain ⟨e, hentry, hblob⟩ := Option.bind_eq_some_iff.mp hdata
    have hstamped := hkept.stamped e (List.mem_of_getElem? hentry) data hblob
    refine answers_of_stamped rfl hstamped ?_
    simp [Core.told, hentry]
  · obtain rfl := Option.some.inj hfinish
    have hidle : Core.executing { core with loading := none, running := none } = none :=
      hkept.idle i hloading
    exact (answers_iff_of_idle hidle).mpr rfl

/-- The ends of a step. -/
inductive Stepped (core : Core) : CoreEvent → Core → Prop
  | register (call : Registration) (hrest : core.loading = none) :
      Stepped core (.register call) (core.register call)
  | select (caps : UInt32) (hrest : core.loading = none) :
      Stepped core (.select caps) (core.selectFor caps)
  | boot (device parked : Bool) (hrest : core.loading = none) :
      Stepped core (.boot device parked) (core.bootSelected device parked)
  | probe (parked : Bool) (hrest : core.loading = none) :
      Stepped core (.probe parked) (core.probeBoot parked)
  | finish {i : Nat} {booted : Bool} {following : Core} (hloading : core.loading = some i)
      (hfinish : core.finish i booted = some following) :
      Stepped core (.finish booted) following

/-- A step has one of these ends. -/
theorem stepped (hnext : core.next event = some following) : Stepped core event following := by
  unfold Core.next at hnext
  split at hnext
  case h_1 hrest => exact Option.some.inj hnext ▸ .register _ hrest
  case h_2 hrest => exact Option.some.inj hnext ▸ .select _ hrest
  case h_3 hrest => exact Option.some.inj hnext ▸ .boot _ _ hrest
  case h_4 hrest => exact Option.some.inj hnext ▸ .probe _ hrest
  case h_5 hloading => exact .finish hloading hnext
  case h_6 => cases hnext

/-- A load that begins keeps what is kept. -/
theorem Core.Kept.load (h : core.Kept) (i : Nat) : (core.load i).Kept :=
  ⟨h.stamped, h.running_lt, fun _ _ => rfl⟩

/-- Every step keeps what is kept. -/
theorem next_kept (h : core.Kept) (hnext : core.next event = some following) :
    following.Kept := by
  cases stepped hnext with
  | register call hrest =>
      have hregistered := registered core.table call
      refine ⟨registered_stamped hregistered h.stamped, fun i hi => ?_, h.idle⟩
      exact Nat.lt_of_lt_of_le (h.running_lt i hi) (registered_length hregistered)
  | select caps hrest =>
      unfold Core.selectFor
      split <;> exact ⟨h.stamped, h.running_lt, h.idle⟩
  | boot device parked hrest =>
      unfold Core.bootSelected
      split
      · exact h
      · split
        · exact h.load _
        · exact h
  | probe parked hrest =>
      have hidle : ∀ i, core.loading = some i → (none : Option (List Byte)) = none :=
        fun _ _ => rfl
      unfold Core.probeBoot
      dsimp only
      split
      · exact ⟨h.stamped, h.running_lt, hidle⟩
      · -- the probe forgets what ran before, and may load the candidate
        have hcleared : Core.Kept { core with
            selected := core.candidate, executing := none, running := none } :=
          ⟨h.stamped, nofun, hidle⟩
        split
        · exact hcleared.load _
        · exact hcleared
  | @finish i booted _ hloading hfinish =>
      unfold Core.finish at hfinish
      split at hfinish
      · obtain ⟨data, hdata, rfl⟩ := Option.map_eq_some_iff.mp hfinish
        obtain ⟨e, hentry, -⟩ := Option.bind_eq_some_iff.mp hdata
        refine ⟨h.stamped, fun j hj => ?_, nofun⟩
        obtain rfl := Option.some.inj hj
        exact (List.getElem?_eq_some_iff.mp hentry).1
      · obtain rfl := Option.some.inj hfinish
        exact ⟨h.stamped, nofun, nofun⟩

/-- A step from right answers gives right answers exactly if it is steady, and loads nothing over a
running image. -/
theorem next_answers_iff (hkept : core.Kept) (h : core.Answers)
    (hnext : core.next event = some following) :
    following.Answers ↔ core.Steady event ∧ core.Unloaded event := by
  cases stepped hnext with
  | register call =>
      rw [register_answers hkept h call]
      exact ⟨fun hsteady => ⟨hsteady, trivial⟩, And.left⟩
  | select caps => exact iff_of_true ((selectFor_answers core caps).mpr h) ⟨trivial, trivial⟩
  | boot device parked =>
      rw [bootSelected_answers hkept h device parked]
      exact ⟨fun hunloaded => ⟨trivial, hunloaded⟩, And.right⟩
  | probe parked =>
      rw [probeBoot_answers hkept parked]
      exact ⟨fun hsteady => ⟨hsteady, trivial⟩, And.left⟩
  | finish hloading hfinish =>
      exact iff_of_true (finish_answers hkept hloading hfinish) ⟨trivial, trivial⟩

/-- A fast boot that does not load changes nothing. -/
theorem bootSelected_of_rest {device parked : Bool}
    (hrest : (core.bootSelected device parked).loading = none) :
    core.bootSelected device parked = core := by
  unfold Core.bootSelected at hrest ⊢
  split at hrest
  · rfl
  · split at hrest
    · cases hrest
    case isFalse hload => rw [if_neg hload]

/-- Where no boot is at work, a step leaves the answers right exactly if it is steady. -/
theorem next_answersAtRest_iff (hkept : core.Kept) (h : core.AnswersAtRest)
    (hnext : core.next event = some following) :
    following.AnswersAtRest ↔ core.Steady event := by
  cases stepped hnext with
  | register call hrest =>
      rw [← register_answers hkept (h hrest) call]
      exact ⟨fun hafter => hafter hrest, fun hafter _ => hafter⟩
  | select caps hrest =>
      exact iff_of_true (fun _ => (selectFor_answers core caps).mpr (h hrest)) trivial
  | boot device parked hrest =>
      refine iff_of_true (fun hafter => ?_) trivial
      rw [bootSelected_of_rest hafter]
      exact h hrest
  | probe parked hrest =>
      rw [← probeBoot_answers hkept parked]
      refine ⟨fun hafter => ?_, fun hafter _ => hafter⟩
      rw [probeBoot_answers hkept parked]
      intro hcandidate
      have hloading : (core.probeBoot parked).loading = none := by
        simp only [Core.probeBoot, hcandidate]
        exact hrest
      exact (probeBoot_answers hkept parked).mp (hafter hloading) hcandidate
  | finish hloading hfinish =>
      exact iff_of_true (fun _ => finish_answers hkept hloading hfinish) trivial

/-- From the loading of the module on, the answers are at all times those of the image that the
core executes, exactly as long as no step gives the running image other capabilities, finds nothing
to boot on a fresh endpoint while an image counts as the running one, or loads over it in a fast
boot. But for the last, they are whenever no boot is at work. -/
theorem running_answers_iff (events : List CoreEvent) :
    (Always Core.next Core.Answers .blank events ↔
      Guarded Core.next (fun core event => core.Steady event ∧ core.Unloaded event) .blank
        events) ∧
    (Always Core.next Core.AnswersAtRest .blank events ↔
      Guarded Core.next Core.Steady .blank events) := by
  have hkept : Core.blank.Kept := ⟨fun e he => absurd he List.not_mem_nil, nofun, nofun⟩
  have hanswers : Core.blank.Answers := (answers_iff_of_idle rfl).mpr rfl
  constructor
  · have hproperty : ∀ core : Core, core.Kept ∧ core.Answers → core.Answers := fun _ => And.right
    refine always_iff_everyStep (fun core event following h hcondition hnext => ?_) hproperty
      (fun core event following h hnext hafter => ?_) ⟨hkept, hanswers⟩
    · exact ⟨next_kept h.1 hnext, (next_answers_iff h.1 h.2 hnext).mpr hcondition⟩
    · exact (next_answers_iff h.1 h.2 hnext).mp hafter
  · have hproperty : ∀ core : Core, core.Kept ∧ core.AnswersAtRest → core.AnswersAtRest :=
      fun _ => And.right
    refine always_iff_everyStep (fun core event following h hcondition hnext => ?_) hproperty
      (fun core event following h hnext hafter => ?_) ⟨hkept, fun _ => hanswers⟩
    · exact ⟨next_kept h.1 hnext, (next_answersAtRest_iff h.1 h.2 hnext).mpr hcondition⟩
    · exact (next_answersAtRest_iff h.1 h.2 hnext).mp hafter

/-- The core executes an image with one capability; its entry has another with two. -/
def replacedCore : Core where
  table := [(stampedFirmware 3).entry [0x61] (identAt (stampedImage 3) 144)]
  selected := some 0
  running := some 0
  loading := none
  executing := some (stampedImage 1)

/-- The name of the running image is registered again, with an image that can do more. The answer
is yes, and the core executes the old bytes. -/
theorem replaced_image_answers :
    ¬ Always Core.next Core.Answers .blank
      [.register (registerSample 1 true), .select 1, .boot true true, .finish true,
        .register (registerSample 3 true)] := by
  intro h
  have hrun : run Core.next .blank
      [.register (registerSample 1 true), .select 1, .boot true true, .finish true,
        .register (registerSample 3 true)] = some replacedCore := by
    decide +kernel
  obtain ⟨data, hdata, id, hid, hcaps⟩ := (h.final hrun 2).mp (by decide +kernel)
  obtain rfl : stampedImage 1 = data := Option.some.inj hdata
  have hchecked : (checked (stampedImage 1)).map Ident.caps = some 1 := by decide +kernel
  rw [checked_iff.mpr hid] at hchecked
  rw [Option.some.inj hchecked] at hcaps
  revert hcaps
  decide

end RfnmDriver.Vspa
