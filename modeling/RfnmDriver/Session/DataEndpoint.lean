import Mathlib.Data.List.Basic
import Mathlib.Logic.Function.Basic
import RfnmDriver.Library.StepSystem
import RfnmDriver.Rx.AgcPeak

/-!
# The data endpoint

`rfnm_dev_open` and `rfnm_dev_release` of `la9310_rfnm.c`, with the handles that `rfnm_dev_ioctl`
checks out, for any number of processes and threads. The count of openers goes down outside
`rfnm_data_ep_owner_lock`, and the departed client's handles are taken back behind it, so an open
can come in between. `one_process` holds whatever the order; `sessions_apart` says what holds where
no open takes the endpoint while it is being left.
-/

namespace RfnmDriver.Session.DataEndpoint

open StepSystem
open Rx.AgcPeak (LocalRxFmt)

/-- Where a `rfnm_dev_release` is that closed the last file. -/
inductive Leaving
  /-- At the clearing of `rfnm_data_ep_owner_tgid`. -/
  | clearing
  /-- At the `xchg` of this slot, the RX table before the TX table; behind the last slot it sets
  the format and flushes the staging. -/
  | reclaiming (slot : Nat)
  deriving DecidableEq, Repr

/-- The slots that this release has taken back. -/
def Leaving.Reclaimed : Leaving → Nat → Prop
  | .clearing, _ => False
  | .reclaiming next, slot => slot < next

/-- The variables of the endpoint, and who is where. -/
structure Endpoint where
  /-- `rfnm_data_ep_owner_tgid`; 0 is nobody. -/
  ownerTgid : Nat
  /-- `rfnm_data_ep_openers`. -/
  openers : Nat
  /-- `rfnm67_open_refused`. -/
  openRefused : Nat
  /-- The process that has passed the test of `rfnm_dev_open` and holds the lock. -/
  opening : Option Nat
  /-- The processes of the open files. -/
  files : List Nat
  leaving : List Leaving
  /-- `rfnm_local_zc_rx_owned` and `rfnm_local_zc_tx_owned`, with who checked the slot out. -/
  owned : Nat → Option Nat
  localRxFmt : LocalRxFmt
  /-- The calls `rfnm_tx_flush_staging(1)`. -/
  flushes : Nat
  /-- The opens that found nobody. -/
  sessions : Nat

/-- What happens; the index says which of the releases under way. -/
inductive Event
  /-- `rfnm_dev_open` as far as the test. -/
  | openTest (tgid : Nat)
  /-- The rest of it. -/
  | openTake
  /-- `atomic_dec_and_test` of `rfnm_dev_release`. -/
  | close (tgid : Nat)
  | clearOwner (index : Nat)
  | reclaim (index : Nat)
  /-- `RFNM_LOCAL_RX_GET` or `RFNM_LOCAL_TX_ACQ` with an element of this slot. -/
  | checkOut (tgid slot : Nat)
  /-- `RFNM_LOCAL_RX_PUT` or `RFNM_LOCAL_TX_SUB`, or the fault of a check-out. -/
  | putBack (tgid slot : Nat)
  /-- A stream reset of the local client or of another. -/
  | smReset (fmt : LocalRxFmt)
  deriving DecidableEq, Repr

/-- A statement on the handles or the format, that leaves the opens alone. -/
def Event.OnHandles : Event → Prop
  | .reclaim _ | .checkOut _ _ | .putBack _ _ | .smReset _ => True
  | _ => False

namespace Endpoint

variable (slots : Nat) (st : Endpoint)

/-- `rfnm_dev_open` lets the process in. -/
def Admits (tgid : Nat) : Prop :=
  ¬(0 < st.openers ∧ st.ownerTgid ≠ tgid)

instance (tgid : Nat) : Decidable (st.Admits tgid) :=
  inferInstanceAs (Decidable (¬_))

/-- One statement, `none` where it cannot be taken. -/
def next : Event → Option Endpoint
  | .openTest tgid =>
      if tgid ≠ 0 ∧ st.opening = none then
        some (if st.Admits tgid then { st with opening := some tgid }
        else { st with openRefused := st.openRefused + 1 })
      else none
  | .openTake =>
      st.opening.map fun tgid =>
        { st with
          ownerTgid := tgid
          openers := st.openers + 1
          opening := none
          files := tgid :: st.files
          sessions := st.sessions + if st.openers = 0 then 1 else 0 }
  | .close tgid =>
      if tgid ∈ st.files then
        some { st with
          openers := st.openers - 1
          files := st.files.erase tgid
          leaving := st.leaving ++ if st.openers = 1 then [.clearing] else [] }
      else none
  | .clearOwner index =>
      if st.leaving[index]? = some .clearing ∧ st.opening = none then
        some { st with ownerTgid := 0, leaving := st.leaving.set index (.reclaiming 0) }
      else none
  | .reclaim index =>
      match st.leaving[index]? with
      | some (.reclaiming slot) =>
          some (if slot < slots then
            { st with
              owned := Function.update st.owned slot none
              leaving := st.leaving.set index (.reclaiming (slot + 1)) }
          else { st with
            localRxFmt := .packed12
            flushes := st.flushes + 1
            leaving := st.leaving.eraseIdx index })
      | _ => none
  | .checkOut tgid slot =>
      if tgid ∈ st.files ∧ slot < slots then
        some { st with owned := Function.update st.owned slot (some tgid) }
      else none
  | .putBack tgid slot =>
      if tgid ∈ st.files then
        -- a slot out of the table, or one that is not checked out, is `-EINVAL`
        some (if slot < slots then { st with owned := Function.update st.owned slot none } else st)
      else none
  | .smReset fmt => some { st with localRxFmt := fmt }

/-- The module is loaded. -/
def loaded : Endpoint :=
  ⟨0, 0, 0, none, [], [], fun _ => none, .packed12, 0, 0⟩

/-- Nobody is let in beside another process. -/
def Exclusive : Prop :=
  (∃ tgid, ∀ other ∈ st.files, other = tgid) ∧
    ∀ tgid, tgid ≠ 0 → st.Admits tgid → ∀ other ∈ st.files, other = tgid

/-- A process with an open file can open another. -/
def Shared : Prop :=
  ∀ tgid ∈ st.files, st.Admits tgid

/-- The owner is not cleared under an open file. -/
def KeepsOwner (st : Endpoint) : Event → Prop
  | .clearOwner _ => st.files = []
  | _ => True

/-- The endpoint is not taken while it is being left. -/
def TakenFree (st : Endpoint) : Event → Prop
  | .openTake => st.leaving = []
  | _ => True

instance (event : Event) : Decidable (st.KeepsOwner event) := by
  cases event <;> unfold KeepsOwner <;> infer_instance

instance (event : Event) : Decidable (st.TakenFree event) := by
  cases event <;> unfold TakenFree <;> infer_instance

/-- An open is refused for another process alone, no slot is taken back from a client that is
there, and a client that comes first finds nothing checked out, and the staging flushed once for
every client before it. -/
def Apart (st : Endpoint) (event : Event) (following : Endpoint) : Prop :=
  match event with
  | .openTest tgid =>
      following.openRefused = st.openRefused + 1 ↔ ∃ other ∈ st.files, other ≠ tgid
  | .openTake =>
      st.files = [] → (∀ slot < slots, st.owned slot = none) ∧ st.flushes = st.sessions
  | .reclaim _ => st.files = []
  | _ => True

variable {slots} {st following : Endpoint} {event : Event}

/-! ## The statements -/

theorem openTest_cases {tgid : Nat} (h : next slots st (.openTest tgid) = some following) :
    tgid ≠ 0 ∧ st.opening = none ∧
      (st.Admits tgid ∧ following = { st with opening := some tgid } ∨
        ¬st.Admits tgid ∧ following = { st with openRefused := st.openRefused + 1 }) := by
  obtain ⟨⟨htgid, hopening⟩, hfollowing⟩ := of_guard h
  refine ⟨htgid, hopening, ?_⟩
  by_cases hin : st.Admits tgid
  · rw [if_pos hin] at hfollowing
    exact .inl ⟨hin, hfollowing⟩
  · rw [if_neg hin] at hfollowing
    exact .inr ⟨hin, hfollowing⟩

theorem openTake_cases (h : next slots st .openTake = some following) :
    ∃ tgid, st.opening = some tgid ∧
      following = { st with
        ownerTgid := tgid
        openers := st.openers + 1
        opening := none
        files := tgid :: st.files
        sessions := st.sessions + if st.openers = 0 then 1 else 0 } := by
  obtain ⟨tgid, hopening, hfollowing⟩ := Option.map_eq_some_iff.mp h
  exact ⟨tgid, hopening, hfollowing.symm⟩

theorem reclaim_cases {index : Nat} (h : next slots st (.reclaim index) = some following) :
    ∃ slot, st.leaving[index]? = some (.reclaiming slot) ∧
      (slot < slots ∧ following = { st with
          owned := Function.update st.owned slot none
          leaving := st.leaving.set index (.reclaiming (slot + 1)) } ∨
        slots ≤ slot ∧ following = { st with
          localRxFmt := .packed12
          flushes := st.flushes + 1
          leaving := st.leaving.eraseIdx index }) := by
  simp only [next] at h
  split at h
  next slot hat =>
    refine ⟨slot, hat, ?_⟩
    have hfollowing := Option.some.inj h
    by_cases hslot : slot < slots
    · rw [if_pos hslot] at hfollowing
      exact .inl ⟨hslot, hfollowing.symm⟩
    · rw [if_neg hslot] at hfollowing
      exact .inr ⟨Nat.le_of_not_lt hslot, hfollowing.symm⟩
  next => cases h

theorem putBack_cases {tgid slot : Nat}
    (h : next slots st (.putBack tgid slot) = some following) :
    tgid ∈ st.files ∧
      (following = st ∨ following = { st with owned := Function.update st.owned slot none }) := by
  obtain ⟨hfile, hfollowing⟩ := of_guard h
  refine ⟨hfile, ?_⟩
  by_cases hslot : slot < slots
  · rw [if_pos hslot] at hfollowing
    exact .inr hfollowing
  · rw [if_neg hslot] at hfollowing
    exact .inl hfollowing

/-! ## One process -/

/-- The count is that of the open files, all of one process, and a process that is being let in or
is named as the owner is that process. -/
structure Counted (st : Endpoint) : Prop where
  openers : st.openers = st.files.length
  nobody : ∀ tgid ∈ st.files, tgid ≠ 0
  single : ∃ tgid, ∀ other ∈ st.files, other = tgid
  opening : ∀ tgid, st.opening = some tgid → tgid ≠ 0 ∧ ∀ other ∈ st.files, other = tgid
  owner : st.ownerTgid ≠ 0 → ∀ other ∈ st.files, other = st.ownerTgid

/-- The test of `rfnm_dev_open` is right about whom it lets in. -/
theorem Counted.only (h : st.Counted) {tgid : Nat} (htgid : tgid ≠ 0) (hin : st.Admits tgid) :
    ∀ other ∈ st.files, other = tgid := by
  intro other hother
  have hopeners : 0 < st.openers := by
    rw [h.openers]
    exact List.length_pos_of_mem hother
  have howner : st.ownerTgid = tgid := by
    by_contra hne
    exact hin ⟨hopeners, hne⟩
  rw [← howner]
  exact h.owner (howner ▸ htgid) other hother

theorem Counted.openTest (h : st.Counted) {tgid : Nat} (htgid : tgid ≠ 0)
    (hin : st.Admits tgid) : Counted { st with opening := some tgid } := by
  refine ⟨h.openers, h.nobody, h.single, fun other hother => ?_, h.owner⟩
  obtain rfl := Option.some.inj hother
  exact ⟨htgid, h.only htgid hin⟩

/-- Nothing comes between the test and the taking but closes. -/
theorem Counted.openTake (h : st.Counted) {tgid : Nat} (hopening : st.opening = some tgid)
    (sessions : Nat) :
    Counted { st with
      ownerTgid := tgid
      openers := st.openers + 1
      opening := none
      files := tgid :: st.files
      sessions := sessions } := by
  obtain ⟨htgid, hfiles⟩ := h.opening tgid hopening
  have hall : ∀ other ∈ tgid :: st.files, other = tgid := by
    intro other hother
    obtain rfl | hrest := List.mem_cons.mp hother
    · rfl
    · exact hfiles other hrest
  refine ⟨congrArg (· + 1) h.openers, fun other hother => ?_, ⟨tgid, hall⟩, fun other hother => ?_,
    fun _ => hall⟩
  · rw [hall other hother]
    exact htgid
  · cases hother

theorem Counted.close (h : st.Counted) {tgid : Nat} (hfile : tgid ∈ st.files)
    (leaving : List Leaving) :
    Counted { st with
      openers := st.openers - 1
      files := st.files.erase tgid
      leaving := leaving } := by
  have hleft : ∀ other ∈ st.files.erase tgid, other ∈ st.files :=
    fun other hother => List.mem_of_mem_erase hother
  refine ⟨?_, fun other hother => h.nobody other (hleft other hother), ?_,
    fun other hother => ?_, fun howner other hother => h.owner howner other (hleft other hother)⟩
  · show st.openers - 1 = (st.files.erase tgid).length
    rw [h.openers, List.length_erase_of_mem hfile]
  · obtain ⟨one, hone⟩ := h.single
    exact ⟨one, fun other hother => hone other (hleft other hother)⟩
  · obtain ⟨htgid, hfiles⟩ := h.opening other hother
    exact ⟨htgid, fun file hopen => hfiles file (hleft file hopen)⟩

theorem Counted.clearOwner (h : st.Counted) (leaving : List Leaving) :
    Counted { st with ownerTgid := 0, leaving := leaving } :=
  ⟨h.openers, h.nobody, h.single, h.opening, fun hzero => absurd rfl hzero⟩

/-- Who may open and who has a file is the same. -/
structure SameOpens (st following : Endpoint) : Prop where
  openers : following.openers = st.openers
  files : following.files = st.files
  opening : following.opening = st.opening
  owner : following.ownerTgid = st.ownerTgid

theorem Counted.of_same (h : st.Counted) (hsame : st.SameOpens following) :
    following.Counted := by
  obtain ⟨hopeners, hfiles, hopening, howner⟩ := hsame
  constructor
  · rw [hopeners, hfiles]
    exact h.openers
  · rw [hfiles]
    exact h.nobody
  · rw [hfiles]
    exact h.single
  · rw [hopening, hfiles]
    exact h.opening
  · rw [howner, hfiles]
    exact h.owner

theorem sameOpens_of_onHandles (h : next slots st event = some following)
    (hevent : event.OnHandles) : st.SameOpens following := by
  cases event with
  | reclaim index =>
      obtain ⟨slot, -, ⟨-, rfl⟩ | ⟨-, rfl⟩⟩ := reclaim_cases h
      · exact ⟨rfl, rfl, rfl, rfl⟩
      · exact ⟨rfl, rfl, rfl, rfl⟩
  | checkOut tgid slot =>
      obtain ⟨-, rfl⟩ := of_guard h
      exact ⟨rfl, rfl, rfl, rfl⟩
  | putBack tgid slot =>
      obtain ⟨-, rfl | rfl⟩ := putBack_cases h
      · exact ⟨rfl, rfl, rfl, rfl⟩
      · exact ⟨rfl, rfl, rfl, rfl⟩
  | smReset fmt =>
      obtain rfl := Option.some.inj h
      exact ⟨rfl, rfl, rfl, rfl⟩
  | openTest _ | openTake | close _ | clearOwner _ => exact hevent.elim

theorem Counted.step (h : st.Counted) (hstep : next slots st event = some following) :
    following.Counted := by
  cases event with
  | openTest tgid =>
      obtain ⟨htgid, -, ⟨hin, rfl⟩ | ⟨-, rfl⟩⟩ := openTest_cases hstep
      · exact h.openTest htgid hin
      · exact ⟨h.openers, h.nobody, h.single, h.opening, h.owner⟩
  | openTake =>
      obtain ⟨tgid, hopening, rfl⟩ := openTake_cases hstep
      exact h.openTake hopening _
  | close tgid =>
      obtain ⟨hfile, rfl⟩ := of_guard hstep
      exact h.close hfile _
  | clearOwner index =>
      obtain ⟨-, rfl⟩ := of_guard hstep
      exact h.clearOwner _
  | reclaim index => exact h.of_same (sameOpens_of_onHandles hstep trivial)
  | checkOut tgid slot => exact h.of_same (sameOpens_of_onHandles hstep trivial)
  | putBack tgid slot => exact h.of_same (sameOpens_of_onHandles hstep trivial)
  | smReset fmt => exact h.of_same (sameOpens_of_onHandles hstep trivial)

theorem counted_loaded : loaded.Counted :=
  ⟨rfl, nofun, ⟨0, nofun⟩, nofun, fun _ => nofun⟩

/-- Whatever else goes on, a process is let in beside no other. -/
theorem Counted.exclusive (h : st.Counted) : st.Exclusive :=
  ⟨h.single, fun _ => h.only⟩

/-- The owner is named while it has a file open. -/
def Named (st : Endpoint) : Prop :=
  ∀ tgid ∈ st.files, st.ownerTgid = tgid

/-- A process is let in again where it is the owner that is named. -/
theorem Counted.shared_iff (h : st.Counted) : st.Shared ↔ st.Named := by
  constructor
  · intro hshared tgid hfile
    have hopeners : 0 < st.openers := by
      rw [h.openers]
      exact List.length_pos_of_mem hfile
    by_contra hne
    exact hshared tgid hfile ⟨hopeners, hne⟩
  · intro hnamed tgid hfile hrefused
    exact hrefused.2 (hnamed tgid hfile)

/-- Only the clearing takes the name off. -/
theorem Counted.named_next (h : st.Counted) (hnamed : st.Named) (hkeeps : st.KeepsOwner event)
    (hstep : next slots st event = some following) : following.Named := by
  cases event with
  | openTest tgid =>
      obtain ⟨-, -, ⟨-, rfl⟩ | ⟨-, rfl⟩⟩ := openTest_cases hstep
      · exact hnamed
      · exact hnamed
  | openTake =>
      obtain ⟨tgid, hopening, rfl⟩ := openTake_cases hstep
      intro other hother
      obtain rfl | hrest := List.mem_cons.mp hother
      · rfl
      · exact ((h.opening tgid hopening).2 other hrest).symm
  | close tgid =>
      obtain ⟨-, rfl⟩ := of_guard hstep
      exact fun other hother => hnamed other (List.mem_of_mem_erase hother)
  | clearOwner index =>
      obtain ⟨-, rfl⟩ := of_guard hstep
      intro tgid hfile
      have hnone : st.files = [] := hkeeps
      rw [show st.files = [] from hnone] at hfile
      cases hfile
  | reclaim _ | checkOut _ _ | putBack _ _ | smReset _ =>
      obtain ⟨-, hfiles, -, howner⟩ := sameOpens_of_onHandles hstep trivial
      unfold Named
      rw [hfiles, howner]
      exact hnamed

/-- A clearing under an open file leaves its process unnamed. -/
theorem Counted.keepsOwner_of_named (h : st.Counted)
    (hstep : next slots st event = some following) (hnamed : following.Named) :
    st.KeepsOwner event := by
  cases event with
  | clearOwner index =>
      obtain ⟨-, rfl⟩ := of_guard hstep
      refine List.eq_nil_iff_forall_not_mem.mpr fun tgid hfile => ?_
      exact h.nobody tgid hfile (hnamed tgid hfile).symm
  | openTest _ | openTake | close _ | reclaim _ | checkOut _ _ | putBack _ _ | smReset _ =>
      trivial

/-- In every run the open files are those of one process, and no other is let in beside it; and the
process is let in again at every point of the run exactly if no late release clears the owner
under its files. -/
theorem one_process (slots : Nat) (events : List Event) :
    Always (next slots) Exclusive loaded events ∧
      (Always (next slots) Shared loaded events ↔
        Guarded (next slots) KeepsOwner loaded events) := by
  constructor
  · have hcounted : Always (next slots) Counted loaded events :=
      always_of_inductive (fun _ _ _ h hstep => h.step hstep) counted_loaded
    exact hcounted.mono fun _ h => h.exclusive
  · have hkeep : ∀ st event following, (Counted st ∧ Named st) → KeepsOwner st event →
        next slots st event = some following → Counted following ∧ Named following :=
      fun _ _ _ h hkeeps hstep => ⟨h.1.step hstep, h.1.named_next h.2 hkeeps hstep⟩
    refine always_iff_everyStep hkeep (fun _ h => h.1.shared_iff.mpr h.2) ?_
      ⟨counted_loaded, nofun⟩
    intro st event following h hstep hshared
    exact h.1.keepsOwner_of_named hstep ((h.1.step hstep).shared_iff.mp hshared)

/-! ## Sessions apart -/

/-- No release is under way. -/
structure Quiet (slots : Nat) (st : Endpoint) : Prop where
  leaving : st.leaving = []
  empty : st.files = [] → ∀ slot < slots, st.owned slot = none
  flushes : st.sessions = st.flushes + if st.files = [] then 0 else 1

/-- The last client is being cleaned up after. -/
structure Leaves (point : Leaving) (st : Endpoint) : Prop where
  leaving : st.leaving = [point]
  files : st.files = []
  empty : ∀ slot, point.Reclaimed slot → st.owned slot = none
  flushes : st.sessions = st.flushes + 1

/-- One client at a time, or its release. -/
structure Parted (slots : Nat) (st : Endpoint) : Prop where
  counted : st.Counted
  named : st.Named
  phase : st.Quiet slots ∨ ∃ point, st.Leaves point

/-- Where a release is under way it is the only one, and no file is open. -/
theorem Parted.leaves (h : st.Parted slots) {index : Nat} {point : Leaving}
    (hat : st.leaving[index]? = some point) : index = 0 ∧ st.Leaves point := by
  obtain hquiet | ⟨other, hleaves⟩ := h.phase
  · rw [hquiet.leaving] at hat
    cases hat
  · rw [hleaves.leaving] at hat
    obtain ⟨hindex, hpoint⟩ := List.getElem?_eq_some_iff.mp hat
    have hzero : index = 0 := Nat.lt_one_iff.mp hindex
    subst hzero
    obtain rfl : other = point := hpoint
    exact ⟨rfl, hleaves⟩

/-- Where a file is open no release is under way. -/
theorem Parted.quiet (h : st.Parted slots) {tgid : Nat} (hfile : tgid ∈ st.files) :
    st.Quiet slots := by
  obtain hquiet | ⟨_, hleaves⟩ := h.phase
  · exact hquiet
  · rw [hleaves.files] at hfile
    cases hfile

theorem Parted.quiet_of_free (h : st.Parted slots) (hfree : st.leaving = []) :
    st.Quiet slots := by
  obtain hquiet | ⟨point, hleaves⟩ := h.phase
  · exact hquiet
  · exact absurd (hfree.symm.trans hleaves.leaving) (List.cons_ne_nil point []).symm

/-- A release that is under way does not clear the owner under an open file. -/
theorem Parted.keepsOwner (h : st.Parted slots) (hstep : next slots st event = some following) :
    st.KeepsOwner event := by
  cases event with
  | clearOwner index =>
      obtain ⟨⟨hat, -⟩, -⟩ := of_guard hstep
      exact (h.leaves hat).2.files
  | openTest _ | openTake | close _ | reclaim _ | checkOut _ _ | putBack _ _ | smReset _ =>
      trivial

/-- A client that comes first begins a session. -/
theorem Parted.openTake (h : st.Parted slots) (hfree : st.leaving = []) (tgid : Nat) :
    Quiet slots { st with
      ownerTgid := tgid
      openers := st.openers + 1
      opening := none
      files := tgid :: st.files
      sessions := st.sessions + if st.openers = 0 then 1 else 0 } := by
  refine ⟨hfree, fun hnone => absurd hnone (List.cons_ne_nil _ _), ?_⟩
  show st.sessions + (if st.openers = 0 then 1 else 0) =
    st.flushes + if tgid :: st.files = [] then 0 else 1
  rw [if_neg (List.cons_ne_nil _ _), (h.quiet_of_free hfree).flushes, h.counted.openers]
  by_cases hnone : st.files = []
  · rw [if_pos hnone, hnone]
    rfl
  · rw [if_neg hnone, if_neg fun hzero => hnone (List.length_eq_zero_iff.mp hzero)]

/-- The session ends with the last file. -/
theorem Parted.close (h : st.Parted slots) {tgid : Nat} (hfile : tgid ∈ st.files)
    {following : Endpoint} (hfollowing : following = { st with
      openers := st.openers - 1
      files := st.files.erase tgid
      leaving := st.leaving ++ if st.openers = 1 then [.clearing] else [] }) :
    following.Quiet slots ∨ ∃ point, following.Leaves point := by
  have hquiet := h.quiet hfile
  have hsession : st.sessions = st.flushes + 1 := by
    rw [hquiet.flushes, if_neg (List.ne_nil_of_mem hfile)]
  have hlength := List.length_erase_of_mem hfile
  subst hfollowing
  by_cases hlast : st.openers = 1
  · refine .inr ⟨.clearing, ?_, ?_, fun _ => False.elim, hsession⟩
    · show st.leaving ++ (if st.openers = 1 then [Leaving.clearing] else []) = [.clearing]
      rw [hquiet.leaving, if_pos hlast]
      rfl
    · refine List.length_eq_zero_iff.mp (hlength.trans ?_)
      rw [← h.counted.openers, hlast]
  · have hleft : st.files.erase tgid ≠ [] := by
      intro hnone
      rw [hnone, ← h.counted.openers] at hlength
      have hpos : 0 < st.openers := by
        rw [h.counted.openers]
        exact List.length_pos_of_mem hfile
      have hzero : 0 = st.openers - 1 := hlength
      omega
    refine .inl ⟨?_, fun hnone => absurd hnone hleft, ?_⟩
    · show st.leaving ++ (if st.openers = 1 then [Leaving.clearing] else []) = []
      rw [hquiet.leaving, if_neg hlast]
      rfl
    · show st.sessions = st.flushes + if st.files.erase tgid = [] then 0 else 1
      rw [if_neg hleft]
      exact hsession

/-- A release takes the slots back one after another, and flushes when it has them all. -/
theorem Parted.reclaim (h : st.Parted slots) {index : Nat}
    (hstep : next slots st (.reclaim index) = some following) :
    following.Quiet slots ∨ ∃ point, following.Leaves point := by
  obtain ⟨slot, hat, hcases⟩ := reclaim_cases hstep
  obtain ⟨rfl, hleaves⟩ := h.leaves hat
  obtain ⟨hslot, rfl⟩ | ⟨hall, rfl⟩ := hcases
  · refine .inr ⟨.reclaiming (slot + 1), ?_, hleaves.files, ?_, hleaves.flushes⟩
    · show st.leaving.set 0 _ = _
      rw [hleaves.leaving]
      rfl
    · intro other hother
      show Function.update st.owned slot none other = none
      obtain rfl | hbelow := Nat.eq_or_lt_of_le (Nat.le_of_lt_succ hother)
      · exact Function.update_self ..
      · rw [Function.update_of_ne (Nat.ne_of_lt hbelow)]
        exact hleaves.empty other hbelow
  · refine .inl ⟨?_, fun _ other hother => hleaves.empty other (Nat.lt_of_lt_of_le hother hall), ?_⟩
    · show st.leaving.eraseIdx 0 = []
      rw [hleaves.leaving]
      rfl
    · show st.sessions = st.flushes + 1 + if st.files = [] then 0 else 1
      rw [if_pos hleaves.files]
      exact hleaves.flushes

/-- Where a file is open the table is the client's. -/
theorem Quiet.of_file (h : st.Quiet slots) {tgid : Nat} (hfile : tgid ∈ st.files)
    (owned : Nat → Option Nat) : Quiet slots { st with owned := owned } :=
  ⟨h.leaving, fun hnone => absurd hnone (List.ne_nil_of_mem hfile), h.flushes⟩

theorem Parted.step (h : st.Parted slots) (hfree : st.TakenFree event)
    (hstep : next slots st event = some following) : following.Parted slots := by
  refine ⟨h.counted.step hstep, h.counted.named_next h.named (h.keepsOwner hstep) hstep, ?_⟩
  cases event with
  | openTest tgid =>
      obtain ⟨-, -, ⟨-, rfl⟩ | ⟨-, rfl⟩⟩ := openTest_cases hstep
      · exact h.phase.imp (fun hq => ⟨hq.leaving, hq.empty, hq.flushes⟩)
          fun ⟨point, hl⟩ => ⟨point, hl.leaving, hl.files, hl.empty, hl.flushes⟩
      · exact h.phase.imp (fun hq => ⟨hq.leaving, hq.empty, hq.flushes⟩)
          fun ⟨point, hl⟩ => ⟨point, hl.leaving, hl.files, hl.empty, hl.flushes⟩
  | openTake =>
      obtain ⟨tgid, -, rfl⟩ := openTake_cases hstep
      exact .inl (h.openTake hfree tgid)
  | close tgid =>
      obtain ⟨hfile, hfollowing⟩ := of_guard hstep
      exact h.close hfile hfollowing
  | clearOwner index =>
      obtain ⟨⟨hat, -⟩, rfl⟩ := of_guard hstep
      obtain ⟨rfl, hleaves⟩ := h.leaves hat
      refine .inr ⟨.reclaiming 0, ?_, hleaves.files, fun slot hslot => ?_, hleaves.flushes⟩
      · show st.leaving.set 0 _ = _
        rw [hleaves.leaving]
        rfl
      · exact absurd hslot (Nat.not_lt_zero slot)
  | reclaim index => exact h.reclaim hstep
  | checkOut tgid slot =>
      obtain ⟨⟨hfile, -⟩, rfl⟩ := of_guard hstep
      exact .inl ((h.quiet hfile).of_file hfile _)
  | putBack tgid slot =>
      obtain ⟨hfile, rfl | rfl⟩ := putBack_cases hstep
      · exact h.phase
      · exact .inl ((h.quiet hfile).of_file hfile _)
  | smReset fmt =>
      obtain rfl := Option.some.inj hstep
      exact h.phase.imp (fun hq => ⟨hq.leaving, hq.empty, hq.flushes⟩)
        fun ⟨point, hl⟩ => ⟨point, hl.leaving, hl.files, hl.empty, hl.flushes⟩

theorem parted_loaded : loaded.Parted slots :=
  ⟨counted_loaded, nofun, .inl ⟨rfl, fun _ _ _ => rfl, rfl⟩⟩

/-- With the owner named, the test refuses exactly those who come beside another process. -/
theorem Counted.admits_iff (h : st.Counted) (hnamed : st.Named) (tgid : Nat) :
    st.Admits tgid ↔ ∀ other ∈ st.files, other = tgid := by
  constructor
  · intro hin other hother
    have hopeners : 0 < st.openers := by
      rw [h.openers]
      exact List.length_pos_of_mem hother
    rw [← hnamed other hother]
    by_contra hne
    exact hin ⟨hopeners, hne⟩
  · rintro hall ⟨hopeners, hne⟩
    rw [h.openers] at hopeners
    obtain ⟨other, hother⟩ := List.exists_mem_of_length_pos hopeners
    exact hne ((hnamed other hother).trans (hall other hother))

theorem Parted.apart (h : st.Parted slots) (hfree : st.TakenFree event)
    (hstep : next slots st event = some following) : st.Apart slots event following := by
  cases event with
  | openTest tgid =>
      have hiff := h.counted.admits_iff h.named tgid
      obtain ⟨-, -, ⟨hin, rfl⟩ | ⟨hout, rfl⟩⟩ := openTest_cases hstep
      · refine iff_of_false (Nat.ne_of_lt (Nat.lt_succ_self _)) ?_
        rintro ⟨other, hother, hne⟩
        exact hne (hiff.mp hin other hother)
      · refine iff_of_true rfl ?_
        have hother := mt hiff.mpr hout
        push Not at hother
        exact hother
  | openTake =>
      intro hnone
      have hquiet := h.quiet_of_free hfree
      refine ⟨hquiet.empty hnone, ?_⟩
      rw [hquiet.flushes, if_pos hnone]
      rfl
  | reclaim index =>
      obtain ⟨slot, hat, -⟩ := reclaim_cases hstep
      exact (h.leaves hat).2.files
  | close _ | clearOwner _ | checkOut _ _ | putBack _ _ | smReset _ => trivial

/-- A client leaves with a slot checked out, and the next one comes when it has been taken back. -/
def twoClients : List Event :=
  [.openTest 7, .openTake, .checkOut 7 0, .openTest 9, .close 7, .clearOwner 0, .reclaim 0,
    .reclaim 0, .openTest 9, .openTake]

/-- A client that opens the endpoint again while its first release is under way loses the slot it
has checked out since, and is refused when it opens another file. -/
example :
    (run (next 1) loaded [.openTest 7, .openTake, .close 7, .openTest 7, .openTake, .checkOut 7 0,
      .clearOwner 0, .reclaim 0, .openTest 7]).map
        (fun st => (st.files, st.owned 0, st.openRefused)) = some ([7], none, 1) := by decide

end Endpoint

end RfnmDriver.Session.DataEndpoint
