import RfnmDriver.Library.StepSystem
import RfnmDriver.Vspa.RunningImage

/-!
# The corrector's thread and the images of the VSPA

`rfnm_qec` writes coefficients to addresses that belong to one image. Its thread looks at
`rfnm_vspa_boot_gen` once in a pass: a boot since the last look makes it stop, until
`qec_verify_layout` finds both structures by the values that the firmware keeps in them. Loads run
beside it, and the loader keeps the thread off the memory while one is at work. It does not while
the endpoint is reset: the fence is down again before the probe, and the load begins after it, so
that the thread may write into a memory that no boot has announced (`reset_unheard`). Read
`writes_verified` first.
-/

namespace RfnmDriver.Rx.Corrector

open StepSystem Vspa

/-- `iq_comp_params2_rx` at `QEC_PARAMS2_DMEM` and `iq_comp_params2_rx_dec` at
`QEC_PARAMS2_DEC_DMEM`. -/
inductive Params2 where
  | full
  | decimated
  deriving DecidableEq, Repr

/-- `qec_cs_main` and `qec_cs_dec`. -/
def Params2.circsizes : Params2 → List (BitVec 32)
  | .full => [4608#32]
  | .decimated => [4992#32, 832#32, 512#32, 256#32]

/-- Which call of `qec_dma_write_params` it is. -/
inductive Call where
  /-- The one behind a layout that has been verified. -/
  | revive
  /-- The one of `qec_poll` at the start of a stream. -/
  | resume
  /-- The one of `qec_poll` behind a solve. -/
  | solve
  deriving DecidableEq, Repr

/-- Where the thread is. -/
inductive Point where
  /-- Before its first statement. -/
  | start
  /-- At the head of its loop. -/
  | look
  /-- At a transfer of `qec_verify_layout`. -/
  | verify (params2 : Params2)
  /-- At a transfer of `qec_dma_write_params`. -/
  | write (params2 : Params2) (call : Call)
  /-- At the start of a stream in `qec_poll`, if it comes to it. -/
  | poll
  /-- At the solve in `qec_poll`, if it comes to it. -/
  | solve
  deriving DecidableEq, Repr

/-- The thread, and the registry with the core. -/
structure Thread where
  core : Core
  /-- `rfnm_vspa_boot_gen`. -/
  bootGen : Nat
  /-- `rfnm_la9310_mmio_fenced`. -/
  fenced : Bool
  point : Point
  /-- `last_boot_gen`. -/
  lastBootGen : Nat
  corrDead : Bool
  statDmaErr : Nat
  /-- The images that the core's memory has had. -/
  images : Nat
  /-- Which of them a structure was found in last. -/
  verified : Params2 → Option Nat
  /-- A boot has finished since the thread's last look, or since the module's own check. -/
  booted : Bool
  /-- The memory was reset, or a load of it has begun, and no boot has finished since. -/
  dirty : Bool

/-- What happens beside and in the thread. -/
inductive Event where
  /-- The registry is asked for something, or a load goes on. -/
  | core (event : CoreEvent)
  /-- `rfnm_la9310_mmio_fence` is raised, or lowered with the link up again. -/
  | fence (fenced : Bool)
  /-- The endpoint is reset, or its prober loads a file that is not in the registry. -/
  | reset
  | start
  /-- The head of the loop; the revival is due or not. -/
  | look (due : Bool)
  /-- A transfer that reads a circsize; it is completed in time or not. -/
  | read (got : BitVec 32) (completed : Bool)
  /-- A transfer that writes a structure; it is completed in time or not. -/
  | write (completed : Bool)
  /-- The poll comes to the start of a stream, or does not. -/
  | poll (resumes : Bool)
  /-- The poll comes to a solve, or does not. -/
  | solve (solves : Bool)

namespace Thread

variable (st : Thread)

/-- `qec_dma_xfer` goes through. `rfnm_vspa_loader_busy` is set from before a load until it is
finished, and a load waits for longer than a transfer takes. -/
def goesThrough (completed : Bool) : Bool :=
  !st.fenced && st.core.loading.isNone && completed

/-- A refused transfer is counted. -/
def countErr : Thread :=
  { st with statDmaErr := st.statDmaErr + 1 }

/-- The memory has another image, or part of one. -/
def wipe : Thread :=
  { st with images := st.images + 1, dirty := true }

/-- An event of the registry. A load that begins, and a fresh endpoint, put another image into the
memory; a boot that succeeds is a generation. -/
def coreStep (event : CoreEvent) (following : Core) : Thread :=
  let moved := { st with core := following }
  match event with
  | .probe _ => moved.wipe
  | .boot _ _ => if following.loading.isSome then moved.wipe else moved
  | .finish true => { moved with bootGen := st.bootGen + 1, booted := true, dirty := false }
  | _ => moved

/-- The head of the loop of `qec_thread_fn`. -/
def look (due : Bool) : Thread :=
  let looked := { st with
    lastBootGen := st.bootGen
    corrDead := st.corrDead || decide (st.bootGen ≠ st.lastBootGen)
    booted := false }
  { looked with point := if looked.corrDead && due then .verify .full else .poll }

/-- A transfer of `qec_verify_layout`. -/
def read (params2 : Params2) (got : BitVec 32) (completed : Bool) : Thread :=
  if st.goesThrough completed then
    if got ∈ params2.circsizes then
      { st with
        verified := Function.update st.verified params2 (some st.images)
        point := match params2 with
          | .full => .verify .decimated
          | .decimated => .write .full .revive }
    else { st with point := .poll }
  else { st.countErr with point := .poll }

/-- Where the thread goes on behind `qec_dma_write_params`. -/
def Call.back : Call → Point
  | .revive => .poll
  | .resume => .solve
  | .solve => .look

/-- A transfer of `qec_dma_write_params`. -/
def write (params2 : Params2) (call : Call) (completed : Bool) : Thread :=
  if st.goesThrough completed then
    match params2 with
    | .full => { st with point := .write .decimated call }
    | .decimated =>
        { st with
          corrDead := st.corrDead && decide (call ≠ .revive)
          point := Call.back call }
  else { st.countErr with point := Call.back call }

/-- One event. -/
def next : Event → Option Thread
  | .core event => (st.core.next event).map (st.coreStep event)
  | .fence fenced => some { st with fenced := fenced }
  | .reset => some st.wipe
  | .start =>
      match st.point with
      | .start => some { st with lastBootGen := st.bootGen, point := .look }
      | _ => none
  | .look due =>
      match st.point with
      | .look => some (st.look due)
      | _ => none
  | .read got completed =>
      match st.point with
      | .verify params2 => some (st.read params2 got completed)
      | _ => none
  | .write completed =>
      match st.point with
      | .write params2 call => some (st.write params2 call completed)
      | _ => none
  | .poll resumes =>
      match st.point with
      | .poll =>
          some { st with
            point := if resumes && !st.corrDead then .write .full .resume else .solve }
      | _ => none
  | .solve solves =>
      match st.point with
      | .solve =>
          some { st with
            point := if solves && !st.corrDead then .write .full .solve else .look }
      | _ => none

/-- `qec_init` has checked the layout, and has written the coefficients where it found it. -/
def loaded (core : Core) (bootGen : Nat) (found : Bool) : Thread where
  core := core
  bootGen := bootGen
  fenced := false
  point := .start
  lastBootGen := 0
  corrDead := !found
  statDmaErr := 0
  images := 0
  verified := fun _ => if found then some 0 else none
  booted := false
  dirty := false

/-! ## The property and the condition -/

/-- Coefficients go into an image that the structure was found in, unless a boot has finished since
the thread's last look, or the memory was reset or half loaded and no boot has finished since. -/
def Verified (st : Thread) (event : Event) (_following : Thread) : Prop :=
  match event with
  | .write completed => ∀ params2 call, st.point = .write params2 call →
      st.goesThrough completed = true →
        st.verified params2 = some st.images ∨ st.booted = true ∨ st.dirty = true
  | _ => True

/-- The thread starts before a boot can get between it and the module's own check. -/
def Prompt (st : Thread) : Event → Prop
  | .start => st.booted = false
  | _ => True

instance Prompt.decidable (st : Thread) : ∀ event, Decidable (Prompt st event)
  | .start => inferInstanceAs (Decidable (st.booted = false))
  | .core _ | .fence _ | .reset | .look _ | .read _ _ | .write _ | .poll _ | .solve _ =>
      inferInstanceAs (Decidable True)

/-! ## The invariant -/

/-- The structure was found in the image of the memory, or the memory has changed or a boot has
come since. -/
def Found (params2 : Params2) : Prop :=
  st.booted = true ∨ st.dirty = true ∨ st.verified params2 = some st.images

/-- What has been found by the time the thread is here. -/
def FoundAt : Point → Prop
  | .start | .look | .verify .full | .poll | .solve => True
  | .verify .decimated => st.Found .full
  | .write _ .revive => ∀ params2, st.Found params2
  | .write _ .resume | .write _ .solve => st.corrDead = false

/-- The generation tells a boot since the last look, and a corrector that is not dead has found
both. -/
structure Inv (st : Thread) : Prop where
  le : st.point ≠ .start → st.lastBootGen ≤ st.bootGen
  heard : st.point ≠ .start → st.booted = true → st.lastBootGen < st.bootGen
  alive : st.corrDead = false → ∀ params2, st.Found params2
  here : st.FoundAt st.point

variable {st} {following : Thread} {event : Event}

/-! ## The events of the registry -/

/-- The registry moves nothing of the thread's own. -/
theorem coreStep_same (st : Thread) (event : CoreEvent) (after : Core) :
    (st.coreStep event after).point = st.point ∧
      (st.coreStep event after).lastBootGen = st.lastBootGen ∧
      (st.coreStep event after).corrDead = st.corrDead ∧
      (st.coreStep event after).verified = st.verified := by
  unfold coreStep
  split
  · exact ⟨rfl, rfl, rfl, rfl⟩
  · split
    · exact ⟨rfl, rfl, rfl, rfl⟩
    · exact ⟨rfl, rfl, rfl, rfl⟩
  · exact ⟨rfl, rfl, rfl, rfl⟩
  · exact ⟨rfl, rfl, rfl, rfl⟩

/-- A boot that is noted is a generation. -/
theorem coreStep_gen (st : Thread) (event : CoreEvent) (after : Core) :
    ((st.coreStep event after).bootGen = st.bootGen ∧
      (st.coreStep event after).booted = st.booted) ∨
    (st.coreStep event after).bootGen = st.bootGen + 1 := by
  unfold coreStep
  split
  · exact .inl ⟨rfl, rfl⟩
  · split
    · exact .inl ⟨rfl, rfl⟩
    · exact .inl ⟨rfl, rfl⟩
  · exact .inr rfl
  · exact .inl ⟨rfl, rfl⟩

/-- An event of the registry is a boot, leaves the memory dirty, or leaves it as it is. -/
theorem coreStep_cases (st : Thread) (event : CoreEvent) (after : Core) :
    (st.coreStep event after).booted = true ∨ (st.coreStep event after).dirty = true ∨
    ((st.coreStep event after).images = st.images ∧
      (st.coreStep event after).booted = st.booted ∧
      (st.coreStep event after).dirty = st.dirty) := by
  unfold coreStep
  split
  · exact .inr (.inl rfl)
  · split
    · exact .inr (.inl rfl)
    · exact .inr (.inr ⟨rfl, rfl, rfl⟩)
  · exact .inl rfl
  · exact .inr (.inr ⟨rfl, rfl, rfl⟩)

/-- It keeps what has been found. -/
theorem Found.coreStep {params2 : Params2} (h : st.Found params2) (event : CoreEvent)
    (after : Core) : (st.coreStep event after).Found params2 := by
  obtain ⟨-, -, -, hverified⟩ := coreStep_same st event after
  obtain hbooted | hdirty | ⟨himages, hbooted, hdirty⟩ := coreStep_cases st event after
  · exact .inl hbooted
  · exact .inr (.inl hdirty)
  · unfold Found
    rw [hbooted, hdirty, hverified, himages]
    exact h

/-- And it keeps the invariant. -/
theorem Inv.coreStep (h : st.Inv) (event : CoreEvent) (after : Core) :
    (st.coreStep event after).Inv := by
  obtain ⟨hpoint, hlast, hdead, -⟩ := coreStep_same st event after
  have hfound : ∀ params2, st.Found params2 → (st.coreStep event after).Found params2 :=
    fun _ hfound => hfound.coreStep event after
  refine ⟨fun hstarted => ?_, fun hstarted hbooted => ?_, fun halive params2 => ?_, ?_⟩
  · have hle := h.le (hpoint ▸ hstarted)
    obtain ⟨hgen, -⟩ | hgen := coreStep_gen st event after
    · omega
    · omega
  · have hle := h.le (hpoint ▸ hstarted)
    obtain ⟨hgen, hsame⟩ | hgen := coreStep_gen st event after
    · have hlt := h.heard (hpoint ▸ hstarted) (hsame ▸ hbooted)
      omega
    · omega
  · exact hfound params2 (h.alive (hdead ▸ halive) params2)
  · have hhere := h.here
    rw [hpoint]
    cases hat : st.point with
    | start | look | poll | solve => trivial
    | verify params2 =>
        rw [hat] at hhere
        cases params2 with
        | full => trivial
        | decimated => exact hfound _ hhere
    | write params2 call =>
        rw [hat] at hhere
        cases call with
        | revive => exact fun params2 => hfound params2 (hhere params2)
        | resume | solve => exact hdead.trans hhere

/-- A memory that is reset is dirty, and nothing has to be found in it. -/
theorem Inv.wipe (h : st.Inv) : st.wipe.Inv := by
  have hfound : ∀ params2, st.wipe.Found params2 := fun _ => .inr (.inl rfl)
  refine ⟨h.le, h.heard, fun _ => hfound, ?_⟩
  have hhere := h.here
  show st.wipe.FoundAt st.point
  cases hat : st.point with
  | start | look | poll | solve => trivial
  | verify params2 =>
      cases params2 with
      | full => trivial
      | decimated => exact hfound _
  | write params2 call =>
      rw [hat] at hhere
      cases call with
      | revive => exact hfound
      | resume | solve => exact hhere

/-! ## The events of the thread -/

/-- The link is not the corrector's matter. -/
theorem Inv.fence (h : st.Inv) (fenced : Bool) : Inv { st with fenced := fenced } :=
  ⟨h.le, h.heard, h.alive, h.here⟩

/-- The first look behind the module's own check. -/
theorem Inv.start (h : st.Inv) (hbooted : st.booted = false) :
    Inv { st with lastBootGen := st.bootGen, point := .look } :=
  ⟨fun _ => Nat.le_refl _, fun _ hboot => absurd hboot (by simp only [hbooted, Bool.false_eq_true,
    not_false_eq_true]), h.alive, trivial⟩

/-- A look at the generations hears a boot. -/
theorem Inv.look (h : st.Inv) (hpoint : st.point = .look) (due : Bool) : (st.look due).Inv := by
  have hstarted : st.point ≠ .start := hpoint ▸ nofun
  refine ⟨fun _ => Nat.le_refl _, fun _ hbooted => absurd hbooted Bool.false_ne_true,
    fun halive params2 => ?_, ?_⟩
  · obtain ⟨halive, hgen⟩ := Bool.or_eq_false_iff.mp halive
    have hgen : st.bootGen = st.lastBootGen := not_not.mp (decide_eq_false_iff_not.mp hgen)
    obtain hbooted | hdirty | hfound := h.alive halive params2
    · have hlt := h.heard hstarted hbooted
      omega
    · exact .inr (.inl hdirty)
    · exact .inr (.inr hfound)
  · unfold Thread.look
    dsimp only
    split
    · trivial
    · trivial

/-- What has been found stays found, and it is found in the image of the memory now. -/
theorem Found.update {params2 : Params2} (other : Params2) (point : Point)
    (h : st.Found params2 ∨ params2 = other) :
    Found { st with
      verified := Function.update st.verified other (some st.images)
      point := point } params2 := by
  by_cases hother : params2 = other
  · obtain rfl := hother
    exact .inr (.inr (Function.update_self ..))
  · obtain hbooted | hdirty | hfound := h.resolve_right hother
    · exact .inl hbooted
    · exact .inr (.inl hdirty)
    · exact .inr (.inr ((Function.update_of_ne hother ..).trans hfound))

/-- A transfer of the check. -/
theorem Inv.read (h : st.Inv) {params2 : Params2} (hpoint : st.point = .verify params2)
    (got : BitVec 32) (completed : Bool) : (st.read params2 got completed).Inv := by
  have hstarted : st.point ≠ .start := hpoint ▸ nofun
  have hhere := h.here
  rw [hpoint] at hhere
  unfold Thread.read
  split
  · split
    · refine ⟨fun _ => h.le hstarted, fun _ => h.heard hstarted,
        fun halive _ => .update _ _ (.inl (h.alive halive _)), ?_⟩
      cases params2 with
      | full => exact .update _ _ (.inr rfl)
      | decimated =>
          intro params2
          cases params2 with
          | full => exact .update _ _ (.inl hhere)
          | decimated => exact .update _ _ (.inr rfl)
    · exact ⟨fun _ => h.le hstarted, fun _ => h.heard hstarted, h.alive, trivial⟩
  · exact ⟨fun _ => h.le hstarted, fun _ => h.heard hstarted, h.alive, trivial⟩

/-- Nothing is asked of the thread where a write leaves it. -/
theorem foundAt_back (st : Thread) (call : Call) : st.FoundAt (Call.back call) := by
  cases call with
  | revive | resume | solve => trivial

/-- A transfer of the coefficients. -/
theorem Inv.write (h : st.Inv) {params2 : Params2} {call : Call}
    (hpoint : st.point = .write params2 call) (completed : Bool) :
    (st.write params2 call completed).Inv := by
  have hstarted : st.point ≠ .start := hpoint ▸ nofun
  have hhere := h.here
  rw [hpoint] at hhere
  unfold Thread.write
  split
  · split
    · refine ⟨fun _ => h.le hstarted, fun _ => h.heard hstarted, h.alive, ?_⟩
      cases call with
      | revive => exact hhere
      | resume | solve => exact hhere
    · refine ⟨fun _ => h.le hstarted, fun _ => h.heard hstarted, fun halive => ?_,
        foundAt_back _ call⟩
      cases call with
      | revive => exact hhere
      | resume | solve => exact h.alive hhere
  · exact ⟨fun _ => h.le hstarted, fun _ => h.heard hstarted, h.alive, foundAt_back _ call⟩

/-- A poll comes to a call of `qec_dma_write_params` with a corrector that is not dead. -/
theorem Inv.poll (h : st.Inv) (hstarted : st.point ≠ .start) {wanted : Bool} {call : Call}
    {otherwise : Point} (hcall : call ≠ .revive) (hotherwise : st.FoundAt otherwise) :
    Inv { st with
      point := if wanted && !st.corrDead then .write .full call else otherwise } := by
  refine ⟨fun _ => h.le hstarted, fun _ => h.heard hstarted, h.alive, ?_⟩
  split
  · next hwanted =>
    simp only [Bool.and_eq_true, Bool.not_eq_eq_eq_not, Bool.not_true] at hwanted
    cases call with
    | revive => exact absurd rfl hcall
    | resume | solve => exact hwanted.2
  · exact hotherwise

/-- Every event of the run keeps the invariant. -/
theorem Inv.next (h : st.Inv) (hprompt : st.Prompt event)
    (hnext : st.next event = some following) : following.Inv := by
  unfold Thread.next at hnext
  split at hnext
  · obtain ⟨after, -, rfl⟩ := Option.map_eq_some_iff.mp hnext
    exact h.coreStep _ after
  · obtain rfl := Option.some.inj hnext
    exact h.fence _
  · obtain rfl := Option.some.inj hnext
    exact h.wipe
  · split at hnext
    · obtain rfl := Option.some.inj hnext
      exact h.start hprompt
    · cases hnext
  · split at hnext
    · next hpoint =>
      obtain rfl := Option.some.inj hnext
      exact h.look hpoint _
    · cases hnext
  · split at hnext
    · next hpoint =>
      obtain rfl := Option.some.inj hnext
      exact h.read hpoint _ _
    · cases hnext
  · split at hnext
    · next hpoint =>
      obtain rfl := Option.some.inj hnext
      exact h.write hpoint _
    · cases hnext
  · split at hnext
    · next hpoint =>
      obtain rfl := Option.some.inj hnext
      exact h.poll (hpoint ▸ nofun) nofun trivial
    · cases hnext
  · split at hnext
    · next hpoint =>
      obtain rfl := Option.some.inj hnext
      exact h.poll (hpoint ▸ nofun) nofun trivial
    · cases hnext

/-- The module starts with what its own check has found. -/
theorem loaded_inv (core : Core) (bootGen : Nat) (found : Bool) :
    (loaded core bootGen found).Inv := by
  refine ⟨fun h => absurd rfl h, fun h => absurd rfl h, fun halive params2 => ?_, trivial⟩
  cases found with
  | false => exact absurd halive Bool.noConfusion
  | true => exact .inr (.inr rfl)

/-- A write goes into a verified image. -/
theorem verified_of_inv (h : st.Inv) (event : Event) : Verified st event following := by
  unfold Verified
  split
  · intro params2 call hpoint _
    have hfound : st.Found params2 := by
      have hhere := h.here
      rw [hpoint] at hhere
      cases call with
      | revive => exact hhere params2
      | resume | solve => exact h.alive hhere params2
    obtain hbooted | hdirty | hverified := hfound
    · exact .inr (.inl hbooted)
    · exact .inr (.inr hdirty)
    · exact .inl hverified
  · trivial

/-- A fast swap under a corrector that works: the coefficients go to the first image, a transfer is
refused, and both structures are found in the second before the coefficients go there. Then the
endpoint is reset and boots again. -/
def swapped : List Event :=
  [.start, .look false, .poll true, .write true, .write true, .core (.boot true true), .solve true,
    .write true, .core (.finish true), .look true, .read 4608#32 true, .read 832#32 true,
    .write true, .write true, .fence true, .reset, .poll true, .write true, .fence false,
    .solve false, .core (.probe true), .core (.finish true), .look true, .read 4608#32 true]

/-- The exception for a reset is real: the fence is down and nothing is loaded yet, and a corrector
that has not heard of it writes into an image that nothing was found in. -/
theorem reset_unheard :
    (run next (loaded replacedCore 0 true) [.start, .fence true, .reset, .fence false,
      .look false, .poll true, .write true]).map
        (fun st => (st.verified .full, st.images, st.booted, st.point)) =
      some (some 0, 1, false, .write .decimated .resume) := by
  decide +kernel

end Thread

end RfnmDriver.Rx.Corrector
