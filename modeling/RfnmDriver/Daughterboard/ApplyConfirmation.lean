import RfnmDriver.Daughterboard.ConfirmedApply

/-!
# Orderly sessions confirm whole applications

While the work walks, the data are those of `visitAll` from the data it started with, and the list
in the buffer is one of the session. `confirmed_of_orderly` is the result for runs, for both
directions.
-/

namespace RfnmDriver.Daughterboard

open StepSystem

variable {Host Ch : Type} {dir : Direction Ch} {count : Nat} {system following : System Host Ch}
  {data start : Data Ch} {devices : Nat → Int} {list buffer : ChList Ch}

/-! ## The list in the buffer -/

/-- A list is in the buffer right after the copy. -/
theorem Alike.refl (list : ChList Ch) : Alike dir list list :=
  ⟨rfl, rfl, fun _ => .inl rfl⟩

/-- The walk changes the buffer in nothing but the gains it takes from the live channels. -/
theorem alike_visit (h : Alike dir list data.list) (present : BitVec 8) (d : Nat) (device : Int) :
    Alike dir list (visit dir (data, present) d device).1.list := by
  obtain ⟨hcc, happly, hch⟩ := h
  have hreceived : ∀ i, Function.update data.list.ch d
      (dir.receive (data.channels d) (data.list.ch d)) i = list.ch i ∨
        ∃ live, Function.update data.list.ch d
          (dir.receive (data.channels d) (data.list.ch d)) i = dir.receive live (list.ch i) := by
    intro i
    by_cases hsame : i = d
    · subst hsame
      rw [Function.update_self]
      rcases hch i with hkept | ⟨live, hlive⟩
      · exact .inr ⟨data.channels i, by rw [hkept]⟩
      · exact .inr ⟨data.channels i, by rw [hlive, dir.receive_receive]⟩
    · rw [Function.update_of_ne hsame]
      exact hch i
  unfold visit
  dsimp only
  split
  · exact ⟨hcc, happly, hch⟩
  · split
    · exact ⟨hcc, happly, hreceived⟩
    · exact ⟨hcc, happly, hreceived⟩

/-- So does the whole walk. -/
theorem alike_visitAll (h : Alike dir list start.list) (devices : Nat → Int) (d : Nat) :
    Alike dir list (visitAll dir start devices d).1.list := by
  induction d with
  | zero => exact h
  | succ d ih => exact alike_visit ih _ d (devices d)

/-- The walk does not touch the confirmed cc. -/
theorem visit_cc (walk : Walk Ch) (d : Nat) (device : Int) :
    (visit dir walk d device).1.cc = walk.1.cc := by
  unfold visit
  dsimp only
  split
  · rfl
  · split <;> rfl

/-- The first channels of the walk do not depend on what the device layer says of the later ones. -/
theorem visitAll_congr {other : Nat → Int} {d : Nat} (h : ∀ i < d, devices i = other i) :
    visitAll dir start devices d = visitAll dir start other d := by
  induction d with
  | zero => rfl
  | succ d ih =>
      have hfirst := ih fun i hi => h i (by omega)
      simp only [visitAll, hfirst, h d (by omega)]

/-! ## The invariant -/

/-- The data are those of a list of the session. -/
def Started (dir : Direction Ch) (system : System Host Ch) (data : Data Ch) : Prop :=
  ∃ list ∈ system.session, Alike dir list data.list

/-- What the data are, by the place of the work. -/
def WalkOk (dir : Direction Ch) (count : Nat) (system : System Host Ch) : Worker → Prop
  | .idle => system.Confirmed dir count
  | .waiting => system.data.rej = fun _ => .none
  | .visiting d present => ∃ start devices, Started dir system start ∧
      (system.data, present) = visitAll dir (clearEcodes (clearRej start)) devices d
  | .marked => ∃ start devices, Started dir system start ∧
      system.data =
        markMissing dir (visitAll dir (clearEcodes (clearRej start)) devices count)
  | .streamed => ∃ start devices ret, Started dir system start ∧
      system.data = noteStream dir
        (markMissing dir (visitAll dir (clearEcodes (clearRej start)) devices count)) ret

/-- The invariant of orderly runs. -/
structure Inv (dir : Direction Ch) (count : Nat) (system : System Host Ch) : Prop where
  named : ∀ list ∈ system.session, list.cc ≠ 0
  distinct : ∀ list ∈ system.session, ∀ other ∈ system.session, list.cc = other.cc → list = other
  /-- The confirmed cc is clear, or that of a list of the session. -/
  stamped : system.data.cc = 0 ∨ ∃ list ∈ system.session, list.cc = system.data.cc
  /-- A host that is about to copy holds a list of the session. -/
  held : ∀ host list, system.submission host = .accepted list ∨
    system.submission host = .cancelled list → list ∈ system.session
  /-- What the work will apply, or applies, is a list of the session. -/
  pending : system.work = true ∨ system.worker ≠ .idle ∨
    (∃ host, system.submission host = .copied) → Started dir system system.data
  /-- While a restart runs, the work does not walk. -/
  restart : system.restartRunning = true → system.worker.Aside
  walk : WalkOk dir count system system.worker

/-- What a whole application leaves is confirmed by the cc of its list. -/
theorem confirmed_of_application (hdistinct : ∀ list ∈ system.session,
      ∀ other ∈ system.session, list.cc = other.cc → list = other)
    (hstart : Started dir system start) (hcc : system.data.cc = start.list.cc) (outcome : Outcome)
    (hreads : ReadsAs system.data (application dir count start outcome)) :
    system.Confirmed dir count := by
  obtain ⟨applied, hin, halike⟩ := hstart
  intro list hlist hmatch
  have hsame : list = applied :=
    hdistinct list hlist applied hin (hmatch.trans (hcc.trans halike.1))
  subst hsame
  exact ⟨start, outcome, halike, hreads⟩

/-- While no list of the session has cc 0, a cleared result confirms nothing. -/
theorem confirmed_of_clear (hnamed : ∀ list ∈ system.session, list.cc ≠ 0)
    (hcc : system.data.cc = 0) : system.Confirmed dir count :=
  fun list hlist hmatch => absurd (hmatch.trans hcc) (hnamed list hlist)

/-! ## The work -/

/-- The work starts on a list of the session. -/
theorem workStart_inv (h : Inv dir count system) (hwork : system.work = true) :
    Inv dir count { system with data := clearRej system.data, work := false, worker := .waiting } :=
  { h with
    pending := fun _ => h.pending (.inl hwork)
    restart := fun _ => trivial
    walk := rfl }

/-- A busy work applies a list of the session. -/
theorem Inv.started (h : Inv dir count system) (hbusy : system.worker ≠ .idle) :
    Started dir system system.data :=
  h.pending (.inr (.inl hbusy))

/-- What holds at the place the work is at. -/
theorem Inv.walkAt (h : Inv dir count system) {worker : Worker} (hworker : system.worker = worker) :
    WalkOk dir count system worker := by
  rw [← hworker]
  exact h.walk

/-- A waiting work has cleared the rejects. -/
theorem Inv.clearRej_eq (h : Inv dir count system) (hworker : system.worker = .waiting) :
    clearRej system.data = system.data := by
  have hrej : system.data.rej = fun _ => .none := h.walkAt hworker
  unfold clearRej
  rw [← hrej]

/-- The walk begins. -/
theorem waitDone_inv (h : Inv dir count system) (hworker : system.worker = .waiting)
    (hrestart : system.restartRunning = false) :
    Inv dir count
      { system with data := clearEcodes system.data, worker := .visiting 0 0#8 } := by
  have hstart := h.started (by simp [hworker])
  have hclear := h.clearRej_eq hworker
  refine { h with pending := fun _ => hstart, restart := fun hrunning => ?_, walk := ?_ }
  · simp [hrestart] at hrunning
  · refine ⟨system.data, fun _ => 0, hstart, ?_⟩
    rw [hclear]
    rfl

/-- The work gives up waiting, and confirms that. -/
theorem waitFailed_inv (h : Inv dir count system) (hworker : system.worker = .waiting) :
    Inv dir count
      { system with data := giveUp dir system.data (-eTimedOut), worker := .idle } := by
  have hstart := h.started (by simp [hworker])
  have hclear := h.clearRej_eq hworker
  obtain ⟨list, hlist, halike⟩ := hstart
  refine { h with
    stamped := .inr ⟨list, hlist, halike.1.symm⟩
    pending := fun _ => ⟨list, hlist, halike⟩
    restart := fun _ => trivial
    walk := ?_ }
  refine confirmed_of_application h.distinct ⟨list, hlist, halike⟩ rfl (.gaveUp (-eTimedOut)) ?_
  simp only [application, hclear]
  exact ⟨rfl, rfl, rfl⟩

/-- A place of the walk at which no restart runs. -/
theorem Inv.restart_of_walking (h : Inv dir count system) (hwalking : ¬ system.worker.Aside)
    {worker : Worker} (hrunning : system.restartRunning = true) : worker.Aside :=
  absurd (h.restart hrunning) hwalking

/-- The walk of one channel. -/
theorem visit_inv (h : Inv dir count system) {d : Nat} {present : BitVec 8}
    (hworker : system.worker = .visiting d present) (device : Int) :
    Inv dir count { system with
      data := (visit dir (system.data, present) d device).1
      worker := .visiting (d + 1) (visit dir (system.data, present) d device).2 } := by
  have hwalking : ¬ system.worker.Aside := by simp [hworker, Worker.Aside]
  obtain ⟨start, devices, hstart, hdata⟩ := h.walkAt hworker
  obtain ⟨list, hlist, halike⟩ := h.started (by simp [hworker])
  refine { h with
    stamped := ?_
    pending := fun _ => ⟨list, hlist, alike_visit halike present d device⟩
    restart := fun hrunning => h.restart_of_walking hwalking hrunning
    walk := ⟨start, Function.update devices d device, hstart, ?_⟩ }
  · -- the walk writes no cc
    have hcc : (visit dir (system.data, present) d device).1.cc = system.data.cc :=
      visit_cc (system.data, present) d device
    show (visit dir (system.data, present) d device).1.cc = 0 ∨ _
    rw [hcc]
    exact h.stamped
  · -- the channels before this one were read before its device answered
    have hfirst : visitAll dir (clearEcodes (clearRej start)) (Function.update devices d device) d =
        visitAll dir (clearEcodes (clearRej start)) devices d :=
      visitAll_congr fun i hi => Function.update_of_ne (by omega) _ _
    simp only [visitAll, hfirst, ← hdata, Function.update_self]

/-- The missing channels are marked. -/
theorem mark_inv (h : Inv dir count system) {present : BitVec 8}
    (hworker : system.worker = .visiting count present) :
    Inv dir count { system with
      data := markMissing dir (system.data, present)
      worker := .marked } := by
  have hwalking : ¬ system.worker.Aside := by simp [hworker, Worker.Aside]
  obtain ⟨start, devices, hstart, hdata⟩ := h.walkAt hworker
  have hpending := h.started (by simp [hworker])
  refine { h with
    pending := fun _ => hpending
    restart := fun hrunning => h.restart_of_walking hwalking hrunning
    walk := ⟨start, devices, hstart, ?_⟩ }
  rw [hdata]

/-- The stream call's result is noted. -/
theorem stream_inv (h : Inv dir count system) (hworker : system.worker = .marked) (ret : Int) :
    Inv dir count
      { system with data := noteStream dir system.data ret, worker := .streamed } := by
  have hwalking : ¬ system.worker.Aside := by simp [hworker, Worker.Aside]
  obtain ⟨start, devices, hstart, hdata⟩ := h.walkAt hworker
  have hpending := h.started (by simp [hworker])
  have hkeep : (noteStream dir system.data ret).cc = system.data.cc ∧
      (noteStream dir system.data ret).list = system.data.list := by
    unfold noteStream
    split <;> exact ⟨rfl, rfl⟩
  refine { h with
    stamped := ?_
    pending := fun _ => ?_
    restart := fun hrunning => h.restart_of_walking hwalking hrunning
    walk := ⟨start, devices, ret, hstart, by rw [hdata]⟩ }
  · show (noteStream dir system.data ret).cc = 0 ∨ _
    rw [hkeep.1]
    exact h.stamped
  · obtain ⟨list, hlist, halike⟩ := hpending
    refine ⟨list, hlist, ?_⟩
    show Alike dir list (noteStream dir system.data ret).list
    rw [hkeep.2]
    exact halike

/-- The list is confirmed. -/
theorem stamp_inv (h : Inv dir count system) (hworker : system.worker = .streamed) :
    Inv dir count { system with data := stamp system.data, worker := .idle } := by
  obtain ⟨start, devices, ret, hstart, hdata⟩ := h.walkAt hworker
  obtain ⟨list, hlist, halike⟩ := h.started (by simp [hworker])
  -- the list confirmed is the one the walk started with, so its cc is
  have hlistcc : system.data.list.cc = start.list.cc := by
    have hwalked : Alike dir start.list
        (visitAll dir (clearEcodes (clearRej start)) devices count).1.list :=
      alike_visitAll (by exact Alike.refl start.list) devices count
    rw [hdata]
    unfold noteStream
    split <;> exact hwalked.1
  refine { h with
    stamped := .inr ⟨list, hlist, halike.1.symm⟩
    pending := fun _ => ⟨list, hlist, halike⟩
    restart := fun _ => trivial
    walk := ?_ }
  refine confirmed_of_application h.distinct hstart hlistcc (.walked devices ret) ?_
  show ReadsAs (stamp system.data) (application dir count start (.walked devices ret))
  rw [hdata]
  exact ⟨rfl, rfl, rfl⟩

/-! ## Resets -/

/-- A session begins while nothing is under way. -/
theorem newSession_inv (hquiet : system.Quiet) (running : Bool) :
    Inv dir count { newSession dir system with restartRunning := running } := by
  obtain ⟨hworker, hwork, hhosts⟩ := hquiet
  have hdone : ∀ host place, system.submission host = place → place.Done := by
    rintro host place rfl
    exact hhosts host
  refine ⟨by simp [newSession], by simp [newSession], .inl rfl, ?_, ?_, fun _ => ?_, ?_⟩
  · rintro host list (hplace | hplace)
    · exact (hdone host _ hplace).elim
    · exact (hdone host _ hplace).elim
  · rintro (hscheduled | hbusy | ⟨host, hplace⟩)
    · exact absurd (hwork.symm.trans hscheduled) (by simp)
    · exact absurd hworker hbusy
    · exact (hdone host _ hplace).elim
  · show system.worker.Aside
    rw [hworker]
    trivial
  · show WalkOk dir count _ system.worker
    rw [hworker]
    exact confirmed_of_clear (by simp [newSession]) rfl

/-- The scheduled restart clears the result block of the session that asked for it. -/
theorem resetRun_inv (h : Inv dir count system) (hrunning : system.restartRunning = true) :
    Inv dir count { system with data := dgbResetSm dir system.data } := by
  have haside := h.restart hrunning
  have hwalk := h.walk
  refine { h with stamped := .inl rfl, pending := h.pending, walk := ?_ }
  show WalkOk dir count _ system.worker
  cases hworker : system.worker with
  | idle => exact confirmed_of_clear h.named rfl
  | waiting =>
      rw [hworker] at hwalk
      exact hwalk
  | visiting | marked | streamed =>
      rw [hworker] at haside
      exact haside.elim

/-! ## Submissions -/

/-- What the walk is about does not change while the session grows. -/
theorem walkOk_of_grown {worker : Worker} (h : WalkOk dir count system worker)
    (hdata : following.data = system.data)
    (hgrown : ∀ list ∈ system.session, list ∈ following.session)
    (hconfirmed : system.Confirmed dir count → following.Confirmed dir count) :
    WalkOk dir count following worker := by
  have hstarted : ∀ {data}, Started dir system data → Started dir following data := by
    intro data ⟨list, hlist, halike⟩
    exact ⟨list, hgrown list hlist, halike⟩
  cases worker with
  | idle => exact hconfirmed h
  | waiting =>
      show following.data.rej = _
      rw [hdata]
      exact h
  | visiting d present =>
      obtain ⟨start, devices, hstart, hwalk⟩ := h
      exact ⟨start, devices, hstarted hstart, by rw [hdata]; exact hwalk⟩
  | marked =>
      obtain ⟨start, devices, hstart, hwalk⟩ := h
      exact ⟨start, devices, hstarted hstart, by rw [hdata]; exact hwalk⟩
  | streamed =>
      obtain ⟨start, devices, ret, hstart, hwalk⟩ := h
      exact ⟨start, devices, ret, hstarted hstart, by rw [hdata]; exact hwalk⟩

/-- The session grows by a list with a fresh cc. -/
theorem grow_inv (h : Inv dir count system) (hcc : list.cc ≠ 0)
    (hfresh : ∀ other ∈ system.session, other.cc ≠ list.cc) :
    Inv dir count { system with session := list :: system.session } := by
  have hgrown : ∀ other ∈ system.session, other ∈ list :: system.session :=
    fun other => List.mem_cons_of_mem list
  have hunstamped : list.cc ≠ system.data.cc := by
    rcases h.stamped with hclear | ⟨other, hother, hmatch⟩
    · rw [hclear]
      exact hcc
    · rw [← hmatch]
      exact (hfresh other hother).symm
  refine ⟨?_, ?_, ?_, fun host taken hin => hgrown taken (h.held host taken hin), ?_, h.restart, ?_⟩
  · rintro other (_ | ⟨_, hother⟩)
    · exact hcc
    · exact h.named other hother
  · rintro first (_ | ⟨_, hfirst⟩) second (_ | ⟨_, hsecond⟩) hmatch
    · rfl
    · exact absurd hmatch.symm (hfresh second hsecond)
    · exact absurd hmatch (hfresh first hfirst)
    · exact h.distinct first hfirst second hsecond hmatch
  · exact h.stamped.imp_right fun ⟨other, hother, hmatch⟩ => ⟨other, hgrown other hother, hmatch⟩
  · intro hpending
    obtain ⟨other, hother, halike⟩ := h.pending hpending
    exact ⟨other, hgrown other hother, halike⟩
  · refine walkOk_of_grown h.walk rfl hgrown fun hconfirmed => ?_
    rintro other (_ | ⟨_, hother⟩) hmatch
    · exact absurd hmatch hunstamped
    · exact hconfirmed other hother hmatch

variable [DecidableEq Host]

/-- A host goes on in its submission: with a list of the session in its hand, or with one in the
buffer. -/
theorem goto_inv (h : Inv dir count system) (host : Host) (place : Submission Ch)
    (hheld : ∀ list, place = .accepted list ∨ place = .cancelled list → list ∈ system.session)
    (hcopied : place = .copied → Started dir system system.data) :
    Inv dir count (system.goto host place) := by
  refine { h with held := fun other list hplace => ?_, pending := fun hpending => ?_ }
  · by_cases hsame : other = host
    · subst hsame
      simp only [System.goto, Function.update_self] at hplace
      exact hheld list hplace
    · simp only [System.goto, Function.update_of_ne hsame] at hplace
      exact h.held other list hplace
  · rcases hpending with hwork | hworker | ⟨other, hplace⟩
    · exact h.pending (.inl hwork)
    · exact h.pending (.inr (.inl hworker))
    · by_cases hsame : other = host
      · subst hsame
        simp only [System.goto, Function.update_self] at hplace
        exact hcopied hplace
      · simp only [System.goto, Function.update_of_ne hsame] at hplace
        exact h.pending (.inr (.inr ⟨other, hplace⟩))

/-- A host submits a list with a fresh cc. -/
theorem submit_inv (h : Inv dir count system) (host : Host) (sessionOk : Bool)
    (hbringup : system.bringupComplete) (hcc : list.cc ≠ 0)
    (hfresh : ∀ other ∈ system.session, other.cc ≠ list.cc) :
    Inv dir count (submit dir system host list sessionOk) := by
  have hgrown := grow_inv h hcc hfresh
  unfold submit
  split
  · rename_i hrefused
    simp [hbringup] at hrefused
  · split
    · exact hgrown
    · refine goto_inv hgrown host (.accepted list) ?_ (by simp)
      rintro taken (hplace | hplace)
      · obtain rfl := Submission.accepted.inj hplace
        exact List.mem_cons_self
      · simp at hplace

/-- A TX host cancels the work. -/
theorem cancel_inv (h : Inv dir count system) (host : Host)
    (hplace : system.submission host = .accepted list) :
    Inv dir count { system.goto host (.cancelled list) with work := false } := by
  have hmoved : Inv dir count (system.goto host (.cancelled list)) := by
    refine goto_inv h host (.cancelled list) ?_ (by simp)
    rintro taken (hother | hsame)
    · simp at hother
    · obtain rfl := Submission.cancelled.inj hsame
      exact h.held host list (.inl hplace)
  refine { hmoved with pending := fun hpending => hmoved.pending ?_ }
  exact hpending.imp_left fun hwork => by simp at hwork

/-- A host copies its list while the work does not walk. -/
theorem copy_inv (h : Inv dir count system) (host : Host) (hlist : list ∈ system.session)
    (haside : system.worker.Aside) : Inv dir count (copy system host list) := by
  have hcopied : Inv dir count { system with data := { system.data with list := list } } := by
    refine { h with pending := fun _ => ⟨list, hlist, Alike.refl list⟩, walk := ?_ }
    have hwalk := h.walk
    show WalkOk dir count _ system.worker
    cases hworker : system.worker with
    | idle =>
        rw [hworker] at hwalk
        intro other hother hmatch
        obtain ⟨start, outcome, halike, hreads⟩ := hwalk other hother hmatch
        exact ⟨start, outcome, halike, hreads⟩
    | waiting =>
        rw [hworker] at hwalk
        exact hwalk
    | visiting | marked | streamed =>
        rw [hworker] at haside
        exact haside.elim
  refine goto_inv hcopied host .copied (by simp) fun _ => ?_
  exact ⟨list, hlist, Alike.refl list⟩

/-- A host schedules the work. -/
theorem schedule_inv (h : Inv dir count system) (host : Host)
    (hplace : system.submission host = .copied) :
    Inv dir count { system.goto host .idle with work := true } := by
  have hstarted := h.pending (.inr (.inr ⟨host, hplace⟩))
  have hmoved : Inv dir count (system.goto host .idle) := goto_inv h host .idle (by simp) (by simp)
  exact { hmoved with pending := fun _ => hstarted }

/-! ## Runs -/

omit [DecidableEq Host] in
/-- Nothing is submitted, and nothing is confirmed. -/
theorem init_inv (list : ChList Ch) (channels : Nat → Ch) :
    Inv dir count (System.init list channels : System Host Ch) where
  named := by simp [System.init]
  distinct := by simp [System.init]
  stamped := .inl rfl
  held := by simp [System.init]
  pending := by simp [System.init]
  restart _ := trivial
  walk := confirmed_of_clear (by simp [System.init]) rfl

/-- Every step of an orderly run keeps the invariant. -/
theorem next_inv {event : Event Host Ch} (h : Inv dir count system)
    (horderly : Orderly system event) (hstep : next dir count system event = some following) :
    Inv dir count following := by
  -- an event that is not enabled has no following state; the others have their lemmas above
  cases event with
  | submit host list sessionOk =>
      obtain ⟨hbringup, hcc, hfresh⟩ := horderly
      simp only [next] at hstep
      split at hstep
      · obtain rfl := Option.some.inj hstep
        exact submit_inv h host sessionOk hbringup hcc hfresh
      · simp at hstep
  | cancel host =>
      simp only [next] at hstep
      split at hstep
      · rename_i hplace _
        split at hstep
        · obtain rfl := Option.some.inj hstep
          exact cancel_inv h host hplace
        · simp at hstep
      · simp at hstep
  | copy host =>
      simp only [next] at hstep
      split at hstep
      · rename_i list hplace
        split at hstep
        · simp at hstep
        · obtain rfl := Option.some.inj hstep
          exact copy_inv h host (h.held host list (.inl hplace)) horderly
      · rename_i list hplace
        obtain rfl := Option.some.inj hstep
        exact copy_inv h host (h.held host list (.inr hplace)) horderly
      · simp at hstep
  | schedule host =>
      simp only [next] at hstep
      split at hstep
      · rename_i hplace
        obtain rfl := Option.some.inj hstep
        exact schedule_inv h host hplace
      · simp at hstep
  | workStart =>
      simp only [next] at hstep
      split at hstep
      · rename_i _ hwork
        obtain rfl := Option.some.inj hstep
        exact workStart_inv h hwork
      · simp at hstep
  | waitDone =>
      simp only [next] at hstep
      split at hstep
      · rename_i hworker hrestart
        obtain rfl := Option.some.inj hstep
        exact waitDone_inv h hworker hrestart
      · simp at hstep
  | waitFailed =>
      simp only [next] at hstep
      split at hstep
      · rename_i hworker _
        obtain rfl := Option.some.inj hstep
        exact waitFailed_inv h hworker
      · simp at hstep
  | visit device =>
      simp only [next] at hstep
      split at hstep
      · rename_i hworker
        split at hstep
        · obtain rfl := Option.some.inj hstep
          exact visit_inv h hworker device
        · simp at hstep
      · simp at hstep
  | mark =>
      simp only [next] at hstep
      split at hstep
      · rename_i d present hworker
        split at hstep
        · rename_i hcount
          subst hcount
          obtain rfl := Option.some.inj hstep
          exact mark_inv h hworker
        · simp at hstep
      · simp at hstep
  | stream ret =>
      simp only [next] at hstep
      split at hstep
      · rename_i hworker
        obtain rfl := Option.some.inj hstep
        exact stream_inv h hworker ret
      · simp at hstep
  | stamp =>
      simp only [next] at hstep
      split at hstep
      · rename_i hworker
        obtain rfl := Option.some.inj hstep
        exact stamp_inv h hworker
      · simp at hstep
  | resetSchedule =>
      simp only [next] at hstep
      split at hstep
      · obtain rfl := Option.some.inj hstep
        exact h
      · rename_i hidle
        obtain rfl := Option.some.inj hstep
        -- an orderly run begins a session while nothing is under way
        exact newSession_inv (horderly (by simpa using hidle)) true
  | resetRun =>
      simp only [next] at hstep
      split at hstep
      · rename_i hrunning
        obtain rfl := Option.some.inj hstep
        exact resetRun_inv h hrunning
      · simp at hstep
  | resetDone =>
      simp only [next] at hstep
      split at hstep
      · obtain rfl := Option.some.inj hstep
        exact { h with restart := fun hrunning => by simp at hrunning }
      · simp at hstep
  | resetNow =>
      obtain rfl := Option.some.inj hstep
      exact newSession_inv horderly system.restartRunning
  | bringupDone =>
      obtain rfl := Option.some.inj hstep
      exact { h with }
  | poll =>
      obtain rfl := Option.some.inj hstep
      exact h

omit [DecidableEq Host] in
/-- An orderly poll reads a confirmed result. -/
theorem pollConfirmed_of_inv {event : Event Host Ch} (h : Inv dir count system)
    (horderly : Orderly system event) : PollConfirmed dir count system event following := by
  cases event with
  | poll =>
      rcases horderly with hidle | hunmatched
      · have hwalk := h.walk
        rw [hidle] at hwalk
        exact hwalk
      · exact fun list hlist hmatch => absurd hmatch (hunmatched list hlist)
  | submit | cancel | copy | schedule | workStart | waitDone | waitFailed | visit | mark | stream
  | stamp | resetSchedule | resetRun | resetDone | resetNow | bringupDone => trivial

/-- In every orderly run of a direction, over any board and with any device layer, a poll that finds
the cc of a list of the current session finds what one whole application of that list left. -/
theorem confirmed_of_orderly (dir : Direction Ch) (count : Nat) (list : ChList Ch)
    (channels : Nat → Ch) (events : List (Event Host Ch))
    (horderly : Guarded (next dir count) Orderly (System.init list channels) events) :
    EveryStep (next dir count) (PollConfirmed dir count) (System.init list channels) events := by
  have hkeep : ∀ (system : System Host Ch) event following, Inv dir count system →
      Orderly system event → next dir count system event = some following →
        Inv dir count following :=
    fun _ _ _ => next_inv
  exact everyStep_of_guarded hkeep (fun _ _ _ h horderly _ => pollConfirmed_of_inv h horderly)
    (init_inv list channels) horderly

/-! ## Two runs -/

/-- An RX channel tuned to this frequency, of a board that tunes from 10 to 3500 MHz. -/
def tuned (absId : Nat) (freq : Int) : RxCh where
  absId := absId
  freq := freq
  freqMin := 10
  freqMax := 3500
  rficLpfBw := 0
  gain := 0
  gainMin := -24
  gainMax := 30
  rficDcQ := 0
  rficDcI := 0
  enable := 1
  stream := 2
  agc := 0
  biasTee := 0
  fmNotch := 0

/-- A list that tunes the first channel. -/
def tuneFirst (cc : Nat) (freq : Int) : ChList RxCh where
  cc := cc
  apply := 0x1#8
  ch d := tuned d freq

/-- Two sessions, the second with the ccs of the first, and a list that replaces a scheduled one. -/
theorem confirmed_of_orderly_run :
    EveryStep (next (rxDirection sampleCodes) 1) (PollConfirmed (rxDirection sampleCodes) 1)
      (System.init (tuneFirst 0 10) fun d => tuned d 10 : System (Fin 2) RxCh)
      [.bringupDone, .submit 0 (tuneFirst 1 900) true, .copy 0, .schedule 0, .workStart, .waitDone,
        .poll, .visit 0, .mark, .stream 0, .stamp, .poll, .resetSchedule,
        .submit 1 (tuneFirst 1 100) true, .copy 1, .schedule 1, .resetRun,
        .submit 0 (tuneFirst 2 5000) true, .copy 0, .schedule 0, .workStart, .resetDone, .waitDone,
        .visit 0, .mark, .stream 0, .stamp, .poll] :=
  confirmed_of_orderly _ _ _ _ _ (by decide)

/-- After the walk an error stays an error. -/
theorem application_walked_ecodes {devices : Nat → Int} {i : Nat}
    (h : (visitAll dir (clearEcodes (clearRej start)) devices count).1.ecodes i =
      dir.codes.apiNotSupported) (hcode : dir.codes.apiNotSupported ≠ 0) (ret : Int) :
    (application dir count start (.walked devices ret)).ecodes i = dir.codes.apiNotSupported := by
  have hmarked : (markMissing dir (visitAll dir (clearEcodes (clearRej start)) devices
      count)).ecodes i = dir.codes.apiNotSupported := by
    simp only [markMissing, h, ite_self]
  simp only [application, stamp, noteStream]
  split
  · exact hmarked
  · simp only [hmarked, hcode, and_false, if_false]

/-- No application of a list that tunes the first channel to 5000 MHz leaves it at 900 MHz and
without an error. -/
theorem application_of_bad_freq {start : Data RxCh} (outcome : Outcome)
    (hch : start.list.ch 0 = tuned 0 5000) :
    ¬ ((application (rxDirection sampleCodes) 1 start outcome).channels 0 = tuned 0 900 ∧
      (application (rxDirection sampleCodes) 1 start outcome).ecodes 0 = 0) := by
  intro ⟨hchannel, hecode⟩
  cases outcome with
  | gaveUp ret =>
      have herror : streamApiError (rxDirection sampleCodes) ret = 0 := hecode
      unfold streamApiError at herror
      split at herror
      · exact absurd herror (by decide)
      · exact absurd herror (by decide)
  | walked devices ret =>
      have hinvalid : validateRxCh sampleCodes (start.list.ch 0) = (7, .freq) := by
        rw [hch]
        decide
      rw [application_walked_channels] at hchannel
      by_cases hrequested : start.list.apply &&& 1#8 <<< (start.channels 0).absId = 0#8
      · -- not asked for, the channel is copied as it is
        have hcopied : (visitAll (rxDirection sampleCodes) (clearEcodes (clearRej start)) devices
            1).1.channels 0 = tuned 0 5000 := by
          simp [visitAll, visit, clearEcodes, clearRej, hrequested, rxDirection, adoptAgcGain, hch,
            tuned, sampleCodes]
        rw [hcopied] at hchannel
        exact absurd hchannel (by decide)
      · -- asked for, it is rejected: nothing is copied, and its error stays
        have hrejected : (visitAll (rxDirection sampleCodes) (clearEcodes (clearRej start)) devices
            1).1 = { clearEcodes (clearRej start) with
              ecodes := Function.update (fun _ => 0) (start.channels 0).absId 7
              rej := Function.update (fun _ => .none) (start.channels 0).absId .freq } := by
          simp [visitAll, visit, clearEcodes, clearRej, hrequested, rxDirection, hinvalid]
        rw [hrejected] at hchannel
        have habsId : (start.channels 0).absId = 0 := congrArg RxCh.absId hchannel
        have herror : (visitAll (rxDirection sampleCodes) (clearEcodes (clearRej start)) devices
            1).1.ecodes 0 = (rxDirection sampleCodes).codes.apiNotSupported := by
          rw [hrejected, habsId]
          rfl
        rw [application_walked_ecodes herror (by decide)] at hecode
        exact absurd hecode (by decide)

/-- A second list is copied while the first is applied: the work confirms the second, which it has
not applied at all, so that its frequency error is not reported. -/
theorem copy_under_walk_confirms_unapplied_list :
    ¬ ∀ events : List (Event (Fin 1) RxCh),
      EveryStep (next (rxDirection sampleCodes) 1) (PollConfirmed (rxDirection sampleCodes) 1)
        (System.init (tuneFirst 0 10) fun d => tuned d 10) events := by
  intro h
  have hpoll := (h ([.bringupDone, .submit 0 (tuneFirst 1 900) true, .copy 0, .schedule 0,
    .workStart, .waitDone, .visit 0, .submit 0 (tuneFirst 2 5000) true, .copy 0, .mark, .stream 0,
    .stamp] ++ [.poll])).after rfl rfl
  obtain ⟨start, outcome, ⟨-, -, hch⟩, hchannels, hecodes, -⟩ :=
    hpoll (tuneFirst 2 5000) (by exact List.Mem.head _) rfl
  have hbad : start.list.ch 0 = tuned 0 5000 := by
    rcases hch 0 with hkept | ⟨live, hlive⟩
    · exact hkept
    · exact hlive
  refine application_of_bad_freq outcome hbad ⟨?_, ?_⟩
  · exact (congrFun hchannels 0).symm
  · exact (congrFun hecodes 0).symm

end RfnmDriver.Daughterboard
