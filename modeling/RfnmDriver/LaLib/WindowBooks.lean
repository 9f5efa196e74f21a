import RfnmDriver.LaLib.WindowAdmission

/-!
# The books of the admitted windows

Whatever order the call, the pump timer and the firmware take their steps in, nothing that waits in
either ring is overwritten, and a call has put one entry into each ring or none into either. A call
has made sure of its place in the queue when it goes for its gate edge: between the two only the
queue gets shorter. Read `Books.Sound` first, which says where a call is, and `sound_step`.
-/

namespace RfnmDriver.LaLib

open CounterRing StepSystem

variable {contract : RtcContract}

/-- The call has its gate edge in the rtc ring. -/
def Stage.gated : Stage → Bool
  | .queue | .pump | .timer => true
  | .capacity | .reach | .room | .slot | .publish => false

/-- The call has its window in the queue. -/
def Stage.queued : Stage → Bool
  | .pump | .timer => true
  | .capacity | .reach | .room | .slot | .publish | .queue => false

/-- What the call has put into the rtc ring. -/
def Running.cmds (running : Running) (contract : RtcContract) : List RtcCmd :=
  if running.stage.gated then [running.call.cmd contract] else []

/-- What the call has put into the queue. -/
def Running.windows (running : Running) : List Vwin :=
  if running.stage.queued then [running.call.window] else []

namespace Books

/-- What waits in the two rings is what was put in. -/
structure Intact (books : Books contract) : Prop where
  rtc : books.rtc.Intact
  queue : books.queue.Intact

/-- A call that returned success put one gate edge and one window in, which open at the tick it was
called for; a call that failed put in neither. -/
def Paired (books : Books contract) (ret : Return) : Prop :=
  match ret.error with
  | none =>
      ∃ cmd window, books.rtc.addedBy ret.call.number = [cmd] ∧
        books.queue.addedBy ret.call.number = [window] ∧
        cmd.tick = BitVec.ofInt 32 ret.call.openAir ∧ window.openTick = cmd.tick
  | some _ =>
      books.rtc.addedBy ret.call.number = [] ∧ books.queue.addedBy ret.call.number = []

/-- What a call has made sure of at its stage. -/
structure Room (books : Books contract) (running : Running) : Prop where
  queue : running.stage ≠ .capacity → running.stage.queued = false →
    books.queue.ring.occupancy < vwinQlen
  rtc : running.stage = .slot ∨ running.stage = .publish →
    books.rtc.ring.occupancy < contract.entries
  slot : running.stage = .publish →
    books.rtc.ring.entryAt books.rtc.ring.prod = running.call.cmd contract

/-- Where the call that runs has got to. -/
structure Current (books : Books contract) (running : Running) : Prop where
  number : running.call.number = books.calls
  cmds : books.rtc.addedBy books.calls = running.cmds contract
  windows : books.queue.addedBy books.calls = running.windows
  room : books.Room running

/-- Both rings are intact, and every entry belongs to the call it should. -/
structure Sound (books : Books contract) : Prop where
  intact : books.Intact
  /-- A call to come has put nothing in. -/
  later : ∀ number, books.calls < number →
    books.rtc.addedBy number = [] ∧ books.queue.addedBy number = []
  current : ∀ running, books.caller = some running → books.Current running
  returned : ∀ ret ∈ books.returns,
    ret.call.number ≤ books.calls ∧ (books.caller ≠ none → ret.call.number < books.calls)
  paired : ∀ ret ∈ books.returns, books.Paired ret

variable {books : Books contract} {call : WindowCall} {running : Running} {stage : Stage}
  {error : Option Errno}

/-- A call that is over is paired by what both rings have of it. -/
theorem Paired.of_added {other : Books contract} {ret : Return} (h : books.Paired ret)
    (hrtc : other.rtc.addedBy ret.call.number = books.rtc.addedBy ret.call.number)
    (hqueue : other.queue.addedBy ret.call.number = books.queue.addedBy ret.call.number) :
    other.Paired ret := by
  unfold Paired at h ⊢
  rw [hrtc, hqueue]
  exact h

/-- Away from the slot of the rtc ring only the place in the queue counts. -/
theorem Room.away (hslot : running.stage ≠ .slot) (hpublish : running.stage ≠ .publish)
    (hqueue : running.stage ≠ .capacity → running.stage.queued = false →
      books.queue.ring.occupancy < vwinQlen) : books.Room running where
  queue := hqueue
  rtc hstage := absurd hstage (not_or.mpr ⟨hslot, hpublish⟩)
  slot hstage := absurd hstage hpublish

namespace Sound

/-- The calls that are over came before the one that runs. -/
theorem earlier (h : books.Sound) (hrunning : books.caller = some running) {ret : Return}
    (hret : ret ∈ books.returns) : ret.call.number < books.calls :=
  (h.returned ret hret).2 (by simp [hrunning])

/-- A call that is over or still to come is another one. -/
theorem ne_running (h : books.Sound) (hrunning : books.caller = some running) {number : Nat}
    (hother : (∃ ret ∈ books.returns, ret.call.number = number) ∨ books.calls < number) :
    running.call.number ≠ number := by
  have hnumber := (h.current running hrunning).number
  rcases hother with ⟨ret, hret, rfl⟩ | hlater
  · have hearlier := h.earlier hrunning hret
    omega
  · omega

/-- The firmware takes an entry of the rtc ring. -/
theorem consume (h : books.Sound) (hnonempty : books.rtc.ring.cons ≠ books.rtc.ring.prod) :
    Sound { books with rtc := books.rtc.take } where
  intact := { rtc := h.intact.rtc.take hnonempty, queue := h.intact.queue }
  later := h.later
  current running hrunning := by
    have hcurrent := h.current running hrunning
    have hless := Ring.occupancy_take hnonempty
    refine { hcurrent with room := { hcurrent.room with rtc := fun hstage => ?_ } }
    have hroom := hcurrent.room.rtc hstage
    change books.rtc.ring.take.occupancy < _
    omega
  returned := h.returned
  paired ret hret := (h.paired ret hret).of_added rfl rfl

/-- The pump is done with the head of the queue. -/
theorem takeHead (h : books.Sound)
    (hnonempty : books.queue.ring.cons ≠ books.queue.ring.prod) :
    Sound { books with queue := books.queue.take } where
  intact := { rtc := h.intact.rtc, queue := h.intact.queue.take hnonempty }
  later := h.later
  current running hrunning := by
    have hcurrent := h.current running hrunning
    have hless := Ring.occupancy_take hnonempty
    refine { hcurrent with
      room := { hcurrent.room with queue := fun hstage hqueued => ?_ } }
    have hroom := hcurrent.room.queue hstage hqueued
    change books.queue.ring.take.occupancy < _
    omega
  returned := h.returned
  paired ret hret := (h.paired ret hret).of_added rfl rfl

/-- A call begins. -/
theorem begin (h : books.Sound) (hnumber : call.number = books.calls + 1) :
    Sound ({ books with calls := books.calls + 1 }.goOn call .capacity) where
  intact := { rtc := h.intact.rtc, queue := h.intact.queue }
  later number hlater := h.later number (by
    simp only [goOn] at hlater
    omega)
  current running hrunning := by
    obtain rfl := Option.some.inj hrunning
    obtain ⟨hrtc, hqueue⟩ := h.later (books.calls + 1) (Nat.lt_succ_self _)
    exact
      { number := hnumber
        cmds := hrtc
        windows := hqueue
        room := .away (by simp) (by simp) fun hstage => absurd rfl hstage }
  returned ret hret := by
    have hle := (h.returned ret hret).1
    simp only [goOn]
    exact ⟨by omega, fun _ => by omega⟩
  paired ret hret := (h.paired ret hret).of_added rfl rfl

/-- A call goes on without touching the rings. -/
theorem goOn (h : books.Sound) (hrunning : books.caller = some running)
    (hgated : stage.gated = running.stage.gated) (hqueued : stage.queued = running.stage.queued)
    (hroom : books.Room { call := running.call, stage := stage }) :
    Sound (books.goOn running.call stage) where
  intact := { rtc := h.intact.rtc, queue := h.intact.queue }
  later := h.later
  current other hother := by
    obtain rfl := Option.some.inj hother
    have hcurrent := h.current running hrunning
    exact
      { number := hcurrent.number
        cmds := by
          rw [Running.cmds, hgated]
          exact hcurrent.cmds
        windows := by
          rw [Running.windows, hqueued]
          exact hcurrent.windows
        room := { queue := hroom.queue, rtc := hroom.rtc, slot := hroom.slot } }
  returned ret hret := ⟨(h.earlier hrunning hret).le, fun _ => h.earlier hrunning hret⟩
  paired ret hret := (h.paired ret hret).of_added rfl rfl

/-- A call returns. -/
theorem finish (h : books.Sound) (hrunning : books.caller = some running)
    (hpaired : books.Paired { call := running.call, error := error }) :
    Sound (books.finish running.call error) where
  intact := { rtc := h.intact.rtc, queue := h.intact.queue }
  later := h.later
  current other hother := by cases hother
  returned ret hret := by
    refine ⟨?_, fun hcaller => absurd rfl hcaller⟩
    obtain rfl | hret := List.mem_cons.mp hret
    · exact (h.current running hrunning).number.le
    · exact (h.returned ret hret).1
  paired ret hret := by
    obtain rfl | hret := List.mem_cons.mp hret
    · exact hpaired.of_added rfl rfl
    · exact (h.paired ret hret).of_added rfl rfl

/-- A call that fails before it has its gate edge. -/
theorem fail (h : books.Sound) (hrunning : books.caller = some running)
    (hgated : running.stage.gated = false) (hqueued : running.stage.queued = false)
    (failure : Errno) : Sound (books.finish running.call (some failure)) := by
  have hcurrent := h.current running hrunning
  refine h.finish hrunning ⟨?_, ?_⟩
  · rw [hcurrent.number, hcurrent.cmds]
    simp [Running.cmds, hgated]
  · rw [hcurrent.number, hcurrent.windows]
    simp [Running.windows, hqueued]

/-- A call that has both its entries. -/
theorem succeed (h : books.Sound) (hrunning : books.caller = some running)
    (hgated : running.stage.gated = true) (hqueued : running.stage.queued = true) :
    Sound (books.finish running.call none) := by
  have hcurrent := h.current running hrunning
  refine h.finish hrunning ⟨running.call.cmd contract, running.call.window, ?_, ?_, rfl, rfl⟩
  · rw [hcurrent.number, hcurrent.cmds]
    simp [Running.cmds, hgated]
  · rw [hcurrent.number, hcurrent.windows]
    simp [Running.windows, hqueued]

/-- The call fills a slot of the rtc ring. -/
theorem writeSlot (h : books.Sound)
    (hrunning : books.caller = some { call := call, stage := .slot }) :
    Sound { books.goOn call .publish with rtc := books.rtc.write (call.cmd contract) } where
  intact :=
    { rtc := h.intact.rtc.write contract.entries_dvd
        ((h.current _ hrunning).room.rtc (.inl rfl))
      queue := h.intact.queue }
  later := h.later
  current other hother := by
    obtain rfl := Option.some.inj hother
    have hcurrent := h.current _ hrunning
    exact
      { number := hcurrent.number
        cmds := hcurrent.cmds
        windows := hcurrent.windows
        room :=
          { queue := fun _ _ => hcurrent.room.queue (by simp) rfl
            rtc := fun _ => hcurrent.room.rtc (.inl rfl)
            slot := fun _ => Ring.entryAt_write_prod } }
  returned ret hret := ⟨(h.earlier hrunning hret).le, fun _ => h.earlier hrunning hret⟩
  paired ret hret := (h.paired ret hret).of_added rfl rfl

/-- The call lets the firmware see its gate edge. -/
theorem publishGate (h : books.Sound)
    (hrunning : books.caller = some { call := call, stage := .publish }) :
    Sound { books.goOn call .queue with rtc := books.rtc.publish call.number } := by
  have hcurrent := h.current _ hrunning
  have hnumber : call.number = books.calls := hcurrent.number
  have hroom := hcurrent.room.rtc (.inr rfl)
  have hlt := contract.entries_lt
  exact
    { intact :=
        { rtc := h.intact.rtc.publish (by omega)
          queue := h.intact.queue }
      later := fun number hlater => by
        have hne : call.number ≠ number := h.ne_running hrunning (.inr hlater)
        refine ⟨?_, (h.later number hlater).2⟩
        exact (Ledger.addedBy_publish_of_ne hne).trans (h.later number hlater).1
      current := fun other hother => by
        obtain rfl := Option.some.inj hother
        refine
          { number := hcurrent.number
            cmds := ?_
            windows := hcurrent.windows
            room := .away (by simp) (by simp) fun _ _ => hcurrent.room.queue (by simp) rfl }
        change (books.rtc.publish call.number).addedBy books.calls = [call.cmd contract]
        rw [← hnumber, Ledger.addedBy_publish, hnumber, hcurrent.cmds, hcurrent.room.slot rfl]
        rfl
      returned := fun ret hret => ⟨(h.earlier hrunning hret).le, fun _ => h.earlier hrunning hret⟩
      paired := fun ret hret => by
        have hne : call.number ≠ ret.call.number :=
          h.ne_running hrunning (.inl ⟨ret, hret, rfl⟩)
        exact (h.paired ret hret).of_added (Ledger.addedBy_publish_of_ne hne) rfl }

/-- The call puts its window into the queue. -/
theorem enqueue (h : books.Sound)
    (hrunning : books.caller = some { call := call, stage := .queue }) :
    Sound { books.goOn call .pump with
      queue := (books.queue.write call.window).publish call.number } := by
  have hcurrent := h.current _ hrunning
  have hnumber : call.number = books.calls := hcurrent.number
  -- checked before the gate edge; since then the pump alone has moved the counters
  have hroom : books.queue.ring.occupancy < vwinQlen := hcurrent.room.queue (by simp) rfl
  have hwritten : (books.queue.write call.window).Intact :=
    h.intact.queue.write vwinQlen_dvd hroom
  exact
    { intact :=
        { rtc := h.intact.rtc
          queue := hwritten.publish (Nat.lt_of_le_of_lt hroom vwinQlen_lt) }
      later := fun number hlater => by
        have hne : call.number ≠ number := h.ne_running hrunning (.inr hlater)
        refine ⟨(h.later number hlater).1, ?_⟩
        exact (Ledger.addedBy_publish_of_ne hne).trans (h.later number hlater).2
      current := fun other hother => by
        obtain rfl := Option.some.inj hother
        refine
          { number := hcurrent.number
            cmds := hcurrent.cmds
            windows := ?_
            room := .away (by simp) (by simp) fun _ hqueued => Bool.noConfusion hqueued }
        change ((books.queue.write call.window).publish call.number).addedBy books.calls =
          [call.window]
        rw [← hnumber, Ledger.addedBy_publish, Ledger.addedBy_write, hnumber, hcurrent.windows]
        exact congrArg (fun window => [window]) Ring.entryAt_write_prod
      returned := fun ret hret => ⟨(h.earlier hrunning hret).le, fun _ => h.earlier hrunning hret⟩
      paired := fun ret hret => by
        have hne : call.number ≠ ret.call.number :=
          h.ne_running hrunning (.inl ⟨ret, hret, rfl⟩)
        exact (h.paired ret hret).of_added rfl (Ledger.addedBy_publish_of_ne hne) }

end Sound

end Books

namespace Admission

variable {state following : Admission contract} {event : AdmissionEvent} {look : Look}
  {call : WindowCall} {stage : Stage}

theorem round_caller (state : Admission contract) (look : Look) :
    (state.round look).1.caller = state.caller := by
  rcases round_books state look with h | ⟨-, h⟩ <;> rw [h]

/-- A round of the pump keeps the books. -/
theorem sound_round (h : state.toBooks.Sound) : (state.round look).1.toBooks.Sound := by
  rcases round_books state look with hsame | ⟨hnonempty, htaken⟩
  · rw [hsame]
    exact h
  · rw [htaken]
    exact h.takeHead hnonempty

/-- The start of a call keeps the books. -/
theorem sound_enter (h : state.toBooks.Sound) (openAir : Int) (srcSlot lenSlots : Nat)
    (status : Option TxStatus) :
    (state.enter openAir srcSlot lenSlots status).toBooks.Sound := by
  unfold enter
  cases status with
  | none => exact (h.begin rfl).fail rfl rfl rfl .enodev
  | some status =>
      simp only
      split
      · exact (h.begin rfl).fail rfl rfl rfl .enodev
      split
      · exact (h.begin rfl).fail rfl rfl rfl .epipe
      · exact h.begin rfl

/-- A step of the call keeps the books. -/
theorem sound_advance (h : state.toBooks.Sound)
    (hrunning : state.caller = some { call := call, stage := stage })
    (hstep : state.advance look call stage = some following) : following.toBooks.Sound := by
  have hroom := (h.current _ hrunning).room
  -- a call fails, or goes on with the room it has seen; the room can only have grown since
  cases stage with
  | capacity =>
      simp only [advance] at hstep
      split at hstep
      · cases hstep
      split at hstep
      · obtain rfl := Option.some.inj hstep
        exact h.fail hrunning rfl rfl .enospc
      · rename_i hvacant
        obtain rfl := Option.some.inj hstep
        exact h.goOn hrunning rfl rfl
          (.away (by simp) (by simp) fun _ _ => Nat.lt_of_not_le hvacant)
  | reach =>
      simp only [advance] at hstep
      split at hstep
      · obtain rfl := Option.some.inj hstep
        exact h.fail hrunning rfl rfl .enodev
      · obtain rfl := Option.some.inj hstep
        exact h.goOn hrunning rfl rfl
          (.away (by simp) (by simp) fun _ _ => hroom.queue (by simp) rfl)
  | room =>
      simp only [advance] at hstep
      split at hstep
      · obtain rfl := Option.some.inj hstep
        exact h.fail hrunning rfl rfl .epipe
      split at hstep
      · obtain rfl := Option.some.inj hstep
        exact h.fail hrunning rfl rfl .enospc
      · rename_i hvacant
        obtain rfl := Option.some.inj hstep
        refine h.goOn hrunning rfl rfl
          { queue := fun _ _ => hroom.queue (by simp) rfl
            rtc := fun _ => Nat.lt_of_not_le hvacant
            slot := ?_ }
        intro hstage
        simp at hstage
  | slot =>
      obtain rfl := Option.some.inj hstep
      exact h.writeSlot hrunning
  | publish =>
      obtain rfl := Option.some.inj hstep
      exact h.publishGate hrunning
  | queue =>
      simp only [advance] at hstep
      split at hstep
      · cases hstep
      · obtain rfl := Option.some.inj hstep
        exact h.enqueue hrunning
  | pump =>
      have hround : (state.round look).1.toBooks.Sound := sound_round h
      have hcaller := (round_caller state look).trans hrunning
      simp only [advance] at hstep
      split at hstep
      · obtain rfl := Option.some.inj hstep
        exact hround
      · obtain rfl := Option.some.inj hstep
        exact hround.goOn hcaller rfl rfl
          (.away (by simp) (by simp) fun _ hqueued => Bool.noConfusion hqueued)
  | timer =>
      obtain rfl := Option.some.inj hstep
      exact h.succeed hrunning rfl rfl

/-- A step of the callback keeps the books. -/
theorem sound_timerFn (h : state.toBooks.Sound) (hstep : state.timerFn look = some following) :
    following.toBooks.Sound := by
  unfold timerFn at hstep
  split at hstep
  · cases hstep
  · split at hstep
    · cases hstep
    · obtain rfl := Option.some.inj hstep
      exact h
  · have hround : (state.round look).1.toBooks.Sound := sound_round h
    split at hstep
    · obtain rfl := Option.some.inj hstep
      exact hround
    · obtain rfl := Option.some.inj hstep
      exact hround
  · obtain rfl := Option.some.inj hstep
    exact h
  · obtain rfl := Option.some.inj hstep
    exact h

/-- One step keeps the books, whoever takes it. -/
theorem sound_step (h : state.toBooks.Sound) (hstep : state.step event = some following) :
    following.toBooks.Sound := by
  cases event with
  | txWindow openAir srcSlot lenSlots status =>
      obtain ⟨-, rfl⟩ := of_guard hstep
      exact sound_enter h openAir srcSlot lenSlots status
  | caller look =>
      obtain ⟨running, hrunning, hadvance⟩ := Option.bind_eq_some_iff.mp hstep
      exact sound_advance h hrunning hadvance
  | expire =>
      obtain ⟨-, rfl⟩ := of_guard hstep
      exact h
  | callback look => exact sound_timerFn h hstep
  | consume =>
      obtain ⟨hnonempty, rfl⟩ := of_guard hstep
      exact h.consume hnonempty
  | fence up =>
      obtain rfl := Option.some.inj hstep
      exact h

/-- The books are right where no call has been made yet. -/
theorem Fresh.sound (h : state.Fresh) : state.toBooks.Sound where
  intact :=
    { rtc := by
        rw [h.rtc]
        exact Ledger.intact_start _
      queue := by
        rw [h.queue]
        exact Ledger.intact_start _ }
  later number hlater := by
    have hne : 0 ≠ number := by
      rw [h.calls] at hlater
      omega
    rw [h.rtc, h.queue]
    exact ⟨Ledger.addedBy_start_of_ne _ hne, Ledger.addedBy_start_of_ne _ hne⟩
  current running hrunning := by
    rw [h.caller] at hrunning
    cases hrunning
  returned ret hret := by
    rw [h.returns] at hret
    cases hret
  paired ret hret := by
    rw [h.returns] at hret
    cases hret

/-- The books stay right in every run, in whatever order the steps come. -/
theorem always_sound (h : state.Fresh) (events : List AdmissionEvent) :
    Always step (fun state => state.toBooks.Sound) state events :=
  always_of_inductive (fun _ _ _ hsound hstep => sound_step hsound hstep) h.sound

end Admission

end RfnmDriver.LaLib
