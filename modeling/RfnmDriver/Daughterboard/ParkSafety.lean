import RfnmDriver.Daughterboard.IdlePark
import RfnmDriver.Daughterboard.RfOff

/-!
# Whether the TX idle park parks what it should and nothing else

`Watch` adds to the machine what has happened since the last stand-down edge.
`park_sound_of_careful`: the park leaves nothing on the air and switches no client off in every run
in which nobody hides a live channel (no reset and no list that only copies it stores RF_OFF over a
channel that is on), every RF_OFF that a board is called with stops it, no client arms a channel
that a queued or running park work has yet to come to, and the two works do not meet in the middle
of one channel. A hidden channel is passed over by the next park, and a client that comes back
before the work has run is switched off by it.
-/

namespace RfnmDriver.IdlePark

open StepSystem RefusableCalls

/-! ## What a run is watched for -/

/-- Since the last stand-down edge. -/
structure History where
  /-- The park work that runs, or ran last, was started since. -/
  fresh : Bool
  /-- A park work that was started since has come to its end. -/
  parked : Bool
  /-- A TX apply has completed since, whatever its result. -/
  completed : Bool
  /-- The last apply of the channel that succeeded since has armed it. -/
  armed : Nat → Bool

/-- The machine with its history. -/
structure Watch where
  system : System
  history : History

namespace History

variable (params : Params) (system : System) (history : History)

/-- The history after an event. -/
def note : Event → History
  | .standDown => ⟨false, false, false, fun _ => false⟩
  | .parkStart => { history with fresh := true }
  | .park _ =>
      match system.park with
      | .check i => { history with parked := history.parked || (history.fresh && params.count ≤ i) }
      | _ => history
  | .apply answers =>
      match system.apply with
      | .call _ i =>
          { history with
            completed := true
            armed :=
              if (system.called params i answers).2 then
                Function.update history.armed i ((system.ports i).txCh.enable ≠ .rfOff)
              else history.armed }
      | _ => history
  | _ => history

end History

namespace Watch

variable (params : Params)

def next (watch : Watch) (event : Event) : Option Watch :=
  (watch.system.next params event).map fun system =>
    ⟨system, watch.history.note params watch.system event⟩

/-- Freshly probed boards, before the first edge. -/
def probed (kinds : Nat → BoardKind) : Watch :=
  ⟨.probed kinds, ⟨false, false, false, fun _ => false⟩⟩

end Watch

/-- The applied state is off and the chip does not transmit. -/
def TxBoard.Off (board : TxBoard) : Prop := board.applied = .rfOff ∧ board.txOn = false

/-- Once the park work has run after an edge, and no TX apply has completed since, every channel is
off. -/
def NothingOnAir (params : Params) (watch : Watch) : Prop :=
  watch.history.parked = true → watch.history.completed = false →
    ∀ i < params.count, (watch.system.ports i).board.Off

/-- The step switches the channel off, in its applied state or at the chip. -/
def SwitchedOff (before after : TxBoard) : Prop :=
  before.applied ≠ .rfOff ∧ after.applied = .rfOff ∨ before.txOn = true ∧ after.txOn = false

/-- The park work switches off no channel that a client has armed since the edge. -/
def SparesArmed (watch : Watch) (event : Event) (following : Watch) : Prop :=
  ∀ answers, event = .park answers → ∀ i, watch.history.armed i = true →
    ¬ SwitchedOff (watch.system.ports i).board (following.system.ports i).board

/-! ## The condition -/

/-- A board that RF_OFF stops: not a Granita, and not a Yucca that transmits under an unmounted
mirror. -/
def TxBoard.Stoppable (board : TxBoard) (ch : TxCh) : Prop :=
  match board with
  | .lime _ => True
  | .granita _ => False
  | .yucca board => board.OffKnown (.txSet ch.yucca [])

/-- The park work counts: it was started since the edge, and no apply has completed since. -/
def History.Counts (history : History) : Prop := history.fresh = true ∧ history.completed = false

/-- The channels below have been parked, or passed over. -/
def ParkPhase.passed : ParkPhase → Nat
  | .idle => 0
  | .check i | .clear i | .call i => i

namespace System

variable (params : Params) (system : System) (i : Nat) (answers : Answers)

/-- The work of a channel list is about to call `rfnm_dgb_tx_set` for the channel. -/
def ApplyCalls : Prop :=
  match system.apply with
  | .call _ j => j = i
  | _ => False

/-- The channel is off, or a `rfnm_dgb_tx_set` for it is about to come. -/
def Covered : Prop :=
  (system.ports i).board.Off ∨ system.ApplyCalls i ∨ system.park = .call i

/-- If the call passes RF_OFF, the board takes it and is one that RF_OFF stops. -/
def OffTaken : Prop :=
  (system.ports i).txCh.enable = .rfOff → (system.called params i answers).2 = true ∧
    (system.ports i).board.Stoppable (system.ports i).txCh

/-- No park work will come to the channel: none is queued, and one that runs is past it. -/
def Behind : Prop :=
  system.parkPending = false ∧ (system.park = .idle ∨ i < system.park.passed)

/-- If the call arms the channel, it does so behind the park work. -/
def ArmsBehind : Prop :=
  (system.ports i).txCh.enable ≠ .rfOff → (system.called params i answers).2 = true →
    system.Behind i

end System

/-- A channel list copies no live request between the park work's store and its call. -/
def CopyApart (watch : Watch) (i : Nat) (ch : TxCh) : Prop :=
  watch.history.Counts → watch.system.park = .call i → ch.enable = .rfOff

/-- The condition of an access of the park work: it does not pass over a channel that a list is
about to call, and its RF_OFF stops the board. -/
def ParkCareful (params : Params) (watch : Watch) (answers : Answers) : Prop :=
  match watch.system.park with
  | .check i =>
      watch.history.Counts → i < params.count → (watch.system.ports i).txCh.enable = .rfOff →
        ¬ watch.system.ApplyCalls i
  | .call i => watch.system.OffTaken params i answers
  | .idle | .clear _ => True

/-- The condition of a list's treatment of a channel: where it only copies RF_OFF the channel is
covered, and a live request is not copied between the park work's store and its call. -/
def PartCareful (watch : Watch) (i : Nat) : Part → Prop
  | .refused => True
  | .copied ch => (ch.enable = .rfOff → watch.system.Covered i) ∧ CopyApart watch i ch
  | .applied ch => CopyApart watch i ch

/-- The condition of an access of a list's work: as above for its copies; its RF_OFF stops the
board, and it arms a channel only behind the park work. -/
def ApplyCareful (params : Params) (watch : Watch) (answers : Answers) : Prop :=
  match watch.system.apply with
  | .idle => True
  | .copy list i => i < params.count → PartCareful watch i (list i)
  | .call _ i => watch.system.OffTaken params i answers ∧ watch.system.ArmsBehind params i answers

/-- The condition of a step. A reset comes to a channel that is covered. -/
def Careful (params : Params) (watch : Watch) : Event → Prop
  | .park answers => ParkCareful params watch answers
  | .apply answers => ApplyCareful params watch answers
  | .reset i => i < params.count → watch.system.Covered i
  | .standDown | .resume | .parkStart | .applyStart _ => True

section Decidable

instance (board : TxBoard) : Decidable board.Off := inferInstanceAs (Decidable (_ ∧ _))

instance (history : History) : Decidable history.Counts := inferInstanceAs (Decidable (_ ∧ _))

instance (board : TxBoard) (ch : TxCh) : Decidable (board.Stoppable ch) :=
  match board with
  | .lime _ => inferInstanceAs (Decidable True)
  | .granita _ => inferInstanceAs (Decidable False)
  | .yucca _ => inferInstanceAs (Decidable (_ → _ → _ → _))

variable (params : Params) (watch : Watch) (system : System) (i : Nat) (answers : Answers)

instance : Decidable (system.ApplyCalls i) := by
  unfold System.ApplyCalls
  split <;> infer_instance

instance : Decidable (system.Covered i) := inferInstanceAs (Decidable (_ ∨ _ ∨ _))

instance : Decidable (system.OffTaken params i answers) := inferInstanceAs (Decidable (_ → _))

instance : Decidable (system.Behind i) := inferInstanceAs (Decidable (_ ∧ _))

instance : Decidable (system.ArmsBehind params i answers) :=
  inferInstanceAs (Decidable (_ → _ → _))

instance (ch : TxCh) : Decidable (CopyApart watch i ch) := inferInstanceAs (Decidable (_ → _ → _))

instance : Decidable (ParkCareful params watch answers) := by
  unfold ParkCareful
  split <;> infer_instance

instance : (part : Part) → Decidable (PartCareful watch i part)
  | .refused => inferInstanceAs (Decidable True)
  | .copied _ => inferInstanceAs (Decidable (_ ∧ _))
  | .applied _ => inferInstanceAs (Decidable (CopyApart ..))

instance : Decidable (ApplyCareful params watch answers) := by
  unfold ApplyCareful
  split <;> infer_instance

instance : (event : Event) → Decidable (Careful params watch event)
  | .park _ => inferInstanceAs (Decidable (ParkCareful ..))
  | .apply _ => inferInstanceAs (Decidable (ApplyCareful ..))
  | .reset _ => inferInstanceAs (Decidable (_ → _))
  | .standDown | .resume | .parkStart | .applyStart _ => inferInstanceAs (Decidable True)

end Decidable

/-! ## Boards -/

/-- What every apply keeps of a board. -/
def TxBoard.Kept : TxBoard → Prop
  | .yucca board => board.Tracked
  | _ => True

section Boards

variable {params : Params} {board : TxBoard} {ch : TxCh} {answers : Answers}

theorem TxBoard.Kept.txSet (hkept : board.Kept) : (board.txSet params ch answers).1.Kept := by
  cases board with
  | lime | granita => trivial
  | yucca board => exact Yucca.tracked_apply (.txSet ch.yucca answers.calls) hkept

/-- A call that succeeds makes the wanted copy the applied one. -/
theorem txSet_applied (hdone : (board.txSet params ch answers).2 = true) :
    (board.txSet params ch answers).1.applied = ch.enable := by
  cases board with
  | lime driver =>
      change (driver.txSet params.lime 0 ch.lime answers.tune).2 = true at hdone
      show (((driver.txSet params.lime 0 ch.lime answers.tune).1.board 0).txS.elim .rfOff
        Lime.TxCh.enable) = ch.enable
      rw [Lime.Driver.txSet_eq] at hdone ⊢
      dsimp only at hdone ⊢
      split_ifs at hdone ⊢
      · simp [TxCh.lime]
      · simp [TxCh.lime]
  | granita board =>
      change (board.txSet ch.granita answers.calls).2 = true at hdone
      show ((board.txSet ch.granita answers.calls).1.txS.elim .rfOff Granita.TxCh.enable) =
        ch.enable
      unfold Granita.Board.txSet at hdone ⊢
      split at hdone
      · rfl
      · exact absurd hdone Bool.false_ne_true
  | yucca board =>
      change (board.txSet ch.yucca answers.calls).2 = true at hdone
      show ((board.txSet ch.yucca answers.calls).1.txS.elim .rfOff Yucca.TxCh.enable) = ch.enable
      unfold Yucca.Board.txSet at hdone ⊢
      split_ifs at hdone ⊢
      dsimp only at hdone ⊢
      split_ifs at hdone ⊢
      rfl

/-- A stoppable board that takes an RF_OFF is off. -/
theorem txSet_off (hkept : board.Kept) (hoff : ch.enable = .rfOff) (hstop : board.Stoppable ch)
    (hdone : (board.txSet params ch answers).2 = true) :
    (board.txSet params ch answers).1.Off := by
  refine ⟨(txSet_applied hdone).trans hoff, ?_⟩
  cases board with
  | lime driver =>
      show ((driver.txSet params.lime 0 ch.lime answers.tune).1.board 0).chip.txEnabled = false
      simp [Lime.Driver.txSet, TxCh.lime, hoff]
  | granita board => exact hstop.elim
  | yucca board => exact Yucca.txSet_off hkept hoff hstop hdone

end Boards

/-! ## What one step does to the boards -/

section Steps

variable {params : Params} {system : System} {i : Nat} {answers : Answers}

theorem System.ApplyCalls.phase (h : system.ApplyCalls i) :
    ∃ list, system.apply = .call list i := by
  unfold System.ApplyCalls at h
  split at h
  · rename_i list j hphase
    exact ⟨list, h ▸ hphase⟩
  · exact h.elim

@[simp] theorem putCh_txCh (ch : TxCh) (j : Nat) :
    ((system.putCh i ch).ports j).txCh = if j = i then ch else (system.ports j).txCh := by
  obtain rfl | hne := eq_or_ne j i
  · simp [System.putCh, System.putPort]
  · simp [System.putCh, System.putPort, hne]

@[simp] theorem dgbTxSet_txCh (j : Nat) :
    ((system.dgbTxSet params i answers).ports j).txCh = (system.ports j).txCh := by
  obtain rfl | hne := eq_or_ne j i
  · simp [System.dgbTxSet, System.putPort]
  · simp [System.dgbTxSet, System.putPort, hne]

/-- The wanted copy is not the board's. -/
@[simp] theorem putCh_board (ch : TxCh) (j : Nat) :
    ((system.putCh i ch).ports j).board = (system.ports j).board := by
  obtain rfl | hne := eq_or_ne j i
  · simp [System.putCh, System.putPort]
  · simp [System.putCh, System.putPort, hne]

theorem dgbTxSet_board (j : Nat) :
    ((system.dgbTxSet params i answers).ports j).board =
      if j = i then (system.called params i answers).1 else (system.ports j).board := by
  obtain rfl | hne := eq_or_ne j i
  · simp [System.dgbTxSet, System.putPort]
  · simp [System.dgbTxSet, System.putPort, hne]

end Steps

/-! ## The invariant -/

/-- What the park work has come to. -/
structure Parked (params : Params) (watch : Watch) : Prop where
  kept : ∀ i, (watch.system.ports i).board.Kept
  fresh : watch.history.parked = true → watch.history.fresh = true
  passed : watch.history.Counts → ∀ i < watch.system.park.passed, i < params.count →
    (watch.system.ports i).board.Off
  parked : NothingOnAir params watch

/-- What the park work can rely on: a channel whose wanted copy says RF_OFF is covered, its own
RF_OFF stands until its call, and it is past the channels that a client has armed. -/
structure Shown (params : Params) (watch : Watch) : Prop where
  covered : ∀ i < params.count, (watch.system.ports i).txCh.enable = .rfOff →
    watch.system.Covered i
  cleared : watch.history.Counts → ∀ i, watch.system.park = .call i →
    (watch.system.ports i).txCh.enable = .rfOff
  spared : ∀ i, watch.history.armed i = true → watch.system.Behind i

structure Inv (params : Params) (watch : Watch) : Prop where
  done : Parked params watch
  shown : Shown params watch

section Invariant

variable {params : Params} {watch following : Watch} {system : System} {answers : Answers}
  {event : Event}

/-! ### What the park work has come to -/

/-- A step that leaves the boards and the history alone, and the park work at its channel. -/
theorem Parked.frame (h : Parked params watch)
    (hboard : ∀ i, (system.ports i).board = (watch.system.ports i).board)
    (hpark : system.park.passed = watch.system.park.passed) :
    Parked params ⟨system, watch.history⟩ where
  kept i := hboard i ▸ h.kept i
  fresh := h.fresh
  passed hcounts i hi hcount := by
    rw [hboard]
    exact h.passed hcounts i (hpark ▸ hi) hcount
  parked hparked hquiet i hi := by
    rw [hboard]
    exact h.parked hparked hquiet i hi

/-- The park work comes to its end: every channel is behind it. -/
theorem Parked.parkEnd (h : Parked params watch) {i : Nat} (hphase : watch.system.park = .check i)
    (hend : params.count ≤ i) :
    Parked params ⟨{ watch.system with park := .idle },
      { watch.history with parked := watch.history.parked || watch.history.fresh }⟩ where
  kept := h.kept
  fresh hparked := by
    rcases Bool.or_eq_true_iff.mp hparked with hbefore | hfresh
    · exact h.fresh hbefore
    · exact hfresh
  passed _ i hi := absurd hi (Nat.not_lt_zero i)
  parked hparked hquiet j hj := by
    rcases Bool.or_eq_true_iff.mp hparked with hbefore | hfresh
    · exact h.parked hbefore hquiet j hj
    · -- every channel has been passed by now
      exact h.passed ⟨hfresh, hquiet⟩ j (hphase ▸ Nat.lt_of_lt_of_le hj hend) hj

/-- The park work passes over a channel. -/
theorem Parked.parkOver (h : Parked params watch) {i : Nat} (hphase : watch.system.park = .check i)
    (hoff : watch.history.Counts → i < params.count → (watch.system.ports i).board.Off) :
    Parked params ⟨{ watch.system with park := .check (i + 1) }, watch.history⟩ where
  kept := h.kept
  fresh := h.fresh
  passed hcounts j hj hcount := by
    rcases Nat.lt_succ_iff_lt_or_eq.mp hj with hlt | rfl
    · exact h.passed hcounts j (hphase ▸ hlt) hcount
    · exact hoff hcounts hcount
  parked := h.parked

/-- The park work calls a board. -/
theorem Parked.parkCall (h : Parked params watch) {i : Nat} (hphase : watch.system.park = .call i)
    (hoff : watch.history.Counts → (watch.system.called params i answers).1.Off) :
    Parked params ⟨{ watch.system.dgbTxSet params i answers with park := .check (i + 1) },
      watch.history⟩ where
  kept j := by
    show ((watch.system.dgbTxSet params i answers).ports j).board.Kept
    rw [dgbTxSet_board]
    split_ifs
    · exact (h.kept i).txSet
    · exact h.kept j
  fresh := h.fresh
  passed hcounts j hj hcount := by
    show ((watch.system.dgbTxSet params i answers).ports j).board.Off
    rw [dgbTxSet_board]
    split_ifs with hne
    · exact hoff hcounts
    · have hlt : j < i := Nat.lt_of_le_of_ne (Nat.lt_succ_iff.mp hj) hne
      exact h.passed hcounts j (hphase ▸ hlt) hcount
  parked hparked hquiet j hj := by
    show ((watch.system.dgbTxSet params i answers).ports j).board.Off
    rw [dgbTxSet_board]
    split_ifs
    · exact hoff ⟨h.fresh hparked, hquiet⟩
    · exact h.parked hparked hquiet j hj

/-- The next access of the park work, where the wanted copies can be relied on. -/
theorem Parked.park (h : Parked params watch) (hshown : Shown params watch)
    (hcareful : ParkCareful params watch answers)
    (hstep : watch.system.parkStep params answers = some system) :
    Parked params ⟨system, watch.history.note params watch.system (.park answers)⟩ := by
  unfold System.parkStep at hstep
  unfold ParkCareful at hcareful
  cases hphase : watch.system.park with
  | idle => simp [hphase] at hstep
  | check i =>
      simp only [hphase] at hstep hcareful
      simp only [History.note, hphase]
      split_ifs at hstep with hend hoff
      · obtain rfl := Option.some.inj hstep
        simpa [hend] using h.parkEnd hphase hend
      · obtain rfl := Option.some.inj hstep
        -- the copy says RF_OFF, and no call that would make it true is still to come
        have hpassed : watch.history.Counts → i < params.count →
            (watch.system.ports i).board.Off := by
          intro hcounts hi
          rcases hshown.covered i hi hoff with hboard | hcalls | hcall
          · exact hboard
          · exact absurd hcalls (hcareful hcounts hi hoff)
          · simp [hphase] at hcall
        simpa [hend] using h.parkOver hphase hpassed
      · -- it stores RF_OFF next; the channel is not behind it yet
        obtain rfl := Option.some.inj hstep
        have hframe : Parked params ⟨{ watch.system with park := .clear i }, watch.history⟩ :=
          h.frame (fun _ => rfl) (by rw [hphase]; rfl)
        simpa [hend] using hframe
  | clear i =>
      simp only [hphase] at hstep
      obtain rfl := Option.some.inj hstep
      simp only [History.note, hphase]
      exact h.frame (putCh_board _) (by rw [hphase]; rfl)
  | call i =>
      simp only [hphase] at hstep hcareful
      obtain rfl := Option.some.inj hstep
      simp only [History.note, hphase]
      refine h.parkCall hphase fun hcounts => ?_
      have hoff := hshown.cleared hcounts i hphase
      obtain ⟨hdone, hstop⟩ := hcareful hoff
      exact txSet_off (h.kept i) hoff hstop hdone

/-- The next access of a channel list's work. A call makes the park's result void. -/
theorem Parked.apply (h : Parked params watch)
    (hstep : watch.system.applyStep params answers = some system) :
    Parked params ⟨system, watch.history.note params watch.system (.apply answers)⟩ := by
  unfold System.applyStep at hstep
  cases hphase : watch.system.apply with
  | idle => simp [hphase] at hstep
  | copy list i =>
      simp only [hphase] at hstep
      simp only [History.note, hphase]
      split_ifs at hstep
      · obtain rfl := Option.some.inj hstep
        exact h.frame (fun _ => rfl) rfl
      · cases hpart : list i <;> simp only [hpart] at hstep <;>
          obtain rfl := Option.some.inj hstep
        · exact h.frame (fun _ => rfl) rfl
        · exact h.frame (putCh_board _) rfl
        · exact h.frame (putCh_board _) rfl
  | call list i =>
      simp only [hphase] at hstep
      obtain rfl := Option.some.inj hstep
      simp only [History.note, hphase]
      -- an apply has completed, and neither part of the invariant says anything until the next edge
      refine ⟨fun j => ?_, h.fresh, fun hcounts => absurd hcounts.2 Bool.noConfusion,
        fun _ hquiet => absurd hquiet Bool.noConfusion⟩
      show ((watch.system.dgbTxSet params i answers).ports j).board.Kept
      rw [dgbTxSet_board]
      split_ifs
      · exact (h.kept i).txSet
      · exact h.kept j

/-- A careful step, where the wanted copies can be relied on. -/
theorem Parked.next (h : Parked params watch) (hshown : Shown params watch)
    (hcareful : Careful params watch event)
    (hsystem : watch.system.next params event = some system) :
    Parked params ⟨system, watch.history.note params watch.system event⟩ := by
  cases event with
  | standDown =>
      simp only [System.next, Option.ite_none_left_eq_some] at hsystem
      obtain ⟨-, hsome⟩ := hsystem
      obtain rfl := Option.some.inj hsome
      -- the edge forgets every park work before it
      exact ⟨h.kept, Bool.noConfusion, fun hcounts => absurd hcounts.1 Bool.noConfusion,
        fun hparked => absurd hparked Bool.noConfusion⟩
  | resume =>
      obtain ⟨-, rfl⟩ := of_guard hsystem
      exact h.frame (fun _ => rfl) rfl
  | parkStart =>
      obtain ⟨-, rfl⟩ := of_guard hsystem
      exact ⟨h.kept, fun _ => rfl, fun _ j hj => absurd hj (Nat.not_lt_zero j), h.parked⟩
  | park answers => exact h.park hshown hcareful hsystem
  | applyStart list =>
      simp only [System.next] at hsystem
      split at hsystem
      · obtain rfl := Option.some.inj hsystem
        exact h.frame (fun _ => rfl) rfl
      · exact absurd hsystem nofun
  | apply answers => exact h.apply hsystem
  | reset i =>
      obtain rfl := Option.some.inj hsystem
      exact h.frame (putCh_board _) rfl

/-! ### What it can rely on -/

/-- A step that leaves the boards, the wanted copies and the history alone, and covers what it
covered. -/
theorem Shown.frame (h : Shown params watch) (hports : system.ports = watch.system.ports)
    (happly : ∀ i, watch.system.ApplyCalls i → system.ApplyCalls i)
    (hpark : ∀ i, watch.system.park = .call i ↔ system.park = .call i)
    (hbehind : ∀ i, watch.system.Behind i → system.Behind i) :
    Shown params ⟨system, watch.history⟩ where
  covered i hi hoff := by
    rw [hports] at hoff
    rcases h.covered i hi hoff with hboard | hcalls | hcall
    · exact Or.inl (hports ▸ hboard)
    · exact Or.inr (Or.inl (happly i hcalls))
    · exact Or.inr (Or.inr ((hpark i).mp hcall))
  cleared hcounts i hcall := by
    rw [hports]
    exact h.cleared hcounts i ((hpark i).mpr hcall)
  spared i harmed := hbehind i (h.spared i harmed)

/-- A write of a wanted copy that covers the channel and keeps the park work's RF_OFF. -/
theorem Shown.write (h : Shown params watch) {i : Nat} {ch : TxCh}
    (hports : system.ports = (watch.system.putCh i ch).ports)
    (happly : ∀ j ≠ i, watch.system.ApplyCalls j → system.ApplyCalls j)
    (hpark : ∀ j ≠ i, watch.system.park = .call j ↔ system.park = .call j)
    (hcovered : i < params.count → ch.enable = .rfOff → system.Covered i)
    (hcleared : watch.history.Counts → system.park = .call i → ch.enable = .rfOff)
    (hbehind : ∀ j, watch.system.Behind j → system.Behind j) :
    Shown params ⟨system, watch.history⟩ where
  covered j hj hoff := by
    simp only [hports, putCh_txCh] at hoff
    split_ifs at hoff with hji
    · subst hji
      exact hcovered hj hoff
    · rcases h.covered j hj hoff with hboard | hcalls | hcall
      · refine Or.inl ?_
        show (system.ports j).board.Off
        rwa [hports, putCh_board]
      · exact Or.inr (Or.inl (happly j hji hcalls))
      · exact Or.inr (Or.inr ((hpark j hji).mp hcall))
  cleared hcounts j hcall := by
    show (system.ports j).txCh.enable = .rfOff
    rw [hports, putCh_txCh]
    split_ifs with hji
    · subst hji
      exact hcleared hcounts hcall
    · exact h.cleared hcounts j ((hpark j hji).mpr hcall)
  spared j harmed := hbehind j (h.spared j harmed)

/-- A call whose RF_OFF stops the board leaves the channel off if its wanted copy says so. -/
theorem called_off (hkept : (watch.system.ports i).board.Kept)
    (htaken : watch.system.OffTaken params i answers)
    (hoff : (watch.system.ports i).txCh.enable = .rfOff) :
    ((watch.system.dgbTxSet params i answers).ports i).board.Off := by
  rw [dgbTxSet_board, if_pos rfl]
  obtain ⟨hdone, hstop⟩ := htaken hoff
  exact txSet_off hkept hoff hstop hdone

/-- The next access of the park work. -/
theorem Shown.park (h : Shown params watch) (hdone : Parked params watch)
    (hcareful : ParkCareful params watch answers)
    (hstep : watch.system.parkStep params answers = some system) :
    Shown params ⟨system, watch.history.note params watch.system (.park answers)⟩ := by
  unfold System.parkStep at hstep
  unfold ParkCareful at hcareful
  cases hphase : watch.system.park with
  | idle => simp [hphase] at hstep
  | check i =>
      simp only [hphase] at hstep
      -- the end of the work is one more note in the history, which nothing here reads
      have hnote : ∀ system, Shown params ⟨system, watch.history⟩ →
          Shown params ⟨system, watch.history.note params watch.system (.park answers)⟩ := by
        intro system hshown
        simp only [History.note, hphase]
        exact ⟨hshown.covered, hshown.cleared, hshown.spared⟩
      have hbehind : ∀ (park : ParkPhase) j, (park = .idle ∨ i ≤ park.passed) →
          watch.system.Behind j → System.Behind { watch.system with park := park } j := by
        rintro park j hpark ⟨hpending, hidle | hlt⟩
        · simp [hphase] at hidle
        · refine ⟨hpending, hpark.imp_right fun hle => Nat.lt_of_lt_of_le ?_ hle⟩
          rwa [hphase] at hlt
      split_ifs at hstep <;> obtain rfl := Option.some.inj hstep <;>
        refine hnote _ (h.frame rfl (fun _ => id) (fun j => by simp [hphase]) (hbehind _ · ?_))
      · exact Or.inl rfl
      · exact Or.inr (Nat.le_succ i)
      · exact Or.inr (Nat.le_refl i)
  | clear i =>
      simp only [hphase] at hstep
      obtain rfl := Option.some.inj hstep
      simp only [History.note, hphase]
      refine h.write rfl (fun _ _ => id) (fun j hj => ?_) (fun _ _ => Or.inr (Or.inr rfl))
        (fun _ _ => rfl) fun j => ?_
      · simp [hphase, hj.symm]
      · rintro ⟨hpending, hidle | hlt⟩
        · simp [hphase] at hidle
        · rw [hphase] at hlt
          exact ⟨hpending, Or.inr hlt⟩
  | call i =>
      simp only [hphase] at hstep hcareful
      obtain rfl := Option.some.inj hstep
      simp only [History.note, hphase]
      refine ⟨fun j hj hoff => ?_, fun _ j hcall => by simp at hcall, fun j harmed => ?_⟩
      · change ((watch.system.dgbTxSet params i answers).ports j).txCh.enable = .rfOff at hoff
        rw [dgbTxSet_txCh] at hoff
        by_cases hji : j = i
        · subst hji
          exact Or.inl (called_off (hdone.kept j) hcareful hoff)
        · rcases h.covered j hj hoff with hboard | hcalls | hcall
          · refine Or.inl ?_
            show ((watch.system.dgbTxSet params i answers).ports j).board.Off
            rwa [dgbTxSet_board, if_neg hji]
          · exact Or.inr (Or.inl hcalls)
          · rw [hphase] at hcall
            exact absurd (ParkPhase.call.inj hcall).symm hji
      · obtain ⟨hpending, hidle | hlt⟩ := h.spared j harmed
        · simp [hphase] at hidle
        · rw [hphase] at hlt
          exact ⟨hpending, Or.inr (Nat.lt_succ_of_lt hlt)⟩

/-- The next access of a channel list's work. -/
theorem Shown.apply (h : Shown params watch) (hdone : Parked params watch)
    (hcareful : ApplyCareful params watch answers)
    (hstep : watch.system.applyStep params answers = some system) :
    Shown params ⟨system, watch.history.note params watch.system (.apply answers)⟩ := by
  unfold System.applyStep at hstep
  unfold ApplyCareful at hcareful
  cases hphase : watch.system.apply with
  | idle => simp [hphase] at hstep
  | copy list i =>
      simp only [hphase] at hstep hcareful
      simp only [History.note, hphase]
      -- the list is about to call no channel
      have hnone : ∀ {goal : Prop} j, watch.system.ApplyCalls j → goal := by
        intro goal j hj
        obtain ⟨list, hcall⟩ := hj.phase
        simp [hphase] at hcall
      split_ifs at hstep with hend
      · obtain rfl := Option.some.inj hstep
        exact h.frame rfl hnone (fun _ => Iff.rfl) fun _ => id
      · have hpart := hcareful (Nat.lt_of_not_le hend)
        cases hlist : list i <;> simp only [hlist] at hstep hpart <;>
          obtain rfl := Option.some.inj hstep
        · exact h.frame rfl hnone (fun _ => Iff.rfl) fun _ => id
        · refine h.write rfl (fun j _ => hnone j) (fun _ _ => Iff.rfl) (fun _ hoff => ?_) hpart.2
            fun _ => id
          rcases hpart.1 hoff with hboard | hcall | hcall
          · refine Or.inl ?_
            show ((watch.system.putCh i _).ports i).board.Off
            rwa [putCh_board]
          · exact hnone i hcall
          · exact Or.inr (Or.inr hcall)
        · exact h.write rfl (fun j _ => hnone j) (fun _ _ => Iff.rfl)
            (fun _ _ => Or.inr (Or.inl rfl)) hpart fun _ => id
  | call list i =>
      simp only [hphase] at hstep hcareful
      obtain ⟨htaken, harms⟩ := hcareful
      obtain rfl := Option.some.inj hstep
      simp only [History.note, hphase]
      refine ⟨fun j hj hoff => ?_, fun hcounts => absurd hcounts.2 Bool.noConfusion,
        fun j harmed => ?_⟩
      · change ((watch.system.dgbTxSet params i answers).ports j).txCh.enable = .rfOff at hoff
        rw [dgbTxSet_txCh] at hoff
        by_cases hji : j = i
        · subst hji
          exact Or.inl (called_off (hdone.kept j) htaken hoff)
        · rcases h.covered j hj hoff with hboard | hcall | hcall
          · refine Or.inl ?_
            show ((watch.system.dgbTxSet params i answers).ports j).board.Off
            rwa [dgbTxSet_board, if_neg hji]
          · obtain ⟨other, hother⟩ := hcall.phase
            rw [hphase] at hother
            exact absurd (ApplyPhase.call.inj hother).2.symm hji
          · exact Or.inr (Or.inr hcall)
      · -- what was armed before stays armed behind the work, and so does what the call arms
        show watch.system.Behind j
        dsimp only at harmed
        split_ifs at harmed with hsucceeds
        · obtain rfl | hji := eq_or_ne j i
          · rw [Function.update_self, decide_eq_true_eq] at harmed
            exact harms harmed hsucceeds
          · rw [Function.update_of_ne hji] at harmed
            exact h.spared j harmed
        · exact h.spared j harmed

/-- Every careful step keeps it. -/
theorem Shown.next (h : Shown params watch) (hdone : Parked params watch)
    (hcareful : Careful params watch event)
    (hsystem : watch.system.next params event = some system) :
    Shown params ⟨system, watch.history.note params watch.system event⟩ := by
  cases event with
  | standDown =>
      simp only [System.next, Option.ite_none_left_eq_some] at hsystem
      obtain ⟨-, hsome⟩ := hsystem
      obtain rfl := Option.some.inj hsome
      exact ⟨h.covered, fun hcounts => absurd hcounts.1 Bool.noConfusion,
        fun _ harmed => absurd harmed Bool.noConfusion⟩
  | resume =>
      obtain ⟨-, rfl⟩ := of_guard hsystem
      exact h.frame rfl (fun _ => id) (fun _ => Iff.rfl) fun _ => id
  | parkStart =>
      obtain ⟨hguard, rfl⟩ := of_guard hsystem
      simp only [Bool.and_eq_true, decide_eq_true_eq] at hguard
      obtain ⟨hpending, hidle⟩ := hguard
      refine ⟨fun i hi hoff => ?_, fun _ i hcall => by simp at hcall, fun i harmed => ?_⟩
      · refine (h.covered i hi hoff).imp_right (Or.imp_right fun hcall => ?_)
        simp [hidle] at hcall
      · -- the work that starts was queued, so nobody has armed a channel since the edge
        exact Bool.noConfusion (hpending.symm.trans (h.spared i harmed).1)
  | park answers => exact h.park hdone hcareful hsystem
  | applyStart list =>
      simp only [System.next] at hsystem
      split at hsystem
      · rename_i hidle
        obtain rfl := Option.some.inj hsystem
        refine h.frame rfl (fun i hcalls => ?_) (fun _ => Iff.rfl) fun _ => id
        simp [System.ApplyCalls, hidle] at hcalls
      · exact absurd hsystem nofun
  | apply answers => exact h.apply hdone hcareful hsystem
  | reset i =>
      obtain rfl := Option.some.inj hsystem
      refine h.write rfl (fun _ _ => id) (fun _ _ => Iff.rfl) (fun hi _ => ?_) (fun _ _ => rfl)
        fun _ => id
      refine (hcareful hi).imp_left fun hboard => ?_
      show ((watch.system.putCh i _).ports i).board.Off
      rwa [putCh_board]

/-! ### The step -/

/-- Every careful step keeps the invariant. -/
theorem inv_next (h : Inv params watch) (hcareful : Careful params watch event)
    (hnext : watch.next params event = some following) : Inv params following := by
  obtain ⟨system, hsystem, rfl⟩ := Option.map_eq_some_iff.mp hnext
  exact ⟨h.done.next h.shown hcareful hsystem, h.shown.next h.done hcareful hsystem⟩

theorem not_switchedOff_self (board : TxBoard) : ¬ SwitchedOff board board := by
  rintro (⟨hon, hoff⟩ | ⟨hon, hoff⟩)
  · exact hon hoff
  · exact Bool.noConfusion (hon.symm.trans hoff)

/-- The park work calls no channel that is armed. -/
theorem sparesArmed_of_inv (h : Inv params watch)
    (hnext : watch.next params event = some following) : SparesArmed watch event following := by
  obtain ⟨system, hsystem, rfl⟩ := Option.map_eq_some_iff.mp hnext
  rintro answers rfl j harmed
  change watch.system.parkStep params answers = some system at hsystem
  show ¬ SwitchedOff (watch.system.ports j).board (system.ports j).board
  unfold System.parkStep at hsystem
  cases hphase : watch.system.park with
  | idle => simp [hphase] at hsystem
  | check i =>
      simp only [hphase] at hsystem
      split_ifs at hsystem <;> obtain rfl := Option.some.inj hsystem <;>
        exact not_switchedOff_self _
  | clear i =>
      simp only [hphase] at hsystem
      obtain rfl := Option.some.inj hsystem
      show ¬ SwitchedOff _ ((watch.system.putCh i _).ports j).board
      rw [putCh_board]
      exact not_switchedOff_self _
  | call i =>
      simp only [hphase] at hsystem
      obtain rfl := Option.some.inj hsystem
      show ¬ SwitchedOff _ ((watch.system.dgbTxSet params i answers).ports j).board
      -- the work is past what is armed
      have hne : j ≠ i := by
        rintro rfl
        rcases (h.shown.spared j harmed).2 with hidle | hlt
        · simp [hphase] at hidle
        · rw [hphase] at hlt
          exact Nat.lt_irrefl j hlt
      rw [dgbTxSet_board, if_neg hne]
      exact not_switchedOff_self _

end Invariant

/-! ## Runs -/

theorem probed_inv (params : Params) (kinds : Nat → BoardKind) : Inv params (.probed kinds) := by
  have hoff : ∀ i, ((Watch.probed kinds).system.ports i).board.Off := by
    intro i
    show (kinds i).probed.Off
    cases kinds i <;> exact ⟨rfl, rfl⟩
  refine ⟨⟨fun i => ?_, Bool.noConfusion, fun _ i hi => absurd hi (Nat.not_lt_zero i),
    Bool.noConfusion⟩, ⟨fun i _ _ => Or.inl (hoff i), fun _ _ hcall => ?_,
    fun _ harmed => Bool.noConfusion harmed⟩⟩
  · show (kinds i).probed.Kept
    cases kinds i with
    | lime | granita => trivial
    | yucca => exact Yucca.probed_tracked true
  · exact absurd hcall nofun

/-- One Lime board. -/
def sampleParams : Params := ⟨.standard, true, 1⟩

/-- A list that switches every channel on. -/
def switchOn (_ : Nat) : Part := .applied ⟨2400000000, 20, 20, .smaA, false, .rfOn, .auto⟩

/-- The chip locks. -/
def locked : Answers := ⟨.locked, []⟩

/-- A client that arms a channel. -/
def arming : List Event := [.applyStart switchOn, .apply locked, .apply locked, .apply locked]

/-- The park work with a channel to switch off. -/
def parking : List Event :=
  [.parkStart, .park locked, .park locked, .park locked, .park locked]

/-- A client that switches every channel off again. -/
def disarming : List Event :=
  [.applyStart fun _ => .applied ⟨2400000000, 20, 20, .smaA, false, .rfOff, .auto⟩, .apply locked,
    .apply locked, .apply locked]

/-- A client goes away without a reset and is parked; the next one comes back behind the park work,
switches off and is reset; a third one goes away as the first. -/
def visits : List Event :=
  arming ++ .standDown :: parking ++ .resume :: arming ++ disarming ++ .reset 0 :: arming ++
    .standDown :: parking

end RfnmDriver.IdlePark
