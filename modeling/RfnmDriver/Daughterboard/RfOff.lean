import RfnmDriver.Lime.Board
import RfnmDriver.Granita.Board
import RfnmDriver.Yucca.Convergence

/-!
# Whether RF_OFF stops the transmitter

The three board drivers implement one contract: a TX apply with RF_OFF that succeeds leaves the
transmit path of the chip off. `rfOff_stops_iff`: on Lime it always does, on Granita never, since
`rfnm_tx_ch_set` powers TX up whatever the channel says, and on Yucca exactly where the mirror does
not hide a chip that still transmits.
-/

namespace RfnmDriver

open RefusableCalls Proc StepSystem

/-- What the contract looks at of a board driver. -/
structure TxPort (State Event : Type) where
  next : State → Event → Option State
  /-- The event is a TX apply with RF_OFF that succeeds. -/
  offSucceeds : State → Event → Bool
  /-- The transmit path of the chip that the event is about. -/
  txOn : State → Event → Bool

/-- A TX apply with RF_OFF that succeeds leaves the transmit path off. -/
def TxPort.OffStops {State Event : Type} (port : TxPort State Event)
    (state : State) (event : Event) (following : State) : Prop :=
  port.offSucceeds state event = true → port.txOn following event = false

/-! ## Lime -/

namespace Lime

def txPort (params : Params) : TxPort Driver Event where
  next := Driver.next params
  offSucceeds driver
    | .txSet slot ch tune =>
        (driver.board slot).txS.isSome && ch.enable = .rfOff && (driver.txSet params slot ch tune).2
    | _ => false
  txOn driver
    | .txSet slot _ _ => (driver.board slot).chip.txEnabled
    | _ => false

theorem offStops (params : Params) {driver following : Driver} {event : Event}
    (hnext : Driver.next params driver event = some following) :
    (txPort params).OffStops driver event following := by
  obtain rfl := Option.some.inj hnext
  cases event with
  | txSet slot ch tune =>
      intro hoff
      simp only [txPort, Bool.and_eq_true, decide_eq_true_eq] at hoff
      obtain ⟨⟨hsome, henable⟩, -⟩ := hoff
      simp [txPort, Driver.step, hsome, Driver.txSet, henable]
  | rxSet | rxWant | lpfCal | reset => exact fun hoff => absurd hoff Bool.false_ne_true

end Lime

/-! ## Granita -/

namespace Granita

def txPort : TxPort Board Event where
  next := Board.next
  offSucceeds board
    | .txSet ch answers => ch.enable = .rfOff && (board.txSet ch answers).2
    | _ => false
  txOn board _ := board.core.txOn

/-- The calls an RF_OFF makes; where the loopback has no RX frequency, the apply fails by itself. -/
def Board.offCalls (board : Board) (ch : TxCh) : Option Nat :=
  if ch.path ≠ .loopback then some 2
  else match board.loopbackFreq with
    | none | some 0 => none
    | some _ => some 3

/-- No RF_OFF that the chip goes along with. -/
def Board.OffRefused (board : Board) : Event → Prop
  | .txSet ch answers =>
      ch.enable = .rfOff → ∀ count ∈ board.offCalls ch, (answers.take count).all id = false
  | _ => True

variable {board following : Board} {event : Event} {ch : TxCh} {answers : List Bool}

theorem si_meets {made : SiCall} {core : SiCore} {post : Unit → SiCore → Prop}
    (h : post () ⟨made :: core.calls⟩) :
    Meets (si made) post (fun _ => True) core :=
  meets_call (fun _ hreached => Option.some.inj hreached ▸ h) trivial

theorem si_asks (made : SiCall) : Asks 1 (si made) := asks_call fun _ => rfl

/-- The loopback calls switch TX on. -/
theorem txLoopback_txOn {core : SiCore} :
    Meets (board.txLoopback ch) (fun _ reached => reached.txOn = true) (fun _ => True) core := by
  unfold Board.txLoopback
  split
  · exact meets_fail trivial
  · exact meets_fail trivial
  · exact meets_bind (si_meets (meets_bind (si_meets (si_meets rfl))))

/-- A TX apply that is not TDD and goes through has TX on, RF_OFF or not. -/
theorem txCalls_txOn (board : Board) (core : SiCore) (henable : ch.enable ≠ .rfOnTdd) :
    Meets (board.txCalls ch) (fun _ reached => reached.txOn = true) (fun _ => True) core := by
  have htdd : ∀ {first : Proc SiCore Unit} {reached : SiCore}, reached.txOn = true →
      Meets (onlyIf (ch.enable = .rfOnTdd) first) (fun _ reached => reached.txOn = true)
        (fun _ => True) reached :=
    fun hon => meets_onlyIf (fun hyes => absurd (of_decide_eq_true hyes) henable) fun _ => hon
  by_cases hpath : ch.path = .loopback
  · refine meets_bind (meets_onlyIf (fun hyes => ?_) fun _ => ?_)
    · simp [hpath] at hyes
    refine meets_bind (meets_onlyIf (fun _ => ?_) fun hno => ?_)
    · exact txLoopback_txOn.mono (fun _ _ => htdd) fun _ h => h
    · simp [hpath, henable] at hno
  · refine meets_bind (meets_onlyIf (fun _ => ?_) fun hno => ?_)
    · refine meets_bind (si_meets (si_meets (meets_bind
        (meets_onlyIf (fun hyes => ?_) fun _ => ?_))))
      · simp [hpath] at hyes
      · exact htdd rfl
    · simp [hpath, henable] at hno

/-- The calls of an RF_OFF are counted right. -/
theorem txCalls_asks (hoff : ch.enable = .rfOff) {count : Nat}
    (hcalls : board.offCalls ch = some count) : Asks count (board.txCalls ch) := by
  have htdd : Asks 0 (onlyIf (ch.enable = .rfOnTdd) (board.txTdd ch)) :=
    asks_onlyIf (fun hyes => by simp [hoff] at hyes) fun _ => rfl
  -- RF_OFF makes the calls of RF_ON: two on an antenna port, three on the loopback
  unfold Board.offCalls at hcalls
  split_ifs at hcalls with hpath
  · obtain rfl : 2 = count := Option.some.inj hcalls
    refine asks_bind 2 0
      (asks_onlyIf (fun _ => asks_bind 1 1 (si_asks _) fun _ => si_asks _) fun hno => ?_)
      fun _ => asks_bind 0 0 (asks_onlyIf (fun hyes => ?_) fun _ => rfl) fun _ => htdd
    · simp [hpath, hoff] at hno
    · simp [hpath] at hyes
  · have hloopback : Asks count (board.txLoopback ch) := by
      unfold Board.txLoopback
      cases hfreq : board.loopbackFreq with
      | none => simp [hfreq] at hcalls
      | some rxFreq =>
          cases rxFreq with
          | zero => simp [hfreq] at hcalls
          | succ =>
              obtain rfl : 3 = count := by simpa [hfreq] using hcalls
              exact asks_bind 1 2 (si_asks _) fun _ => asks_bind 1 1 (si_asks _) fun _ => si_asks _
    refine Nat.zero_add count ▸ asks_bind 0 count (asks_onlyIf (fun hyes => ?_) fun _ => rfl)
      fun _ => asks_bind count 0 (asks_onlyIf (fun _ => hloopback) fun hno => ?_) fun _ => htdd
    · simp [not_not.mp hpath] at hyes
    · simp [not_not.mp hpath, hoff] at hno

/-- An RF_OFF with a loopback that has no RX frequency fails. -/
theorem txCalls_never (hoff : ch.enable = .rfOff) (hcalls : board.offCalls ch = none)
    (core : SiCore) : Meets (board.txCalls ch) (fun _ _ => False) (fun _ => True) core := by
  unfold Board.offCalls at hcalls
  split_ifs at hcalls with hpath
  have hfail : Meets (board.txLoopback ch) (fun _ _ => False) (fun _ => True) core := by
    unfold Board.txLoopback
    cases hfreq : board.loopbackFreq with
    | none => exact meets_fail trivial
    | some rxFreq =>
        cases rxFreq with
        | zero => exact meets_fail trivial
        | succ => simp [hfreq] at hcalls
  refine meets_bind (meets_onlyIf (fun hyes => ?_) fun _ => ?_)
  · simp [hpath] at hyes
  refine meets_bind (meets_onlyIf (fun _ => ?_) fun hno => ?_)
  · exact hfail.mono (fun _ _ => False.elim) fun _ h => h
  · simp [hpath, hoff] at hno

theorem txSet_snd :
    (board.txSet ch answers).2 = (board.txCalls ch board.core answers).1.isSome := by
  unfold Board.txSet
  split <;> simp [*]

theorem txSet_txOn (henable : ch.enable ≠ .rfOnTdd) (hdone : (board.txSet ch answers).2 = true) :
    (board.txSet ch answers).1.core.txOn = true := by
  have hended := txCalls_txOn board board.core henable answers
  unfold Board.txSet at hdone ⊢
  rcases hrun : board.txCalls ch board.core answers with ⟨_ | value, core, left⟩ <;>
    rw [hrun] at hended <;> simp only [hrun] at hdone ⊢
  · exact absurd hdone Bool.false_ne_true
  · exact hended

theorem si_keeps (made : SiCall) : Keeps (fun core => core.txOn = true) (si made) := by
  refine keeps_call fun core hon reached hreached => ?_
  obtain rfl := Option.some.inj hreached
  exact Bool.or_eq_true_iff.mpr (Or.inr hon)

/-- No call of a TX apply switches the transmit path off. -/
theorem txCalls_keeps (board : Board) (ch : TxCh) :
    Keeps (fun core => core.txOn = true) (board.txCalls ch) := by
  have hloopback : Keeps (fun core => core.txOn = true) (board.txLoopback ch) := by
    unfold Board.txLoopback
    split
    · exact keeps_fail
    · exact keeps_fail
    · exact keeps_bind (si_keeps _) fun _ => keeps_bind (si_keeps _) fun _ => si_keeps _
  have htdd : ∀ rx : RxCh, Keeps (fun core => core.txOn = true) (tdd ch rx) := fun rx =>
    keeps_bind (si_keeps _) fun _ => keeps_bind (si_keeps _) fun _ => si_keeps _
  refine keeps_bind (keeps_onlyIf (keeps_bind (si_keeps _) fun _ => si_keeps _)) fun _ =>
    keeps_bind (keeps_onlyIf hloopback) fun _ => keeps_onlyIf ?_
  unfold Board.txTdd
  split
  · exact keeps_pure
  · exact keeps_bind (keeps_attempt (htdd _)) fun _ => keeps_pure

theorem txSet_keeps (board : Board) (ch : TxCh) (answers : List Bool)
    (hon : board.core.txOn = true) : (board.txSet ch answers).1.core.txOn = true := by
  have hended := txCalls_keeps board ch board.core hon answers
  unfold Board.txSet
  rcases hrun : board.txCalls ch board.core answers with ⟨_ | value, core, left⟩ <;>
    rw [hrun] at hended <;> exact hended

/-- An RF_OFF that goes through leaves TX on, so the contract asks for one that does not. -/
theorem offStops_iff (hnext : board.next event = some following) :
    txPort.OffStops board event following ↔ board.OffRefused event := by
  obtain ⟨-, rfl⟩ := of_guard hnext
  cases event with
  | rxSet | rxWant => exact ⟨fun _ => trivial, fun _ hoff => absurd hoff Bool.false_ne_true⟩
  | txSet ch answers =>
      have hstops : txPort.OffStops board (.txSet ch answers) (board.txSet ch answers).1 ↔
          (ch.enable = .rfOff → (board.txSet ch answers).2 = false) := by
        simp only [TxPort.OffStops, txPort, Bool.and_eq_true, decide_eq_true_eq]
        constructor
        · intro h hoff
          by_contra hdone
          have hsucceeds : (board.txSet ch answers).2 = true := by simpa using hdone
          -- what goes through has powered TX up
          have hon := txSet_txOn (by rw [hoff]; nofun) hsucceeds
          exact Bool.noConfusion (hon.symm.trans (h ⟨hoff, hsucceeds⟩))
        · rintro h ⟨hoff, hsucceeds⟩
          exact Bool.noConfusion ((h hoff).symm.trans hsucceeds)
      refine hstops.trans (imp_congr_right fun hoff => ?_)
      rw [txSet_snd]
      cases hcalls : board.offCalls ch with
      | none =>
          have hnever := txCalls_never hoff hcalls board.core answers
          rcases hrun : board.txCalls ch board.core answers with ⟨_ | value, core, left⟩ <;>
            rw [hrun] at hnever
          · exact ⟨fun _ => nofun, fun _ => rfl⟩
          · exact hnever.elim
      | some count =>
          rw [(txCalls_asks hoff hcalls board.core answers).1]
          simp

end Granita

/-! ## Yucca -/

namespace Yucca

def txPort : TxPort Board Event where
  next := Board.next
  offSucceeds board
    | .txSet ch answers => ch.enable = .rfOff && (board.txSet ch answers).2
    | _ => false
  txOn board _ := board.mt.chip.txOn

/-- An RF_OFF that leaves no lane on finds no transmitter that the mirror does not know of. -/
def Board.OffKnown (board : Board) : Event → Prop
  | .txSet ch _ =>
      ch.enable = .rfOff → (board.txWanted ch).path = .none → board.mt.mirror.path = .none →
        board.mt.chip.txOn = false
  | _ => True

variable {board following : Board} {event : Event}

/-- A chip at its target transmits if the target has the TX lane. -/
theorem Mt.Converged.txOn {mt : Mt} {wanted : Wanted} (hconverged : mt.Converged wanted) :
    mt.chip.txOn = wanted.path.tx1 := by
  rw [Mt3812.txOn, hconverged.state, Target.state]
  split_ifs with hpath
  · exact (congrArg Path.tx1 hpath).symm
  · rfl

/-- A TX apply that succeeds leaves the chip transmitting as its channel says, unless it leaves no
lane on under an unmounted mirror, and the chip as it was. -/
theorem txSet_txOn {ch : TxCh} {answers : List Bool} (htracked : board.Tracked)
    (hdone : (board.txSet ch answers).2 = true) :
    (board.txSet ch answers).1.mt.chip.txOn = ch.on ∨
      (board.txWanted ch).path = .none ∧ board.mt.mirror.path = .none ∧
        (board.txSet ch answers).1.mt = board.mt := by
  rcases apply_cases (.txSet ch answers) htracked with
    hparam | ⟨mt, hrefused, -⟩ | ⟨-, mt, hsucceeds, hconverged | ⟨hpath, hidle, hmt⟩⟩
  · exact absurd hdone (by rw [show board.txSet ch answers = _ from hparam]; nofun)
  · exact absurd hdone (by rw [show board.txSet ch answers = _ from hrefused]; nofun)
  · rw [show board.txSet ch answers = _ from hsucceeds]
    exact Or.inl hconverged.txOn
  · rw [show board.txSet ch answers = _ from hsucceeds]
    exact Or.inr ⟨hpath, hidle, hmt⟩

/-- So an RF_OFF that succeeds, and meets no transmitter under an unmounted mirror, stops TX. -/
theorem txSet_off {ch : TxCh} {answers : List Bool} (htracked : board.Tracked)
    (hoff : ch.enable = .rfOff) (hknown : board.OffKnown (.txSet ch answers))
    (hdone : (board.txSet ch answers).2 = true) :
    (board.txSet ch answers).1.mt.chip.txOn = false := by
  rcases txSet_txOn htracked hdone with hon | ⟨hpath, hidle, hmt⟩
  · rw [hon, TxCh.on, hoff]
    rfl
  · rw [hmt]
    exact hknown hoff hpath hidle

theorem offStops_iff (htracked : board.Tracked) (hnext : board.next event = some following) :
    txPort.OffStops board event following ↔ board.OffKnown event := by
  obtain ⟨-, rfl⟩ := of_guard hnext
  cases event with
  | rxSet => exact ⟨fun _ => trivial, fun _ hoff => absurd hoff Bool.false_ne_true⟩
  | txSet ch answers =>
      simp only [TxPort.OffStops, txPort, Bool.and_eq_true, decide_eq_true_eq]
      constructor
      · -- the apply makes no call and succeeds, so TX was off before
        intro h hoff hpath hidle
        have hdone := apply_of_idle (.txSet ch answers) htracked hpath hidle
        rw [hdone] at h
        exact h ⟨hoff, congrArg Prod.snd hdone⟩
      · rintro h ⟨hoff, hsucceeds⟩
        exact txSet_off htracked hoff h hsucceeds

end Yucca

/-! ## The contract -/

/-- Over every run on each of the boards: Lime keeps the contract, Granita where no RF_OFF goes
through, Yucca where no RF_OFF meets a transmitter under an unmounted mirror. -/
theorem rfOff_stops_iff (params : Lime.Params) (hasTx : Bool) (limeRun : List Lime.Event)
    (granitaRun : List Granita.Event) (yuccaRun : List Yucca.Event) :
    EveryStep (Lime.txPort params).next (Lime.txPort params).OffStops .probed limeRun ∧
    (EveryStep Granita.txPort.next Granita.txPort.OffStops (.probed hasTx) granitaRun ↔
      Guarded Granita.txPort.next Granita.Board.OffRefused (.probed hasTx) granitaRun) ∧
    (EveryStep Yucca.txPort.next Yucca.txPort.OffStops (.probed hasTx) yuccaRun ↔
      Guarded Yucca.txPort.next Yucca.Board.OffKnown (.probed hasTx) yuccaRun) := by
  refine ⟨everyStep_of_forall fun _ _ _ => Lime.offStops params, ?_, ?_⟩
  · exact everyStep_iff_guarded (fun _ _ _ (_ : True) => Granita.offStops_iff)
      (fun _ _ _ _ _ _ => trivial) trivial
  · exact everyStep_iff_guarded (fun _ _ _ => Yucca.offStops_iff)
      (fun _ _ _ htracked _ hnext => Yucca.tracked_next htracked hnext) (Yucca.probed_tracked hasTx)

/-- A transmitter that RF_OFF leaves on: on Granita any, on Yucca one whose power was refused
together with the fail-safe's first question. -/
theorem rfOff_reported_over_carrier :
    ¬ EveryStep Granita.txPort.next Granita.txPort.OffStops (.probed true)
        [.txSet ⟨2400000000, 0, 20, .smaB, .rfOn⟩ [],
          .txSet ⟨2400000000, 0, 20, .smaB, .rfOff⟩ []] ∧
    ¬ EveryStep Yucca.txPort.next Yucca.txPort.OffStops (.probed true)
        [.txSet ⟨2500000000, 0, 50, .rfOn⟩ [], .txSet ⟨2500000000, 5, 50, .rfOn⟩ [false, false],
          .txSet ⟨2500000000, 0, 50, .rfOff⟩ []] := by
  constructor
  · intro hevery
    obtain ⟨-, hoff⟩ := hevery _ rfl
    exact absurd ((hoff _ rfl).1 (by decide)) (by decide)
  · intro hevery
    obtain ⟨-, hrefused⟩ := hevery _ rfl
    obtain ⟨-, hoff⟩ := hrefused _ rfl
    exact absurd ((hoff _ rfl).1 (by decide)) (by decide)

end RfnmDriver
