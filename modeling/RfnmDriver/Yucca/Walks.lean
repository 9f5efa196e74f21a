import RfnmDriver.Library.StepSystem
import RfnmDriver.Yucca.Board
import Mathlib.Tactic.SplitIfs

/-!
# Where the procedures of the Yucca driver end

From a chip and a mirror whose gain words agree, each procedure that the chip does not refuse ends
at one chip state with one mirror (`Mt.At`), whatever path the walk took. A refusal may leave
anything: the fail-safe clears the mirror after it.
-/

namespace RfnmDriver.Yucca

open RefusableCalls Proc

/-- A gain word that the driver believes known is the chip's. -/
structure Mt.GainsMatch (mt : Mt) : Prop where
  rx : ∀ lane code, mt.mirror.rxGainCode lane = some code → mt.chip.rxGain lane = some code
  tx : ∀ code, mt.mirror.txGainCode = some code → mt.chip.txGain = some code

/-- The chip is in the state and the driver has the mirror. -/
structure Mt.At (mt : Mt) (state : MtState) (mirror : Mirror) : Prop where
  state : mt.chip.state = state
  mirror : mt.mirror = mirror
  gains : mt.GainsMatch

/-- From the one state and mirror the procedure ends at the other, unless the chip refuses. -/
def Walks (proc : Proc Mt Unit) (state : MtState) (mirror : Mirror)
    (reached : MtState) (kept : Mirror) : Prop :=
  ∀ mt : Mt, mt.At state mirror →
    Meets proc (fun _ after => after.At reached kept) (fun _ => True) mt

/-- The chip state that a target asks for. -/
def Target.state (target : Target) : MtState :=
  if target.path = .none then .standby
  else .active (target.loHz / 500) target.mount target.act

/-- The gain word that an RX lane is to have. -/
def Wanted.rxCode (wanted : Wanted) (lane : Lane) : Nat := rxGainCode (wanted.rx lane).gain

def Wanted.txCode (wanted : Wanted) : Nat := txGainCode (wanted.tx.elim 0 TxCh.power)

variable {mt : Mt} {state middle reached : MtState} {mirror between kept : Mirror}
  {first rest : Proc Mt Unit}

namespace Walks

/-- One walk after another. -/
theorem andThen (h : Walks first state mirror middle between)
    (hrest : Walks rest middle between reached kept) :
    Walks (first >>= fun _ => rest) state mirror reached kept :=
  fun mt hat => meets_bind ((h mt hat).mono (fun _ _ => hrest _) fun _ _ => trivial)

theorem stay : Walks (pure ()) state mirror state mirror :=
  fun _ hat => meets_pure hat

/-- A call that moves the chip and writes no gain. -/
theorem api {effect : Mt3812 → Option Mt3812}
    (h : ∀ chip : Mt3812, chip.state = state →
      effect chip = some { chip with state := reached }) :
    Walks (api effect) state mirror reached mirror := by
  intro mt hat
  refine meets_call (fun after hafter => ?_) trivial
  rw [h mt.chip hat.state] at hafter
  obtain rfl := Option.some.inj hafter
  exact ⟨rfl, hat.mirror, hat.gains.rx, hat.gains.tx⟩

/-- A note in the mirror that is not about gains. -/
theorem keep {change : Mirror → Mirror}
    (hrx : (change mirror).rxGainCode = mirror.rxGainCode)
    (htx : (change mirror).txGainCode = mirror.txGainCode) :
    Walks (keep change) state mirror state (change mirror) := by
  intro mt hat
  obtain ⟨hstate, rfl, hgains⟩ := hat
  refine meets_modify ⟨hstate, rfl, fun lane code hcode => hgains.rx lane code ?_,
    fun code hcode => hgains.tx code ?_⟩
  · exact hrx ▸ hcode
  · exact htx ▸ hcode

theorem onlyIf {condition : Bool}
    (h : condition = true → Walks first state mirror reached kept)
    (hnot : condition = false → reached = state ∧ kept = mirror) :
    Walks (onlyIf condition first) state mirror reached kept := by
  intro mt hat
  refine meets_onlyIf (fun htrue => h htrue mt hat) fun hfalse => ?_
  obtain ⟨rfl, rfl⟩ := hnot hfalse
  exact hat

end Walks

/-! ## The chip's calls -/

section Calls

variable {word : Nat} {mount : Mount} {activated complete : Bool} {mode : Activation}

theorem setTrxPll_walks :
    Walks (api (·.setTrxPll word)) .standby mirror (.trxPllOn word false) mirror :=
  Walks.api fun chip hchip => by rw [Mt3812.setTrxPll, hchip]

theorem setTrxPllOff_walks :
    Walks (api (·.setTrxPllOff)) (.trxPllOn word complete) mirror .standby mirror :=
  Walks.api fun chip hchip => by rw [Mt3812.setTrxPllOff, hchip]

theorem calTrxPll_walks :
    Walks (api (·.calTrxPll)) (.trxPllOn word complete) mirror (.trxPllOn word complete) mirror :=
  Walks.api fun chip hchip => by
    obtain ⟨_, rxGain, txGain⟩ := chip
    obtain rfl := hchip
    rfl

/-- The PLL is complete once the MMD program has the frequency that was set. -/
theorem accPll_walks :
    Walks (api (·.accPll word)) (.trxPllOn word complete) mirror (.trxPllOn word true) mirror :=
  Walks.api fun chip hchip => by rw [Mt3812.accPll, hchip]; simp

theorem setPath_walks (hpath : mount.path ≠ .none) :
    Walks (api (·.setPath mount)) (.trxPllOn word true) mirror (.prepared word mount false)
      mirror :=
  Walks.api fun chip hchip => by rw [Mt3812.setPath, hchip]; exact if_pos hpath

/-- The unmount with what is live. -/
theorem unmount_walks :
    Walks (api (·.setPath { mount with path := .none })) (.prepared word mount activated) mirror
      (.trxPllOn word true) mirror :=
  Walks.api fun chip hchip => by rw [Mt3812.setPath, hchip]; exact if_pos rfl

/-- The bandwidth of the mount, written once more. -/
theorem setRxBw_walks :
    Walks (api (·.setRxBw mount.rxbw)) (.prepared word mount activated) mirror
      (.prepared word mount activated) mirror :=
  Walks.api fun chip hchip => by rw [Mt3812.setRxBw, hchip]

theorem setActive_walks (hmode : mode ≠ .off) :
    Walks (api (·.setActive mode)) (.prepared word mount activated) mirror
      (.active word mount mode) mirror :=
  Walks.api fun chip hchip => by rw [Mt3812.setActive, hchip]; exact if_pos hmode

theorem setActiveOff_walks :
    Walks (api (·.setActive .off)) (.active word mount mode) mirror (.prepared word mount true)
      mirror :=
  Walks.api fun chip hchip => by rw [Mt3812.setActive, hchip]; exact if_pos rfl

end Calls

/-! ## The walks -/

/-- The mirror of a chip in STANDBY. -/
def Mirror.unmounted (mirror : Mirror) : Mirror :=
  { mirror with loHz := 0, path := .none, act := .off }

/-- The walk to STANDBY starts anywhere. -/
theorem toStandby_walks (tries : Nat) :
    Walks (toStandby tries) state mirror .standby mirror.unmounted := by
  induction tries generalizing state with
  | zero => exact fun mt hat => meets_fail trivial
  | succ tries ih =>
      rintro mt ⟨rfl, hmirror, hgains⟩
      refine meets_bind (meets_query ?_ trivial)
      cases hstate : mt.chip.state with
      | standby =>
          rw [Mt.sysState, hstate]
          exact Walks.keep rfl rfl mt ⟨hstate, hmirror, hgains⟩
      | trxPllOn word complete =>
          rw [Mt.sysState, hstate]
          exact setTrxPllOff_walks.andThen ih mt ⟨hstate, hmirror, hgains⟩
      | prepared word mount activated =>
          rw [Mt.sysState, hstate]
          refine meets_bind (meets_query ?_ trivial)
          rw [Mt3812.getPath, hstate]
          exact unmount_walks.andThen ih mt ⟨hstate, hmirror, hgains⟩
      | active word mount mode =>
          rw [Mt.sysState, hstate]
          exact setActiveOff_walks.andThen ih mt ⟨hstate, hmirror, hgains⟩

theorem pllMount_walks (loHz : Nat) :
    Walks (pllMount loHz) .standby mirror (.trxPllOn (loWord loHz) true)
      { mirror with loHz := loHz } :=
  setTrxPll_walks.andThen <| calTrxPll_walks.andThen <| accPll_walks.andThen <| Walks.keep rfl rfl

/-- What the driver notes of a gain word of an RX lane. -/
def Mirror.putRxGain (mirror : Mirror) (lane : Lane) (code : Nat) : Mirror :=
  { mirror with
    rxGainCode := fun other => if other = lane then some code else mirror.rxGainCode other }

def Mirror.putTxGain (mirror : Mirror) (code : Nat) : Mirror :=
  { mirror with txGainCode := some code }

/-- A gain word that is known already is not written; the mirror comes to the same. -/
theorem setRxGain_walks (lane : Lane) (code : Nat) :
    Walks (setRxGain lane code) state mirror state (mirror.putRxGain lane code) := by
  rintro mt ⟨hstate, rfl, hgains⟩
  refine meets_bind (meets_read (meets_onlyIf (fun hunknown => ?_) fun hknown => ?_))
  · refine meets_bind (meets_call (fun after hafter => ?_) trivial)
    obtain ⟨chip, hchip, rfl⟩ := Option.map_eq_some_iff.mp (Option.mem_def.mp hafter)
    obtain ⟨-, rfl⟩ := StepSystem.of_guard hchip
    refine meets_modify ⟨hstate, rfl, fun other known hother => ?_, hgains.tx⟩
    by_cases hlane : other = lane
    · simpa [hlane] using hother
    · simpa [hlane] using hgains.rx other known (by simpa [hlane] using hother)
  · -- no call is made, and the word in the mirror is the one asked for
    have hsame : mt.mirror.rxGainCode lane = some code := by simpa using hknown
    refine ⟨hstate, ?_, hgains⟩
    have hcodes : (fun other => if other = lane then some code else mt.mirror.rxGainCode other) =
        mt.mirror.rxGainCode := by
      funext other
      split_ifs with hlane
      · rw [hlane, hsame]
      · rfl
    simp only [Mirror.putRxGain, hcodes]

theorem setTxGain_walks (code : Nat) :
    Walks (setTxGain code) state mirror state (mirror.putTxGain code) := by
  rintro mt ⟨hstate, rfl, hgains⟩
  refine meets_bind (meets_read (meets_onlyIf (fun hunknown => ?_) fun hknown => ?_))
  · refine meets_bind (meets_call (fun after hafter => ?_) trivial)
    obtain ⟨chip, hchip, rfl⟩ := Option.map_eq_some_iff.mp (Option.mem_def.mp hafter)
    obtain ⟨-, rfl⟩ := StepSystem.of_guard hchip
    exact meets_modify ⟨hstate, rfl, hgains.rx, fun _ hcode => hcode⟩
  · have hsame : mt.mirror.txGainCode = some code := by simpa using hknown
    exact ⟨hstate, by simp only [Mirror.putTxGain, ← hsame], hgains⟩

/-- The only activation the driver makes: from PREPARED, with the mirror at ACT_OFF. -/
theorem activate_walks {word : Nat} {mount : Mount} {activated : Bool} {mode : Activation}
    (hact : mirror.act = .off) (hmode : mode ≠ .off) :
    Walks (activate mode) (.prepared word mount activated) mirror (.active word mount mode)
      { mirror with act := mode } := by
  rintro mt ⟨hstate, rfl, hgains⟩
  refine meets_bind (meets_read ?_)
  simp only [hact, ne_eq, hmode.symm, not_false_eq_true, decide_true, not_true_eq_false,
    false_and, decide_false]
  exact Walks.stay.andThen ((setActive_walks hmode).andThen (Walks.keep rfl rfl)) mt
    ⟨hstate, rfl, hgains⟩

/-! ## Remounts -/

@[simp]
theorem Wanted.computeTarget_path (wanted : Wanted) : wanted.computeTarget.path = wanted.path := rfl

@[simp]
theorem Wanted.computeTarget_loHz (wanted : Wanted) : wanted.computeTarget.loHz = wanted.loHz := rfl

/-- A target with a lane is one to activate. -/
theorem Wanted.act_ne_off {wanted : Wanted} (hpath : wanted.path ≠ .none) :
    wanted.computeTarget.act ≠ .off := by
  unfold computeTarget
  dsimp only
  split_ifs <;> simp_all

/-- A gain step of the ladder, for the paths that have the lane. -/
theorem onlyIf_setRxGain_walks (on : Bool) (lane : Lane) (code : Nat) :
    Walks (onlyIf on (setRxGain lane code)) state mirror state
      { mirror with
        rxGainCode := fun other =>
          if on ∧ other = lane then some code else mirror.rxGainCode other } := by
  cases on with
  | false => simpa [onlyIf] using Walks.stay
  | true => simpa [onlyIf, Mirror.putRxGain] using setRxGain_walks lane code

theorem onlyIf_setTxGain_walks (on : Bool) (code : Nat) :
    Walks (onlyIf on (setTxGain code)) state mirror state
      { mirror with txGainCode := if on then some code else mirror.txGainCode } := by
  cases on with
  | false => exact Walks.stay
  | true => exact setTxGain_walks code

/-- The mirror with the gain words of the lanes that are wanted. -/
def Mirror.putGains (mirror : Mirror) (wanted : Wanted) : Mirror :=
  { mirror with
    rxGainCode := fun lane =>
      if wanted.path.rx lane then some (wanted.rxCode lane) else mirror.rxGainCode lane
    txGainCode := if wanted.path.tx1 then some wanted.txCode else mirror.txGainCode }

/-- The gain steps of the ladder. -/
theorem gains_walks {wanted : Wanted}
    (hrest : Walks rest state (mirror.putGains wanted) reached kept) :
    Walks
      (do
        onlyIf wanted.path.rx1 (setRxGain 0 (wanted.rxCode 0))
        onlyIf wanted.path.rx2 (setRxGain 1 (wanted.rxCode 1))
        onlyIf wanted.path.tx1 (setTxGain wanted.txCode)
        rest) state mirror reached kept := by
  have hrx : (fun lane : Lane =>
      if wanted.path.rx2 ∧ lane = 1 then some (wanted.rxCode 1)
      else if wanted.path.rx1 ∧ lane = 0 then some (wanted.rxCode 0)
      else mirror.rxGainCode lane) = (mirror.putGains wanted).rxGainCode := by
    funext lane
    -- the ladder asks the mask lane by lane
    match lane with
    | 0 => simp [Mirror.putGains, Path.rx]
    | 1 => simp [Mirror.putGains, Path.rx]
  refine (onlyIf_setRxGain_walks _ 0 _).andThen <| (onlyIf_setRxGain_walks _ 1 _).andThen <|
    (onlyIf_setTxGain_walks _ _).andThen ?_
  simp only [hrx]
  exact hrest

/-- The mirror after a remount. -/
def Mirror.remounted (mirror : Mirror) (wanted : Wanted) : Mirror :=
  { mirror with
    loHz := wanted.computeTarget.loHz
    path := wanted.computeTarget.path
    rxbw := wanted.computeTarget.rxbw
    txbw := wanted.computeTarget.txbw
    act := wanted.computeTarget.act }.putGains wanted

/-- The ladder, from STANDBY. The frequency has to fit the 24 bits of its word. -/
theorem remount_walks {wanted : Wanted} (hact : mirror.act = .off) (hpath : wanted.path ≠ .none)
    (hword : loWord wanted.loHz = wanted.loHz / 500) :
    Walks (remount wanted) .standby mirror wanted.computeTarget.state
      (mirror.remounted wanted) := by
  have hstate : wanted.computeTarget.state = .active (loWord wanted.computeTarget.loHz)
      wanted.computeTarget.mount wanted.computeTarget.act := by
    rw [Target.state, Wanted.computeTarget_path, if_neg hpath, Wanted.computeTarget_loHz, hword]
  rw [hstate]
  -- the steps in the order of the ladder, the activation last
  refine (pllMount_walks _).andThen <| (setPath_walks hpath).andThen <|
    (Walks.keep rfl rfl).andThen <| ?_
  refine Walks.andThen (Walks.onlyIf (fun _ => setRxBw_walks) fun _ => ⟨rfl, rfl⟩) ?_
  exact gains_walks (activate_walks hact (Wanted.act_ne_off hpath))

/-- The mirror after a restructure. -/
def Mirror.restructured (mirror : Mirror) (wanted : Wanted) : Mirror :=
  if wanted.path = .none then mirror.unmounted.forgetGains
  else mirror.unmounted.forgetGains.remounted wanted

theorem restructure_walks {wanted : Wanted}
    (hword : wanted.path ≠ .none → loWord wanted.loHz = wanted.loHz / 500) :
    Walks (restructure wanted) state mirror wanted.computeTarget.state
      (mirror.restructured wanted) := by
  refine (toStandby_walks 5).andThen fun mt hat => meets_bind (meets_modify ?_)
  have hforgot : ({ mt with mirror := mt.mirror.forgetGains } : Mt).At .standby
      mirror.unmounted.forgetGains := by
    obtain ⟨hstate, hmirror, -⟩ := hat
    -- no word is known, so none has to be on the chip
    exact ⟨hstate, congrArg Mirror.forgetGains hmirror, nofun, nofun⟩
  refine Walks.onlyIf (fun hon => ?_) (fun hoff => ?_) _ hforgot
  · have hpath : wanted.path ≠ .none := of_decide_eq_true hon
    rw [Mirror.restructured, if_neg hpath]
    exact remount_walks rfl hpath (hword hpath)
  · have hpath : wanted.path = .none := Decidable.not_not.mp (of_decide_eq_false hoff)
    rw [Mirror.restructured, if_pos hpath, Target.state, Wanted.computeTarget_path, if_pos hpath]
    exact ⟨rfl, rfl⟩

/-! ## The fail-safe -/

/-- The mirror of a chip that the driver takes to be in STANDBY, with no gain word known. -/
structure Mirror.Cleared (mirror : Mirror) : Prop where
  loHz : mirror.loHz = 0
  path : mirror.path = .none
  act : mirror.act = .off
  rxGain : ∀ lane, mirror.rxGainCode lane = none
  txGain : mirror.txGainCode = none

/-- The fail-safe clears the mirror, whatever it came to on the chip. -/
theorem failSafe_meets {refused : Mt → Prop} :
    Meets failSafe (fun _ after => after.mirror.Cleared) refused mt := by
  have hcleared : ∀ after : Mt, Meets
      (keep fun mirror => { mirror with loHz := 0, path := .none, act := .off }.forgetGains)
      (fun _ after => after.mirror.Cleared) refused after :=
    fun _ => meets_modify ⟨rfl, rfl, rfl, fun _ => rfl, rfl⟩
  exact meets_bind (meets_attempt (meets_of_forall (fun _ => hcleared) hcleared))

/-- A procedure under the fail-safe always comes back. -/
theorem guarded_meets {post : Mt → Prop} (refused : Mt → Prop)
    (h : Meets first (fun _ => post) (fun _ => True) mt) :
    Meets (guarded first)
      (fun succeeds after => if succeeds then post after else after.mirror.Cleared) refused mt := by
  refine meets_bind (meets_attempt (h.mono (fun _ after hpost => ?_) fun after _ => ?_))
  · exact meets_bind (meets_pure (meets_pure hpost))
  · exact meets_bind (failSafe_meets.mono (fun _ _ hcleared => meets_pure hcleared)
      fun _ hrefused => hrefused)

/-- A procedure that went through needs no fail-safe. -/
theorem guarded_of_some {after : Mt} {answers left : List Bool}
    (h : first mt answers = (some (), after, left)) :
    guarded first mt answers = (some true, after, left) := by
  have hattempt : attempt first mt answers = (some true, after, left) := by
    rw [attempt, h]
    rfl
  rw [guarded, bind_of_some hattempt]
  rfl

end RfnmDriver.Yucca
