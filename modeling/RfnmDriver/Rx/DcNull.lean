import RfnmDriver.Library.StepSystem
import RfnmDriver.Rx.QecSolve

/-!
# The DC null and its probe

An armed null that finds the mean of a window outside the deadband moves each of the two DC codes
by 16 in turn, learns from the means what a code does, and solves for the codes that null them. It
writes through `rfnm_dgb_rx_set_dc`, as a client would: the codes go into the channel, and the
apply programs them unless its tuning fails or the pair is all zero. The machine runs beside the
applies of clients and of the gain loop, which the epochs of `qec_poll` tell it of. Read `next`
first.
-/

namespace RfnmDriver.Rx.Qec

open CheckedInt StepSystem

/-! ## The radio -/

/-- `rfic_dc_i` and `rfic_dc_q`. -/
structure Codes where
  i : Int
  q : Int
  deriving DecidableEq, Repr

def Codes.zero : Codes := ⟨0, 0⟩

/-- The range that validation and `rfnm_dgb_rx_set_dc` check. -/
def Codes.Legal (codes : Codes) : Prop :=
  -126 ≤ codes.i ∧ codes.i ≤ 126 ∧ -126 ≤ codes.q ∧ codes.q ≤ 126

instance (codes : Codes) : Decidable codes.Legal := inferInstanceAs (Decidable (_ ∧ _))

/-- The codes of a client, which validation has let through. -/
abbrev ClientCodes := {codes : Codes // codes.Legal}

/-- The channel on ADC 0, and the two epochs. -/
structure Radio where
  /-- The codes in `rx_ch`. -/
  wire : Codes
  /-- The codes programmed. -/
  codes : Codes
  gainEpoch : BitVec 32
  applyEpoch : BitVec 32
  deriving DecidableEq, Repr

/-- `rfnm_rx_ch_set`: the all-zero pair is skipped, and an apply whose tuning fails gives up before
it. -/
def Radio.apply (radio : Radio) (tuned : Bool) : Radio :=
  if tuned then
    { radio with
      codes := if radio.wire = .zero then radio.codes else radio.wire
      applyEpoch := radio.applyEpoch + 1 }
  else radio

/-- What becomes of a write. -/
inductive Outcome where
  | applied
  | tuneFailed
  | noBoard
  deriving DecidableEq, Repr

/-- `rfnm_dgb_rx_set_dc`, and whether it returns zero. -/
def Radio.setDc (radio : Radio) (codes : Codes) (outcome : Outcome) : Radio × Bool :=
  if outcome = .noBoard then (radio, false)
  else if ¬ codes.Legal then (radio, false)
  else
    (({ radio with wire := codes } : Radio).apply (outcome = .applied),
      decide (outcome = .applied))

/-! ## The machine -/

/-- `p_stage`: 0, 2, 3 and 4. -/
inductive PStage where
  | off
  | probeI
  | probeQ
  | solve
  deriving DecidableEq, Repr

/-- The means of a window, `acc.si / acc.n` and `acc.sq / acc.n`. -/
structure Window where
  mi : Int
  mq : Int
  mi_range : |mi| ≤ 2048
  mq_range : |mq| ≤ 2048

/-- A window is what an accumulator with slots in it measures. -/
theorem QecAcc.Holds.window {a : QecAcc} {count : Nat} (h : a.Holds count) (hcount : count ≠ 0) :
    ∃ w : Window, div64 a.si a.n = .ok w.mi ∧ div64 a.sq a.n = .ok w.mq := by
  have hn := h.n
  have hsi : |a.si| ≤ 2048 * (a.n : Int) := hn ▸ h.bounded.si
  have hsq : |a.sq| ≤ 2048 * (a.n : Int) := hn ▸ h.bounded.sq
  have hi := gives_div64 (by omega) hsi (by omega)
  have hq := gives_div64 (by omega) hsq (by omega)
  exact ⟨⟨_, _, hi.abs_le, hq.abs_le⟩, hi.eq, hq.eq⟩

theorem Window.level_range (w : Window) :
    (0 : Int) ≤ max |w.mi| |w.mq| ∧ max |w.mi| |w.mq| ≤ 2048 :=
  ⟨le_max_of_le_left (abs_nonneg _), max_le w.mi_range w.mq_range⟩

/-- `dom`. -/
def Window.level (w : Window) : Level := ⟨max |w.mi| |w.mq|, w.level_range⟩

/-- `dc_null_enable`, `dc_2x2_enable` and `dc_deadband`. -/
structure NullParams where
  dcNullEnable : Bool
  dc2x2Enable : Bool
  dcDeadband : BitVec 32

/-- The null's part of `struct qec_state`, the radio beside it, and two history variables. -/
structure DcNull where
  null : NullArm
  trim : Codes
  pStage : PStage
  pSolves : Nat
  /-- `p_ei` and `p_eq`. -/
  pE : Codes
  pS1 : Int
  pS2 : Int
  pMi : Int
  pMq : Int
  pM0 : Level
  ji : Int × Int
  jq : Int × Int
  lastGainEpoch : BitVec 32
  lastApplyEpoch : BitVec 32
  radio : Radio
  /-- The codes programmed when the last probe was entered, and every solved result and every
  correction of a client since. -/
  asked : List Codes
  /-- The windows accepted since the last probe was entered. -/
  windows : Nat

namespace DcNull

variable (st : DcNull)

/-- `null_frozen = 1`. -/
def freeze : DcNull := { st with null := { st.null with frozen := true } }

/-- `null_floor = floor`. -/
def setFloor (floor : Level) : DcNull := { st with null := { st.null with floor := floor } }

/-- The label `disarm`. -/
def disarm : DcNull := { st with pStage := .off, null := { st.null with armed := false } }

/-- `qec_set_dc`. -/
def qecSetDc (codes : Codes) (outcome : Outcome) : DcNull × Bool :=
  let (radio, ok) := st.radio.setDc codes outcome
  ({ st with radio := radio, lastApplyEpoch := radio.applyEpoch }, ok)

/-- `QEC_PROBE`, away from the end of the range. -/
def probeOffset (code : Int) : Int := if code + 16 ≤ 126 then 16 else -16

/-- `qec_dc_probe_enter`. -/
def qecDcProbeEnter (enable : Bool) (w : Window) (outcome : Outcome) : DcNull × Bool :=
  if !enable || st.null.frozen then (st, false)
  else
    let entry := { st with pE := st.trim, pM0 := w.level, pMi := w.mi, pMq := w.mq }
    let s1 := probeOffset st.trim.i
    let codes : Codes := ⟨st.trim.i + s1, st.trim.q⟩
    let (set, ok) := entry.qecSetDc codes outcome
    if ok then
      ({ set with
          trim := codes
          pS1 := s1
          pStage := .probeI
          pSolves := 0
          asked := [st.radio.codes]
          windows := 0 }, true)
    else (set.freeze, false)

/-- Stage 2: the column of lane I is measured, and lane Q is probed. -/
def qecDcProbeQ (w : Window) (outcome : Outcome) : DcNull :=
  let measured := { st with
    ji := ((w.mi - st.pMi).tdiv st.pS1, (w.mq - st.pMq).tdiv st.pS1)
    pMi := w.mi
    pMq := w.mq }
  let s2 := probeOffset st.trim.q
  let codes : Codes := ⟨st.trim.i, st.trim.q + s2⟩
  let (set, ok) := measured.qecSetDc codes outcome
  if ok then { set with trim := codes, pS2 := s2, pStage := .probeQ }
  else set.freeze.disarm

/-- Stage 3: the column of lane Q is measured. -/
def identifyQ (w : Window) : DcNull :=
  { st with
    jq := ((w.mi - st.pMi).tdiv st.pS2, (w.mq - st.pMq).tdiv st.pS2)
    pStage := .solve }

/-- `x` and `y`; none where no axis reaches anything. -/
def newton (w : Window) : Option (Int × Int) :=
  let a := st.ji.1
  let c := st.ji.2
  let b := st.jq.1
  let d := st.jq.2
  let det := a * d - b * c
  if |det| < 4 then
    let ni2 := a * a + c * c
    let nq2 := b * b + d * d
    if ni2 ≥ nq2 ∧ ni2 ≥ 4 then some ((-(w.mi * a + w.mq * c)).tdiv ni2, 0)
    else if nq2 ≥ 4 then some (0, (-(w.mi * b + w.mq * d)).tdiv nq2)
    else none
  else some ((-w.mi * d + w.mq * b).tdiv det, (-w.mq * a + w.mi * c).tdiv det)

/-- `trim + (int)x`, clamped. -/
def stepCode (code x : Int) : Int :=
  let n := (code + x.bmod 4294967296).bmod 4294967296
  if n > 126 then 126 else if n < -126 then -126 else n

/-- `ni` and `nq`. The all-zero pair would not be written. -/
def stepped (x y : Int) : Codes :=
  let ni := stepCode st.trim.i x
  let nq := stepCode st.trim.q y
  if ni = 0 ∧ nq = 0 then ⟨1, nq⟩ else ⟨ni, nq⟩

/-- The codes of a solve; none where it gives up. -/
def solveCodes (w : Window) : Option Codes :=
  if st.pSolves ≥ 3 then none
  else
    match st.newton w with
    | none => none
    | some (x, y) => if st.stepped x y = st.trim then none else some (st.stepped x y)

/-- The probe gives up with codes worse than those it found, or without a solve. -/
def Restores (w : Window) : Prop :=
  (w.level.val > st.pM0.val ∨ st.pSolves = 0) ∧ st.trim ≠ st.pE

instance (w : Window) : Decidable (st.Restores w) := inferInstanceAs (Decidable (_ ∧ _))

/-- `ri` and `rq`. -/
def restored : Codes := if st.pE = .zero then ⟨1, 0⟩ else st.pE

/-- The label `giveup`. -/
def giveUp (w : Window) (outcome : Outcome) : DcNull :=
  if st.Restores w then
    let (set, ok) := st.qecSetDc st.restored outcome
    if ok then (({ set with trim := st.restored } : DcNull).setFloor st.pM0).disarm
    else (set.freeze.setFloor w.level).disarm
  else (st.setFloor w.level).disarm

/-- The rest of `qec_dc_probe_step`, with the response identified. -/
def solveStep (w : Window) (dead : BitVec 32) (outcome : Outcome) : DcNull :=
  if w.level.val < dead.toInt then (st.setFloor w.level).disarm
  else
    match st.solveCodes w with
    | none => st.giveUp w outcome
    | some codes =>
        let (set, ok) := { st with asked := codes :: st.asked }.qecSetDc codes outcome
        if ok then { set with trim := codes, pSolves := st.pSolves + 1 }
        else set.freeze.disarm

/-- The means are inside the deadband. -/
def Clean (w : Window) (dead : BitVec 32) : Prop :=
  w.mi < dead.toInt ∧ w.mi > -dead.toInt ∧ w.mq < dead.toInt ∧ w.mq > -dead.toInt

instance (w : Window) (dead : BitVec 32) : Decidable (Clean w dead) :=
  inferInstanceAs (Decidable (_ ∧ _))

/-- One more window of the probe. -/
def countWindow : DcNull := { st with windows := st.windows + 1 }

/-- `qec_dc_null_step`; `found` is what `qec_find_target` finds. -/
def qecDcNullStep (params : NullParams) (w : Window) (found : Bool) (outcome : Outcome) :
    DcNull :=
  match st.pStage with
  | .probeI => st.countWindow.qecDcProbeQ w outcome
  | .probeQ => (st.countWindow.identifyQ w).solveStep w params.dcDeadband outcome
  | .solve => st.countWindow.solveStep w params.dcDeadband outcome
  | .off =>
      let ended : DcNull → DcNull := fun st =>
        { st with null := { st.null with armed := false, floor := w.level } }
      if Clean w params.dcDeadband then ended st
      else if !found then st
      else
        let (set, entered) := st.qecDcProbeEnter params.dc2x2Enable w outcome
        if entered then set else ended set

/-- The two epochs of `qec_poll`: the accumulator is dropped, and the probe with it. -/
def noteEpochs : DcNull :=
  let gained :=
    if st.radio.gainEpoch ≠ st.lastGainEpoch then
      { st with
        lastGainEpoch := st.radio.gainEpoch
        pStage := .off
        null := { st.null with floor := ⟨0, level_zero⟩ } }
    else st
  if st.radio.applyEpoch ≠ st.lastApplyEpoch then
    { gained with
      lastApplyEpoch := st.radio.applyEpoch
      pStage := .off
      null := { gained.null with armed := true, floor := ⟨0, level_zero⟩ } }
  else gained

/-- The null owns the accumulator. -/
def Owns (dcNullEnable : Bool) : Prop :=
  dcNullEnable = true ∧ st.null.armed = true ∧ st.null.frozen = false

instance (dcNullEnable : Bool) : Decidable (st.Owns dcNullEnable) :=
  inferInstanceAs (Decidable (_ ∧ _))

/-! ## Runs -/

/-- What happens to the machine. `qec_poll` looks at the epochs first; a window of the null and a
solve are what it may end with, and a `qec_enable` of zero is a run without the three. -/
inductive Event where
  /-- A client applies its list. -/
  | apply (codes : ClientCodes) (tuned : Bool)
  /-- The channel is applied as it is, by a gain step or otherwise. -/
  | reapply (gainStep tuned : Bool)
  | epochs
  | window (params : NullParams) (w : Window) (found : Bool) (outcome : Outcome)
  | solve (params : SolveParams) (mi mq : Int)

/-- One event. -/
def next : Event → Option DcNull
  | .apply codes tuned =>
      some { st with
        radio := ({ st.radio with wire := codes.val } : Radio).apply tuned
        asked := codes.val :: st.asked }
  | .reapply gainStep tuned =>
      let stepped := if gainStep ∧ tuned then st.radio.gainEpoch + 1 else st.radio.gainEpoch
      some { st with radio := { st.radio.apply tuned with gainEpoch := stepped } }
  | .epochs => some st.noteEpochs
  | .window params w found outcome =>
      if st.Owns params.dcNullEnable then some (st.qecDcNullStep params w found outcome) else none
  | .solve params mi mq =>
      if st.Owns params.dcNullEnable then none
      else
        match driftAlarm params st.null mi mq with
        | .ok null => some { st with null := null }
        | .error _ => none

/-- The machine as the module is loaded, beside a channel with these codes. -/
def loaded (wire codes : ClientCodes) (gainEpoch applyEpoch : BitVec 32) : DcNull where
  null := ⟨false, false, ⟨0, level_zero⟩⟩
  trim := .zero
  pStage := .off
  pSolves := 0
  pE := .zero
  pS1 := 0
  pS2 := 0
  pMi := 0
  pMq := 0
  pM0 := ⟨0, level_zero⟩
  ji := (0, 0)
  jq := (0, 0)
  lastGainEpoch := 0#32
  lastApplyEpoch := 0#32
  radio := ⟨wire.val, codes.val, gainEpoch, applyEpoch⟩
  asked := [codes.val, wire.val]
  windows := 0

/-! ## What is asked of a run -/

/-- The codes programmed are codes that somebody asked for. -/
def Sound : Prop := st.radio.codes ∈ st.asked

/-- An idle machine has no probe offset standing, every code is legal, and a probe is over with its
fifth window. -/
structure Restored : Prop where
  idle : st.pStage = .off → st.Sound
  legal : st.radio.wire.Legal ∧ st.radio.codes.Legal
  bounded : st.pStage ≠ .off → st.windows < 5

/-- With the response identified, the window does not end the probe on an offset. -/
def EndsWell (w : Window) (dead : BitVec 32) (outcome : Outcome) : Prop :=
  if w.level.val < dead.toInt then st.Sound
  else
    match st.solveCodes w with
    | some codes => outcome = .applied ∨ st.radio.codes = codes ∨ st.Sound
    | none =>
        if st.Restores w ∧ outcome = .applied then st.restored ∈ st.asked
        else st.Sound

/-- The event does not leave an offset standing. -/
def Harmless : Event → Prop
  | .apply _ _ => True
  | .reapply _ tuned =>
      st.pStage = .off → tuned = true → st.radio.wire ≠ .zero → st.radio.wire ∈ st.asked
  | .epochs =>
      st.radio.gainEpoch ≠ st.lastGainEpoch ∨ st.radio.applyEpoch ≠ st.lastApplyEpoch → st.Sound
  | .window params w _ outcome =>
      match st.pStage with
      | .off => True
      | .probeI => outcome = .applied ∨ st.Sound
      | .probeQ => (st.identifyQ w).EndsWell w params.dcDeadband outcome
      | .solve => st.EndsWell w params.dcDeadband outcome
  | .solve _ _ _ => True

end DcNull

end RfnmDriver.Rx.Qec
