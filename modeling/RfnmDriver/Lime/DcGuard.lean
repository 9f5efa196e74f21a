import Mathlib.Analysis.SpecialFunctions.Pow.Real
import RfnmDriver.Library.StepSystem
import RfnmDriver.Lime.SessionBoundary
import RfnmDriver.Lime.SkipCaches

/-!
# The DC guard of the Lime boards

`lime0_set_rx_gain` lowers the PGA until it cannot amplify the DC that is left over its budget, and
what is left depends on whether a DC correction holds at the LO. The driver asks the LO of the last
correction it wrote, which is one variable for both boards. `TrimLog` keeps the corrections of each
board apart. `dcGuard_greatest` is the search, `pga_right_iff_agrees` says that the guard is right
exactly where the variable and the log agree, and `other_board_trim_counts` where they do not.
-/

namespace RfnmDriver.Lime

open StepSystem

/-! ## Decibels -/

/-- The counts, amplified by a gain in dB, are within the budget. -/
def Within (counts budget : Int) (gainDb : Nat) : Prop :=
  (counts : ℝ) * 10 ^ ((gainDb : ℝ) / 20) ≤ budget

/-- Twentieth powers are whole numbers. -/
theorem within_iff {counts budget : Int} (hcounts : 0 ≤ counts) (hbudget : 0 ≤ budget)
    (gainDb : Nat) : Within counts budget gainDb ↔ counts ^ 20 * 10 ^ gainDb ≤ budget ^ 20 := by
  have hgain : ((10 : ℝ) ^ ((gainDb : ℝ) / 20)) ^ 20 = 10 ^ gainDb := by
    rw [← Real.rpow_natCast, ← Real.rpow_mul (by norm_num), ← Real.rpow_natCast]
    norm_num
  have hleft : (0 : ℝ) ≤ counts * 10 ^ ((gainDb : ℝ) / 20) :=
    mul_nonneg (by exact_mod_cast hcounts) (Real.rpow_nonneg (by norm_num) _)
  have hright : (0 : ℝ) ≤ budget := by exact_mod_cast hbudget
  unfold Within
  rw [← pow_le_pow_iff_left₀ hleft hright (by norm_num : 20 ≠ 0), mul_pow, hgain]
  exact_mod_cast Iff.rfl

/-- Trimmed, the budget holds at every gain of the PGA. -/
theorem within_trimmed {gainDb : Nat} (h : gainDb ≤ 12) : Within 160 1024 gainDb := by
  rw [within_iff (by norm_num) (by norm_num)]
  calc (160 : Int) ^ 20 * 10 ^ gainDb
      ≤ 160 ^ 20 * 10 ^ 12 := by
        gcongr
        norm_num
    _ ≤ 1024 ^ 20 := by norm_num

/-- Untrimmed, it holds up to 3 dB. -/
theorem within_untrimmed (gainDb : Nat) : Within 700 1024 gainDb ↔ gainDb ≤ 3 := by
  rw [within_iff (by norm_num) (by norm_num)]
  constructor
  · intro h
    by_contra hlarge
    have hfour : (10 : Int) ^ 4 ≤ 10 ^ gainDb :=
      pow_le_pow_right₀ (by norm_num) (Nat.lt_of_not_le hlarge)
    have hover : (1024 : Int) ^ 20 < 700 ^ 20 * 10 ^ 4 := by norm_num
    have hmul : (700 : Int) ^ 20 * 10 ^ 4 ≤ 700 ^ 20 * 10 ^ gainDb := by gcongr
    exact absurd (hover.trans_le (hmul.trans h)) (lt_irrefl _)
  · intro h
    calc (700 : Int) ^ 20 * 10 ^ gainDb
        ≤ 700 ^ 20 * 10 ^ 3 := by
          gcongr
          norm_num
      _ ≤ 1024 ^ 20 := by norm_num

/-! ## The search -/

/-- The gain is over the budget in the table of the driver. -/
def Over (params : Params) (resid : Int) (gainDb : Nat) : Prop :=
  params.dcBudgetCounts * 65536 < resid * pgaGainQ16 gainDb

/-- The search ends at the first gain from the top that is not over, or at 0. -/
theorem dcGuard_greatest (params : Params) (resid : Int) (wanted : Nat) :
    dcGuard params resid wanted ≤ wanted ∧
      (∀ gainDb, dcGuard params resid wanted < gainDb → gainDb ≤ wanted →
        Over params resid gainDb) ∧
      (dcGuard params resid wanted ≠ 0 → ¬ Over params resid (dcGuard params resid wanted)) := by
  induction wanted with
  | zero => exact ⟨le_rfl, fun gainDb hpos hle => absurd hpos (Nat.not_lt.mpr hle), absurd rfl⟩
  | succ wanted ih =>
      obtain ⟨hle, hover, hend⟩ := ih
      rw [dcGuard]
      split
      case isTrue htop =>
          refine ⟨hle.trans (Nat.le_succ _), fun gainDb hlt hgain => ?_, hend⟩
          obtain rfl | hbelow := Nat.eq_or_lt_of_le hgain
          · exact htop
          · exact hover gainDb hlt (Nat.le_of_lt_succ hbelow)
      case isFalse htop =>
          exact ⟨le_rfl, fun gainDb hlt hgain => absurd hlt (Nat.not_lt.mpr hgain), fun _ => htop⟩

/-- The budget parameters as the module is loaded. -/
def Params.defaultBudget (params : Params) : Params :=
  { params with
    dcBudgetCounts := Params.standard.dcBudgetCounts
    dcUntrimmedCounts := Params.standard.dcUntrimmedCounts
    dcTrimmedCounts := Params.standard.dcTrimmedCounts
    dcLoWindowMhz := Params.standard.dcLoWindowMhz }

variable {params : Params} {owner : Option TxCh} {ch : RxCh}

theorem pgaWanted_le (owner : Option TxCh) (ch : RxCh) : pgaWanted owner ch ≤ 12 := by
  unfold pgaWanted
  dsimp only
  omega

/-- The table is over the budget for no gain after a trim, and from 4 dB without one. -/
theorem over_trimmed {gainDb : Nat} (h : gainDb ≤ 12) : ¬ Over params.defaultBudget 160 gainDb := by
  have htable : ∀ gainDb < 13, ¬ (1024 : Int) * 65536 < 160 * pgaGainQ16 gainDb := by decide
  exact htable gainDb (Nat.lt_succ_of_le h)

theorem over_untrimmed {gainDb : Nat} (h : gainDb ≤ 12) :
    Over params.defaultBudget 700 gainDb ↔ 3 < gainDb := by
  have htable : ∀ gainDb < 13, (1024 : Int) * 65536 < 700 * pgaGainQ16 gainDb ↔ 3 < gainDb := by
    decide
  exact htable gainDb (Nat.lt_succ_of_le h)

/-- With the default budget the guard lets the redistribution be, or cuts it at 3 dB. -/
theorem pgaDb_default (params : Params) (owner : Option TxCh) (ch : RxCh) (trim : Option Nat) :
    pgaDb params.defaultBudget owner ch trim =
      if dcFresh params.defaultBudget trim ch.freq then pgaWanted owner ch
      else min (pgaWanted owner ch) 3 := by
  have hwanted := pgaWanted_le owner ch
  unfold pgaDb
  split
  case isTrue hfresh =>
      obtain ⟨hle, hover, -⟩ := dcGuard_greatest params.defaultBudget 160 (pgaWanted owner ch)
      refine Nat.le_antisymm hle (Nat.le_of_not_lt fun hlt => ?_)
      exact over_trimmed hwanted (hover _ hlt le_rfl)
  case isFalse hstale =>
      obtain ⟨hle, hover, hend⟩ := dcGuard_greatest params.defaultBudget 700 (pgaWanted owner ch)
      show dcGuard params.defaultBudget 700 (pgaWanted owner ch) = _
      refine Nat.le_antisymm (Nat.le_min.mpr ⟨hle, ?_⟩) (Nat.le_of_not_lt fun hlt => ?_)
      · by_contra hlarge
        have hpos : dcGuard params.defaultBudget 700 (pgaWanted owner ch) ≠ 0 := by omega
        exact hend hpos ((over_untrimmed (hle.trans hwanted)).mpr (by omega))
      · have hcut := hover _ hlt (Nat.min_le_left ..)
        rw [over_untrimmed (by omega)] at hcut
        omega

/-! ## The corrections of each board -/

/-- The driver, and for each board where its LO was at every nonzero DC correction written to it. -/
structure TrimLog where
  driver : Driver
  trims : Slot → List (Option Nat)

/-- The two LOs are known and within the window. -/
def near (window : Int) (trim lo : Option Nat) : Bool :=
  trim.any fun hz => lo.any fun now => ((now : Int) - hz).natAbs ≤ window * 1000000

namespace TrimLog

variable (params : Params) (log : TrimLog) (slot : Slot)

/-- Where the LO of the board is. -/
def lo : Option Nat := (log.driver.board slot).chip.sxr

/-- A correction was written to the board near where its LO is now. -/
def trimmed : Bool := (log.trims slot).any fun trim => near params.dcLoWindowMhz trim (log.lo slot)

/-- An RX apply, which writes a nonzero correction down where its LO is then. -/
def rxSet (ch : RxCh) (tune : Tune) : TrimLog :=
  let driver := (log.driver.rxSet params slot ch tune).1
  { driver := driver
    trims :=
      if log.driver.rxAccepts ch tune ∧ (ch.rficDcQ ≠ 0 ∨ ch.rficDcI ≠ 0) then
        Function.update log.trims slot ((driver.board slot).chip.sxr :: log.trims slot)
      else log.trims }

/-- The RX apply that an event makes, and the log it finds. -/
def rxApply : Event → Option (TrimLog × RxApply)
  | .rxSet slot ch tune => some (log, ⟨slot, ch, tune⟩)
  | .lpfCal bwMhz left succeeds tune =>
      if Driver.calRuns bwMhz && succeeds then
        some ({ log with driver := log.driver.calibrated bwMhz left },
          ⟨.primary, (log.driver.board .primary).rxCh, tune⟩)
      else none
  | _ => none

/-- One event. -/
def step (event : Event) : TrimLog :=
  match log.rxApply event with
  | some (found, apply) => found.rxSet params apply.slot apply.ch apply.tune
  | none => { log with driver := log.driver.step params event }

def next (event : Event) : Option TrimLog := some (log.step params event)

/-- The log keeps the driver as it runs without it. -/
theorem step_driver (event : Event) :
    (log.step params event).driver = log.driver.step params event := by
  cases event with
  | lpfCal bwMhz left succeeds tune =>
      cases hruns : Driver.calRuns bwMhz && succeeds with
      | true =>
          have happly : log.rxApply (.lpfCal bwMhz left succeeds tune) = some _ := if_pos hruns
          rw [step, happly]
          exact (if_pos hruns).symm
      | false =>
          have happly : log.rxApply (.lpfCal bwMhz left succeeds tune) = none :=
            if_neg (hruns ▸ Bool.false_ne_true)
          rw [step, happly]
  | txSet | rxSet | rxWant | reset => rfl

/-- With both boards bound. -/
def probed : TrimLog := ⟨.probed, fun _ => []⟩

/-- What a PGA gain may be: a correction holds on the board and the budget does after one, or the
budget holds without one. -/
def Allowed (gainDb : Nat) : Prop :=
  log.trimmed params slot = true ∧ Within params.dcTrimmedCounts params.dcBudgetCounts gainDb ∨
    Within params.dcUntrimmedCounts params.dcBudgetCounts gainDb

/-- An RX apply that succeeds programs the PGA to the largest gain allowed up to what the
redistribution asks for. -/
def PgaRight (event : Event) : Prop :=
  ∀ found apply, log.rxApply event = some (found, apply) →
    found.driver.rxAccepts apply.ch apply.tune = true →
      ∃ gainDb : Nat, (log.step params event).driver.cache.rxLastPgaDb = some (gainDb : Int) ∧
        IsGreatest
          {gainDb | gainDb ≤ pgaWanted (found.driver.board apply.slot).txS apply.ch ∧
            (log.step params event).Allowed params apply.slot gainDb} gainDb

/-- The redistribution asks for no more than 3 dB, or the last correction written to either board is
near the request exactly if one written to this board is near where its LO is. -/
def Agrees (event : Event) : Prop :=
  ∀ found apply, log.rxApply event = some (found, apply) →
    found.driver.rxAccepts apply.ch apply.tune = true →
      pgaWanted (found.driver.board apply.slot).txS apply.ch ≤ 3 ∨
        dcFresh params (dcTrim apply.ch found.driver.cache.rxDcTrimHz) apply.ch.freq =
          (log.step params event).trimmed params apply.slot

variable {params log slot}

/-- After an apply that succeeds the PGA is at the gain of the guard. -/
theorem rxSet_pga {ch : RxCh} {tune : Tune} (h : log.driver.rxAccepts ch tune = true) :
    (log.rxSet params slot ch tune).driver.cache.rxLastPgaDb =
      some (pgaDb params (log.driver.board slot).txS ch
        (dcTrim ch log.driver.cache.rxDcTrimHz) : Int) := by
  have htrim : (log.driver.rxTuned slot ch tune).cache.rxDcTrimHz =
      log.driver.cache.rxDcTrimHz := by simp [Driver.rxTuned]
  show (log.driver.rxSet params slot ch tune).1.cache.rxLastPgaDb = _
  rw [Driver.rxSet_eq, if_pos h, Driver.put_cache, Driver.rxStages_eq, htrim]

/-- With the default budget, the largest gain allowed is that of the redistribution where a
correction holds, and is cut at 3 dB where none does. -/
theorem greatest_allowed (params : Params) (log : TrimLog) (slot : Slot) {wanted : Nat}
    (h : wanted ≤ 12) :
    IsGreatest {gainDb | gainDb ≤ wanted ∧ log.Allowed params.defaultBudget slot gainDb}
      (if log.trimmed params.defaultBudget slot then wanted else min wanted 3) := by
  have hallowed : ∀ gainDb ≤ wanted, log.Allowed params.defaultBudget slot gainDb ↔
      log.trimmed params.defaultBudget slot = true ∨ gainDb ≤ 3 := fun gainDb hle => by
    have hbudget : params.defaultBudget.dcBudgetCounts = 1024 := rfl
    have htrimmed : params.defaultBudget.dcTrimmedCounts = 160 := rfl
    have huntrimmed : params.defaultBudget.dcUntrimmedCounts = 700 := rfl
    unfold Allowed
    rw [hbudget, htrimmed, huntrimmed, within_untrimmed,
      and_iff_left (within_trimmed (hle.trans h))]
  cases htrimmed : log.trimmed params.defaultBudget slot with
  | true =>
      rw [if_pos rfl]
      exact ⟨⟨le_rfl, (hallowed wanted le_rfl).mpr (.inl htrimmed)⟩, fun gainDb hgain => hgain.1⟩
  | false =>
      rw [if_neg Bool.false_ne_true]
      have hcut := Nat.min_le_left wanted 3
      refine ⟨⟨hcut, (hallowed _ hcut).mpr (.inr (Nat.min_le_right ..))⟩, fun gainDb hgain => ?_⟩
      have hthree := ((hallowed gainDb hgain.1).mp hgain.2).resolve_left (by simp [htrimmed])
      exact Nat.le_min.mpr ⟨hgain.1, hthree⟩

/-- One event: the guard is right exactly if the variable and the log agree. -/
theorem pgaRight_iff (params : Params) (log : TrimLog) (event : Event) :
    log.PgaRight params.defaultBudget event ↔ log.Agrees params.defaultBudget event := by
  refine forall₄_congr fun found apply happly haccepts => ?_
  have hstep : log.step params.defaultBudget event =
      found.rxSet params.defaultBudget apply.slot apply.ch apply.tune := by
    rw [step, happly]
  have hwanted := pgaWanted_le (found.driver.board apply.slot).txS apply.ch
  have hgreatest := greatest_allowed params
    (found.rxSet params.defaultBudget apply.slot apply.ch apply.tune) apply.slot hwanted
  rw [hstep, rxSet_pga haccepts, pgaDb_default]
  -- the guard cuts by what the variable says, and should by what the log says
  have hsame : ∀ fresh own : Bool, ∀ wanted,
      (if fresh then wanted else min wanted 3) = (if own then wanted else min wanted 3) ↔
        wanted ≤ 3 ∨ fresh = own := by
    intro fresh own wanted
    cases fresh <;> cases own <;> simp
  rw [← hsame]
  constructor
  · rintro ⟨gainDb, hpga, hright⟩
    have hvalue := Int.ofNat.inj (Option.some.inj hpga)
    rw [hvalue]
    exact hright.unique hgreatest
  · intro hcuts
    refine ⟨_, rfl, ?_⟩
    rw [hcuts]
    exact hgreatest

/-- In every run from the probe, the guard is right at every RX apply that succeeds exactly if the
variable and the log agree at each of them. -/
theorem pga_right_iff_agrees (params : Params) (events : List Event) :
    EveryStep (next params.defaultBudget)
        (fun log event _ => log.PgaRight params.defaultBudget event) probed events ↔
      Guarded (next params.defaultBudget) (Agrees params.defaultBudget) probed events :=
  ⟨fun h => h.mono fun log event _ hright => (pgaRight_iff params log event).mp hright,
    fun h => h.mono fun log event _ hagrees => (pgaRight_iff params log event).mpr hagrees⟩

/-- A request at the frequency and in-phase correction. -/
def request (freq : Nat) (dcI : Int) : RxCh :=
  { RxCh.zeroed with freq := freq, rficDcI := dcI, path := .smaA, enable := .rfOn }

/-- In a run whose next event is an RX apply that succeeds, the variable and the log agree there. -/
theorem agrees_of_right {log : TrimLog} {ch : RxCh} {tune : Tune} {rest : List Event}
    (h : EveryStep (next params.defaultBudget)
      (fun log event _ => log.PgaRight params.defaultBudget event) log (.rxSet slot ch tune :: rest))
    (haccepts : log.driver.rxAccepts ch tune = true) :
    pgaWanted (log.driver.board slot).txS ch ≤ 3 ∨
      dcFresh params.defaultBudget (dcTrim ch log.driver.cache.rxDcTrimHz) ch.freq =
        (log.rxSet params.defaultBudget slot ch tune).trimmed params.defaultBudget slot :=
  (pgaRight_iff params log _).mp (h _ rfl).1 log ⟨slot, ch, tune⟩ rfl haccepts

/-- A correction on one board lets the other, which has none, amplify its DC by 12 dB; and a second
correction takes the freshness of the first away. -/
theorem other_board_trim_counts :
    (¬ EveryStep (next Params.standard.defaultBudget)
      (fun log event _ => log.PgaRight Params.standard.defaultBudget event) probed
      [.rxSet 0 (request 2400000000 5) .locked, .rxSet 1 (request 2500000000 0) .locked]) ∧
    ¬ EveryStep (next Params.standard.defaultBudget)
      (fun log event _ => log.PgaRight Params.standard.defaultBudget event) probed
      [.rxSet 0 (request 1000000000 5) .locked, .rxSet 0 (request 2000000000 5) .locked,
        .rxSet 0 (request 1000000000 0) .locked] := by
  refine ⟨fun h => ?_, fun h => ?_⟩
  · have hagrees := agrees_of_right (h _ rfl).2 (by decide)
    revert hagrees
    decide
  · have hagrees := agrees_of_right ((h _ rfl).2 _ rfl).2 (by decide)
    revert hagrees
    decide

end TrimLog

end RfnmDriver.Lime
