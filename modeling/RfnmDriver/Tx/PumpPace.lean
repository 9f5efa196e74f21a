import RfnmDriver.Library.StepSystem
import RfnmDriver.Library.Streak
import RfnmDriver.Tx.Placement

/-!
# The verdicts of the TX feed

Before `rfnm_handler_out` consumes a packet it looks at the status block: a block that stays stale
for a second ends the session, and on a fresh one `rfnm_tx_pace_check` measures, once in a stream
episode, whether the pump takes slots at its rate. It measures in windows of two milliseconds, of
which most decide nothing. `judged_by_windows` says which stretch and which windows end a session.
-/

namespace RfnmDriver.Tx.PumpPace

open StepSystem Streak

/-- What a pass finds: the jiffies, the phytimer, the slots the pump has taken, and the rest of the
status block. -/
structure Reading where
  time : Nat
  tick : Nat
  pump : Nat
  /-- `age`, the heartbeat. -/
  age : BitVec 32
  /-- `tx_epoch`. -/
  epoch : BitVec 32
  /-- `tx_r_shift`, with the bound it has. -/
  grid : TxGrid
  /-- `tx_state & 0x1`, and `rfnm_ptmr_now_cb` is there. -/
  running : Bool
  deriving DecidableEq

/-- A window that has been measured. -/
structure Window where
  first : Reading
  second : Reading
  deriving DecidableEq

/-- The kernel's clock: `HZ`, and a hundred milliseconds in jiffies. -/
structure Clock where
  hz : Nat
  freshFor : Nat
  hz_lt : hz < 2 ^ 62
  freshFor_lt : freshFor < 2 ^ 62

/-- The words of the two checks, and what has led to them. -/
structure Gate where
  /-- `rfnm_tx_status_age_last`. -/
  ageLast : BitVec 32
  /-- `rfnm_tx_status_age_jiffies`. -/
  ageJiffies : BitVec 64
  /-- `rfnm_tx_stale_since`. -/
  staleSince : BitVec 64
  /-- `rfnm_tx_pace_ok`. -/
  paceOk : Bool
  /-- The reading of `rfnm_tx_pace_n1` and its neighbours, if `rfnm_tx_pace_armed`. -/
  armed : Option Reading
  /-- `rfnm_tx_pace_zero_streak`. -/
  zeroStreak : Nat
  /-- `rfnm_session_dead`. -/
  sessionDead : Bool
  now : Nat
  tick : Nat
  pump : Nat
  /-- When a pass found the heartbeat changed. -/
  beat : Nat
  /-- The windows measured in this episode, the newest first. -/
  windows : List Window
  /-- The times of the stale passes since the last fresh one, the newest first. -/
  stale : List Nat

/-- What happens to the feed. -/
inductive Event
  /-- A pass with a packet to consume. -/
  | pass (reading : Reading)
  /-- `rfnm_tx_flush_staging`. -/
  | flush
  /-- `rfnm_restart_sm` lets the session live again. -/
  | reopen

/-! ## The code -/

namespace Gate

variable (clock : Clock) (dac : DacRing) (gate : Gate)

/-- `rfnm_tx_status_fresh`. -/
def statusFresh (reading : Reading) : Gate × Bool :=
  let jiffies := BitVec.ofNat 64 reading.time
  if reading.age ≠ gate.ageLast then
    ({ gate with ageLast := reading.age, ageJiffies := jiffies, beat := reading.time }, true)
  else
    (gate, WrapClock.later (gate.ageJiffies + BitVec.ofNat 64 clock.freshFor) jiffies)

/-- The pass on a stale block. -/
def stalePass (reading : Reading) : Gate :=
  let jiffies := BitVec.ofNat 64 reading.time
  let marked := { gate with stale := reading.time :: gate.stale }
  if gate.staleSince = 0#64 then { marked with staleSince := jiffies }
  else if WrapClock.later jiffies (gate.staleSince + BitVec.ofNat 64 clock.hz) then
    { marked with sessionDead := true }
  else marked

/-- `rfnm_tx_pace_check`. -/
def paceCheck (reading : Reading) : Gate :=
  match gate.armed with
  | none => { gate with armed := some reading }
  | some first =>
      let span := BitVec.ofNat 32 reading.tick - BitVec.ofNat 32 first.tick
      if span < 122880#32 then gate
      else
        let slots := (BitVec.ofNat 32 (reading.pump % dac.bufcnt) -
          BitVec.ofNat 32 (first.pump % dac.bufcnt)) % BitVec.ofNat 32 dac.bufcnt
        let expSlots := span / BitVec.ofNat 32 reading.grid.tps
        let measured := { gate with
          armed := none
          windows := ⟨first, reading⟩ :: gate.windows }
        if 491520#32 < span then measured
        else if first.epoch ≠ reading.epoch then measured
        else if first.age = reading.age then measured
        else if expSlots - expSlots / 4#32 ≤ slots ∧ slots ≤ expSlots + expSlots / 4#32 then
          { measured with paceOk := true }
        else if 0#32 < slots ∧ slots < expSlots then { measured with zeroStreak := 0 }
        else if slots = 0#32 ∧ gate.zeroStreak + 1 < 48 then
          { measured with zeroStreak := gate.zeroStreak + 1 }
        else
          { measured with
            zeroStreak := if slots = 0#32 then gate.zeroStreak + 1 else gate.zeroStreak
            sessionDead := true
            paceOk := true }

/-- The pass on a fresh block. -/
def freshPass (reading : Reading) : Gate :=
  let cleared := { gate with staleSince := 0#64, stale := [] }
  if gate.paceOk = false ∧ reading.running = true then cleared.paceCheck dac reading else cleared

/-- The two checks of `rfnm_handler_out`. -/
def pass (reading : Reading) : Gate :=
  let looked := gate.statusFresh clock reading
  let seen := { looked.1 with now := reading.time, tick := reading.tick, pump := reading.pump }
  if looked.2 then seen.freshPass dac reading else seen.stalePass clock reading

/-- What `rfnm_tx_flush_staging` does to the words. -/
def flush : Gate :=
  { gate with
    paceOk := false
    armed := none
    zeroStreak := 0
    staleSince := 0#64
    windows := []
    stale := [] }

/-- One event. The jiffies start above zero and do not come to half their range, and nothing that is
read runs back. -/
def next : Event → Option Gate
  | .pass reading =>
      if gate.now ≤ reading.time ∧ 0 < reading.time ∧ reading.time < 2 ^ 62 ∧
          gate.tick ≤ reading.tick ∧ gate.pump ≤ reading.pump then some (gate.pass clock dac reading)
      else none
  | .flush => some gate.flush
  | .reopen => some { gate with sessionDead := false }

/-- The module's zeroed memory. -/
def loaded : Gate :=
  ⟨0#32, 0#64, 0#64, false, none, 0, false, 0, 0, 0, 0, [], []⟩

end Gate

/-! ## What is asked of it -/

/-- What a window says. -/
inductive Pace
  | void
  | fits
  | ramp
  | zero
  | fast
  deriving DecidableEq, Repr

namespace Window

variable (dac : DacRing) (window : Window)

/-- The ticks it has lasted, up to a wrap of the phytimer. -/
def ticks : Nat := (window.second.tick - window.first.tick) % 2 ^ 32

/-- The slots the pump took in it, up to a lap of the ring. -/
def slots : Nat := (window.second.pump - window.first.pump) % dac.bufcnt

/-- The slots it should have taken. -/
def expected : Nat := window.ticks / window.second.grid.tps

/-- A window of more than eight milliseconds, one across an epoch and one without a heartbeat say
nothing; otherwise it says how many slots the pump took of those it should have taken. -/
def pace : Pace :=
  if 491520 < window.ticks ∨ window.first.epoch ≠ window.second.epoch ∨
      window.first.age = window.second.age then .void
  else if window.expected - window.expected / 4 ≤ window.slots dac ∧
      window.slots dac ≤ window.expected + window.expected / 4 then .fits
  else if window.slots dac = 0 then .zero
  else if window.slots dac < window.expected then .ramp
  else .fast

end Window

/-- How many of the newest windows that say something have found the pump at rest. -/
def zeros (dac : DacRing) (windows : List Window) : Nat :=
  streak (fun window => decide (window.pace dac = .zero))
    (windows.filter fun window => decide (window.pace dac ≠ .void))

/-- The newest window convicts the pump: it was too fast, or at rest for the forty-eighth time. -/
def Convicted (dac : DacRing) (windows : List Window) : Prop :=
  ∃ newest, windows.head? = some newest ∧
    (newest.pace dac = .fast ∨ newest.pace dac = .zero ∧ 48 ≤ zeros dac windows)

/-- The newest window acquits it. -/
def Acquitted (dac : DacRing) (windows : List Window) : Prop :=
  ∃ newest, windows.head? = some newest ∧ newest.pace dac = .fits

/-- The stale passes have gone on for more than a second. -/
def Stranded (clock : Clock) (stale : List Nat) : Prop :=
  ∃ latest first, stale.head? = some latest ∧ stale.getLast? = some first ∧
    first + clock.hz < latest

/-- The block is stale: the heartbeat has been the same for a hundred milliseconds. -/
def Stale (clock : Clock) (gate : Gate) (reading : Reading) : Prop :=
  reading.age = gate.ageLast ∧ gate.beat + clock.freshFor ≤ reading.time

instance (clock : Clock) (gate : Gate) (reading : Reading) : Decidable (Stale clock gate reading) :=
  inferInstanceAs (Decidable (_ ∧ _))

/-- A pass ends the session for a stretch of stale passes of more than a second, or by the window
that convicts the pump, and for nothing else; and it is the windows that decide the episode. -/
def Judged (clock : Clock) (dac : DacRing) (gate : Gate) (event : Event) (following : Gate) :
    Prop :=
  match event with
  | .pass reading =>
      (following.stale = if Stale clock gate reading then reading.time :: gate.stale else []) ∧
      (following.sessionDead = true ↔ gate.sessionDead = true ∨ Stranded clock following.stale ∨
        following.windows ≠ gate.windows ∧ Convicted dac following.windows) ∧
      (following.paceOk = true ↔ gate.paceOk = true ∨ following.windows ≠ gate.windows ∧
        (Acquitted dac following.windows ∨ Convicted dac following.windows)) ∧
      ∀ window ∈ following.windows, 122880 ≤ window.ticks
  | _ => True

/-! ## The words and what they mean -/

theorem later_ofNat {first second : Nat} (hfirst : first < 2 ^ 63) (hsecond : second < 2 ^ 63) :
    WrapClock.later (BitVec.ofNat 64 first) (BitVec.ofNat 64 second) = decide (second < first) := by
  have hdifference : (BitVec.ofNat 64 second - BitVec.ofNat 64 first).toInt =
      (second : ℤ) - first := by
    rw [BitVec.toInt_sub, BitVec.toInt_ofNat', BitVec.toInt_ofNat']
    simp only [Int.bmod_def]
    omega
  rw [WrapClock.later, Bool.eq_iff_iff, BitVec.slt_iff_toInt_lt, decide_eq_true_eq, hdifference,
    show (0 : BitVec 64).toInt = 0 from rfl]
  omega

/-- The registers give the ticks. -/
theorem ticks_eq (window : Window) (hle : window.first.tick ≤ window.second.tick) :
    (BitVec.ofNat 32 window.second.tick - BitVec.ofNat 32 window.first.tick).toNat =
      window.ticks := by
  rw [BitVec.toNat_sub, BitVec.toNat_ofNat, BitVec.toNat_ofNat, Window.ticks]
  omega

/-- The slot numbers give the slots taken, as the laps divide a register. -/
theorem slots_eq (dac : DacRing) (window : Window) (hle : window.first.pump ≤ window.second.pump) :
    ((BitVec.ofNat 32 (window.second.pump % dac.bufcnt) -
      BitVec.ofNat 32 (window.first.pump % dac.bufcnt)) % BitVec.ofNat 32 dac.bufcnt).toNat =
      window.slots dac := by
  have hpos : 0 < dac.bufcnt := Nat.two_pow_pos _
  have hsmall : dac.bufcnt < 2 ^ 32 :=
    Nat.pow_lt_pow_right (by decide) (lt_of_le_of_lt dac.bufcntLog_le (by decide))
  have hdivides : dac.bufcnt ∣ 2 ^ 32 :=
    pow_dvd_pow 2 (Nat.le_trans dac.bufcntLog_le (by decide))
  have hfirst := Nat.mod_lt window.first.pump hpos
  have hsecond := Nat.mod_lt window.second.pump hpos
  rw [BitVec.toNat_umod, BitVec.toNat_sub, BitVec.toNat_ofNat, BitVec.toNat_ofNat,
    BitVec.toNat_ofNat, Nat.mod_eq_of_lt hsmall, Nat.mod_mod_of_dvd _ hdivides,
    Nat.mod_eq_of_lt (a := window.first.pump % dac.bufcnt) (by omega), Window.slots,
    Nat.mod_eq_of_lt (a := window.second.pump % dac.bufcnt) (by omega)]
  -- adding the first number back gives the second one, up to laps
  have hsum : (2 ^ 32 - window.first.pump % dac.bufcnt + window.second.pump % dac.bufcnt) +
      window.first.pump ≡ (window.second.pump - window.first.pump) + window.first.pump
      [MOD dac.bufcnt] := by
    rw [Nat.sub_add_cancel hle]
    have hwhole : 2 ^ 32 ≡ 0 [MOD dac.bufcnt] := (Nat.modEq_zero_iff_dvd).mpr hdivides
    have hleft : (2 ^ 32 - window.first.pump % dac.bufcnt + window.second.pump % dac.bufcnt) +
        window.first.pump % dac.bufcnt = 2 ^ 32 + window.second.pump % dac.bufcnt := by
      omega
    calc (2 ^ 32 - window.first.pump % dac.bufcnt + window.second.pump % dac.bufcnt) +
          window.first.pump
        ≡ (2 ^ 32 - window.first.pump % dac.bufcnt + window.second.pump % dac.bufcnt) +
          window.first.pump % dac.bufcnt [MOD dac.bufcnt] :=
        (Nat.ModEq.refl _).add (Nat.mod_modEq _ _).symm
      _ = 2 ^ 32 + window.second.pump % dac.bufcnt := hleft
      _ ≡ 0 + window.second.pump [MOD dac.bufcnt] := hwhole.add (Nat.mod_modEq _ _)
      _ = window.second.pump := Nat.zero_add _
  exact Nat.ModEq.add_right_cancel' _ hsum

/-- What the check makes of a window is what the window says. -/
theorem paceCheck_spec {dac : DacRing} {gate : Gate} {reading first : Reading}
    (harmed : gate.armed = some first) (htick : first.tick ≤ reading.tick)
    (hpump : first.pump ≤ reading.pump) :
    gate.paceCheck dac reading =
      if (Window.mk first reading).ticks < 122880 then gate
      else
        let measured := { gate with
          armed := none
          windows := ⟨first, reading⟩ :: gate.windows }
        match (Window.mk first reading).pace dac with
        | .void => measured
        | .fits => { measured with paceOk := true }
        | .ramp => { measured with zeroStreak := 0 }
        | .zero =>
            if gate.zeroStreak + 1 < 48 then
              { measured with zeroStreak := gate.zeroStreak + 1 }
            else
              { measured with
                zeroStreak := gate.zeroStreak + 1
                sessionDead := true
                paceOk := true }
        | .fast => { measured with sessionDead := true, paceOk := true } := by
  have hspan := ticks_eq ⟨first, reading⟩ htick
  have hslots := slots_eq dac ⟨first, reading⟩ hpump
  have htps : reading.grid.tps < 2 ^ 32 := by
    have hshift := Nat.pow_le_pow_right (show 0 < 2 by decide) reading.grid.rShift_le
    rw [TxGrid.tps, Nat.shiftLeft_eq]
    omega
  have hexpected : ((BitVec.ofNat 32 reading.tick - BitVec.ofNat 32 first.tick) /
      BitVec.ofNat 32 reading.grid.tps).toNat = (Window.mk first reading).expected := by
    rw [BitVec.toNat_udiv, hspan, BitVec.toNat_ofNat, Nat.mod_eq_of_lt htps]
    rfl
  have htps' : 128 ≤ reading.grid.tps := by
    rw [TxGrid.tps, Nat.shiftLeft_eq]
    exact Nat.le_mul_of_pos_right 128 (Nat.two_pow_pos _)
  unfold Gate.paceCheck
  rw [harmed]
  dsimp only
  generalize (BitVec.ofNat 32 reading.tick - BitVec.ofNat 32 first.tick) /
    BitVec.ofNat 32 reading.grid.tps = expSlots at hexpected ⊢
  generalize BitVec.ofNat 32 reading.tick - BitVec.ofNat 32 first.tick = span at hspan ⊢
  generalize (BitVec.ofNat 32 (reading.pump % dac.bufcnt) -
    BitVec.ofNat 32 (first.pump % dac.bufcnt)) % BitVec.ofNat 32 dac.bufcnt = slots at hslots ⊢
  have hopen : span < 122880#32 ↔ (Window.mk first reading).ticks < 122880 := by
    rw [BitVec.lt_def, hspan]
    rfl
  have hlong : 491520#32 < span ↔ 491520 < (Window.mk first reading).ticks := by
    rw [BitVec.lt_def, hspan]
    rfl
  have hzero : slots = 0#32 ↔ (Window.mk first reading).slots dac = 0 := by
    rw [← BitVec.toNat_inj, hslots]
    rfl
  have hramp : 0#32 < slots ∧ slots < expSlots ↔ (Window.mk first reading).slots dac ≠ 0 ∧
      (Window.mk first reading).slots dac < (Window.mk first reading).expected := by
    rw [BitVec.lt_def, BitVec.lt_def, hslots, hexpected, Nat.pos_iff_ne_zero.symm]
    rfl
  by_cases hshort : (Window.mk first reading).ticks < 122880
  · rw [if_pos (hopen.mpr hshort), if_pos hshort]
  rw [if_neg fun h => hshort (hopen.mp h), if_neg hshort]
  unfold Window.pace
  dsimp only
  by_cases hwrap : 491520 < (Window.mk first reading).ticks
  · rw [if_pos (hlong.mpr hwrap), if_pos (Or.inl hwrap)]
  rw [if_neg fun h => hwrap (hlong.mp h)]
  by_cases hepoch : first.epoch ≠ reading.epoch
  · rw [if_pos hepoch, if_pos (Or.inr (Or.inl hepoch))]
  rw [if_neg hepoch]
  by_cases hage : first.age = reading.age
  · rw [if_pos hage, if_pos (Or.inr (Or.inr hage))]
  have hsays : ¬(491520 < (Window.mk first reading).ticks ∨ first.epoch ≠ reading.epoch ∨
      first.age = reading.age) := by
    rintro (h | h | h)
    · exact hwrap h
    · exact hepoch h
    · exact hage h
  rw [if_neg hage, if_neg hsays]
  have hsmall : (Window.mk first reading).expected ≤ 3840 := by
    have hle : (Window.mk first reading).expected ≤ 491520 / 128 :=
      Nat.div_le_div (Nat.not_lt.mp hwrap) htps' (by decide)
    exact hle
  have hfits : (expSlots - expSlots / 4#32 ≤ slots ∧ slots ≤ expSlots + expSlots / 4#32) ↔
      ((Window.mk first reading).expected - (Window.mk first reading).expected / 4 ≤
          (Window.mk first reading).slots dac ∧
        (Window.mk first reading).slots dac ≤
          (Window.mk first reading).expected + (Window.mk first reading).expected / 4) := by
    rw [← hslots, ← hexpected, BitVec.le_def, BitVec.le_def, BitVec.toNat_sub, BitVec.toNat_add,
      BitVec.toNat_udiv]
    have hquarter : (4#32).toNat = 4 := rfl
    rw [hquarter]
    rw [← hexpected] at hsmall
    constructor <;> rintro ⟨hlow, hhigh⟩ <;> constructor <;> omega
  by_cases hinside : (Window.mk first reading).expected - (Window.mk first reading).expected / 4 ≤
      (Window.mk first reading).slots dac ∧ (Window.mk first reading).slots dac ≤
      (Window.mk first reading).expected + (Window.mk first reading).expected / 4
  · rw [if_pos (hfits.mpr hinside), if_pos hinside]
  rw [if_neg fun h => hinside (hfits.mp h), if_neg hinside]
  by_cases hrest : (Window.mk first reading).slots dac = 0
  · rw [if_neg fun h => (hramp.mp h).1 hrest, if_pos hrest]
    by_cases hcount : gate.zeroStreak + 1 < 48
    · rw [if_pos ⟨hzero.mpr hrest, hcount⟩, if_pos hcount]
    · rw [if_neg fun h => hcount h.2, if_pos (hzero.mpr hrest), if_neg hcount]
  rw [if_neg hrest]
  by_cases hslow : (Window.mk first reading).slots dac < (Window.mk first reading).expected
  · rw [if_pos (hramp.mpr ⟨hrest, hslow⟩), if_pos hslow]
  · rw [if_neg fun h => hslow (hramp.mp h).2, if_neg fun h => hrest (hzero.mp h.1),
      if_neg fun h => hrest (hzero.mp h), if_neg hslow]

/-! ## Windows -/

section Windows

variable (dac : DacRing) (window : Window) (windows : List Window)

theorem zeros_cons : zeros dac (window :: windows) =
    match window.pace dac with
    | .void => zeros dac windows
    | .zero => zeros dac windows + 1
    | _ => 0 := by
  unfold zeros
  rw [List.filter_cons]
  cases hpace : window.pace dac <;> simp [streak_cons, hpace]

theorem convicted_cons : Convicted dac (window :: windows) ↔
    window.pace dac = .fast ∨ window.pace dac = .zero ∧ 48 ≤ zeros dac (window :: windows) := by
  constructor
  · rintro ⟨newest, hnewest, h⟩
    obtain rfl := Option.some.inj hnewest
    exact h
  · intro h
    exact ⟨window, rfl, h⟩

theorem acquitted_cons : Acquitted dac (window :: windows) ↔ window.pace dac = .fits := by
  constructor
  · rintro ⟨newest, hnewest, h⟩
    obtain rfl := Option.some.inj hnewest
    exact h
  · intro h
    exact ⟨window, rfl, h⟩

end Windows

/-- What the check leaves, for an episode that is not decided. -/
structure Measured (dac : DacRing) (gate : Gate) (reading : Reading) (after : Gate) : Prop where
  frame : after = { gate with
    armed := after.armed
    windows := after.windows
    zeroStreak := after.zeroStreak
    sessionDead := after.sessionDead
    paceOk := after.paceOk }
  dead : after.sessionDead = true ↔ gate.sessionDead = true ∨
    after.windows ≠ gate.windows ∧ Convicted dac after.windows
  ok : after.paceOk = true ↔
    after.windows ≠ gate.windows ∧ (Acquitted dac after.windows ∨ Convicted dac after.windows)
  counted : after.paceOk = false → after.zeroStreak = zeros dac after.windows
  lasted : ∀ window ∈ after.windows, window ∈ gate.windows ∨ 122880 ≤ window.ticks
  armed : ∀ first ∈ after.armed, first ∈ gate.armed ∨ first = reading

/-- Nothing has been measured. -/
theorem measured_of_same {dac : DacRing} {gate after : Gate} {reading : Reading}
    (hok : gate.paceOk = false) (hcounted : gate.zeroStreak = zeros dac gate.windows)
    (hafter : after = { gate with armed := after.armed })
    (harmed : ∀ first ∈ after.armed, first ∈ gate.armed ∨ first = reading) :
    Measured dac gate reading after := by
  have hframe : after = { gate with
      armed := after.armed
      windows := after.windows
      zeroStreak := after.zeroStreak
      sessionDead := after.sessionDead
      paceOk := after.paceOk } := by
    rw [hafter]
  have hwindows : after.windows = gate.windows := by rw [hafter]
  have hsame : ¬(after.windows ≠ gate.windows) := fun h => h hwindows
  refine ⟨hframe, ?_, ?_, ?_, ?_, harmed⟩
  · rw [show after.sessionDead = gate.sessionDead by rw [hafter]]
    exact (or_iff_left fun h => hsame h.1).symm
  · rw [show after.paceOk = gate.paceOk by rw [hafter], hok]
    exact iff_of_false Bool.false_ne_true fun h => hsame h.1
  · intro _
    rw [hwindows, show after.zeroStreak = gate.zeroStreak by rw [hafter]]
    exact hcounted
  · intro window hwindow
    exact Or.inl (hwindows ▸ hwindow)

/-- The check of an episode that is not decided yet. -/
theorem paceCheck_measured {dac : DacRing} {gate : Gate} {reading : Reading}
    (hok : gate.paceOk = false) (hcounted : gate.zeroStreak = zeros dac gate.windows)
    (harmed : ∀ first ∈ gate.armed, first.tick ≤ reading.tick ∧ first.pump ≤ reading.pump) :
    Measured dac gate reading (gate.paceCheck dac reading) := by
  cases hfirst : gate.armed with
  | none =>
    unfold Gate.paceCheck
    rw [hfirst]
    refine measured_of_same hok hcounted rfl ?_
    intro armed harmed
    exact Or.inr (Option.some.inj harmed).symm
  | some first =>
    obtain ⟨htick, hpump⟩ := harmed first hfirst
    rw [paceCheck_spec hfirst htick hpump]
    by_cases hshort : (Window.mk first reading).ticks < 122880
    · rw [if_pos hshort]
      exact measured_of_same hok hcounted rfl fun armed harmed => Or.inl harmed
    rw [if_neg hshort]
    have hlasted : ∀ window ∈ (⟨first, reading⟩ : Window) :: gate.windows,
        window ∈ gate.windows ∨ 122880 ≤ window.ticks := by
      intro window hwindow
      rcases List.mem_cons.mp hwindow with rfl | hold
      · exact Or.inr (Nat.not_lt.mp hshort)
      · exact Or.inl hold
    have hnew : (⟨first, reading⟩ : Window) :: gate.windows ≠ gate.windows := List.cons_ne_self _ _
    have hzeros := zeros_cons dac ⟨first, reading⟩ gate.windows
    have hconvicted := convicted_cons dac ⟨first, reading⟩ gate.windows
    have hacquitted := acquitted_cons dac ⟨first, reading⟩ gate.windows
    cases hpace : (Window.mk first reading).pace dac
    all_goals
      rw [hpace] at hzeros hconvicted hacquitted
      dsimp only at hzeros ⊢
    case zero =>
      split
      · next hfew =>
        refine ⟨rfl, ?_, ?_, fun _ => by simp only [hcounted, hzeros], hlasted, nofun⟩
        · simp only [hconvicted, hzeros, ← hcounted]
          simp
          omega
        · simp only [hconvicted, hacquitted, hzeros, ← hcounted, hok]
          simp
          omega
      · next hmany =>
        refine ⟨rfl, ?_, ?_, fun h => (by cases h), hlasted, nofun⟩
        · simp only [hconvicted, hzeros, ← hcounted]
          simp
          omega
        · simp only [hconvicted, hacquitted, hzeros, ← hcounted]
          simp
          omega
    all_goals
      refine ⟨rfl, ?_, ?_, ?_, hlasted, nofun⟩
      · simp [hconvicted]
      · simp [hconvicted, hacquitted, hok]
      · simp [hcounted, hzeros]

/-! ## Passes -/

/-- The words are those of what has been seen. -/
structure Inv (dac : DacRing) (gate : Gate) : Prop where
  beat : gate.ageJiffies = BitVec.ofNat 64 gate.beat ∧ gate.beat ≤ gate.now
  now_lt : gate.now < 2 ^ 62
  idle : gate.stale = [] → gate.staleSince = 0#64
  since : ∀ first ∈ gate.stale.getLast?, gate.staleSince = BitVec.ofNat 64 first ∧ 0 < first ∧
    first ≤ gate.now
  armed : ∀ first ∈ gate.armed, first.tick ≤ gate.tick ∧ first.pump ≤ gate.pump
  counted : gate.paceOk = false → gate.zeroStreak = zeros dac gate.windows
  lasted : ∀ window ∈ gate.windows, 122880 ≤ window.ticks

section Passes

variable {clock : Clock} {dac : DacRing} {gate following : Gate} {reading : Reading}

/-- The block is fresh unless it is stale. -/
theorem statusFresh_iff (h : Inv dac gate) (htime : reading.time < 2 ^ 62) :
    (gate.statusFresh clock reading).2 = true ↔ ¬Stale clock gate reading := by
  unfold Gate.statusFresh
  have hfresh := clock.freshFor_lt
  have hnow := h.now_lt
  have hbeat := h.beat.2
  by_cases hage : reading.age = gate.ageLast
  · rw [if_neg fun hne => hne hage]
    dsimp only
    rw [h.beat.1, ← BitVec.ofNat_add, later_ofNat (by omega) (by omega), decide_eq_true_eq]
    constructor
    · intro hlt hstale
      exact absurd hstale.2 (Nat.not_le.mpr hlt)
    · intro hstale
      by_contra hle
      exact hstale ⟨hage, Nat.not_lt.mp hle⟩
  · rw [if_pos hage]
    exact iff_of_true rfl fun hstale => hage hstale.1

/-- Looking at the block changes only what is known of the heartbeat. -/
theorem statusFresh_frame (clock : Clock) (gate : Gate) (reading : Reading) :
    (gate.statusFresh clock reading).1 =
    { gate with
      ageLast := (gate.statusFresh clock reading).1.ageLast
      ageJiffies := (gate.statusFresh clock reading).1.ageJiffies
      beat := (gate.statusFresh clock reading).1.beat } := by
  unfold Gate.statusFresh
  split <;> rfl

theorem Inv.looked (h : Inv dac gate) (htime : gate.now ≤ reading.time)
    (hlt : reading.time < 2 ^ 62) (htick : gate.tick ≤ reading.tick)
    (hpump : gate.pump ≤ reading.pump) :
    Inv dac { (gate.statusFresh clock reading).1 with
      now := reading.time, tick := reading.tick, pump := reading.pump } := by
  have hbeat : (gate.statusFresh clock reading).1.ageJiffies =
      BitVec.ofNat 64 (gate.statusFresh clock reading).1.beat ∧
      (gate.statusFresh clock reading).1.beat ≤ reading.time := by
    unfold Gate.statusFresh
    split
    · exact ⟨rfl, Nat.le_refl _⟩
    · exact ⟨h.beat.1, Nat.le_trans h.beat.2 htime⟩
  rw [statusFresh_frame]
  refine ⟨hbeat, hlt, h.idle, ?_, ?_, h.counted, h.lasted⟩
  · intro first hfirst
    obtain ⟨hsince, hpos, hle⟩ := h.since first hfirst
    exact ⟨hsince, hpos, Nat.le_trans hle htime⟩
  · intro first hfirst
    obtain ⟨htickFirst, hpumpFirst⟩ := h.armed first hfirst
    exact ⟨Nat.le_trans htickFirst htick, Nat.le_trans hpumpFirst hpump⟩

/-- A stale pass ends the session where the stretch has lasted a second. -/
theorem stalePass_spec (clock : Clock) (h : Inv dac gate) (hnow : gate.now = reading.time)
    (hpos : 0 < reading.time) :
    Inv dac (gate.stalePass clock reading) ∧
      (gate.stalePass clock reading).stale = reading.time :: gate.stale ∧
      (gate.stalePass clock reading).windows = gate.windows ∧
      (gate.stalePass clock reading).paceOk = gate.paceOk ∧
      ((gate.stalePass clock reading).sessionDead = true ↔
        gate.sessionDead = true ∨ Stranded clock (reading.time :: gate.stale)) := by
  have htime := hnow ▸ h.now_lt
  have hhz := clock.hz_lt
  have hmarked (since : BitVec 64) (dead : Bool)
      (hsince : ∀ first ∈ (reading.time :: gate.stale).getLast?,
        since = BitVec.ofNat 64 first ∧ 0 < first ∧ first ≤ gate.now) :
      Inv dac { gate with
        stale := reading.time :: gate.stale, staleSince := since, sessionDead := dead } :=
    ⟨h.beat, h.now_lt, fun hnil => (by cases hnil), hsince, h.armed, h.counted, h.lasted⟩
  cases hstale : gate.stale with
  | nil =>
    have hzero := h.idle hstale
    have hshort : ¬Stranded clock [reading.time] := by
      rintro ⟨latest, first, hlatest, hfirst, hlt⟩
      rw [List.getLast?_singleton] at hfirst
      obtain rfl := Option.some.inj hlatest
      obtain rfl := Option.some.inj hfirst
      omega
    unfold Gate.stalePass
    rw [if_pos hzero]
    dsimp only
    rw [hstale]
    refine ⟨?_, rfl, rfl, rfl, (or_iff_left hshort).symm⟩
    have hinv := hmarked (BitVec.ofNat 64 reading.time) gate.sessionDead
    rw [hstale] at hinv
    refine hinv ?_
    intro first hfirst
    obtain rfl := Option.some.inj hfirst
    exact ⟨rfl, hpos, hnow ▸ Nat.le_refl _⟩
  | cons latest rest =>
    obtain ⟨first, hfirst⟩ : ∃ first, gate.stale.getLast? = some first := by
      rw [hstale]
      exact ⟨_, List.getLast?_eq_some_getLast (List.cons_ne_nil latest rest)⟩
    obtain ⟨hsince, hfirstPos, hle⟩ := h.since first hfirst
    have hlast : (reading.time :: gate.stale).getLast? = some first := by
      rw [hstale, List.getLast?_cons_cons, ← hstale]
      exact hfirst
    have hnonzero : gate.staleSince ≠ 0#64 := by
      intro hzero
      have hnat := congrArg BitVec.toNat (hsince ▸ hzero)
      rw [BitVec.toNat_ofNat, Nat.mod_eq_of_lt (by omega)] at hnat
      exact absurd hnat (Nat.ne_of_gt hfirstPos)
    have hlater : WrapClock.later (BitVec.ofNat 64 reading.time)
        (gate.staleSince + BitVec.ofNat 64 clock.hz) = true ↔
        Stranded clock (reading.time :: gate.stale) := by
      rw [hsince, ← BitVec.ofNat_add, later_ofNat (by omega) (by omega), decide_eq_true_eq]
      constructor
      · intro hlt
        exact ⟨reading.time, first, rfl, hlast, hlt⟩
      · rintro ⟨newest, oldest, hnewest, holdest, hlt⟩
        obtain rfl := Option.some.inj hnewest
        obtain rfl := Option.some.inj (hlast.symm.trans holdest)
        exact hlt
    have hkept : ∀ oldest ∈ (reading.time :: gate.stale).getLast?,
        gate.staleSince = BitVec.ofNat 64 oldest ∧ 0 < oldest ∧ oldest ≤ gate.now := by
      intro oldest holdest
      obtain rfl := Option.some.inj (hlast.symm.trans holdest)
      exact ⟨hsince, hfirstPos, hle⟩
    rw [← hstale]
    unfold Gate.stalePass
    rw [if_neg hnonzero]
    dsimp only
    split
    · next hover =>
      refine ⟨hmarked gate.staleSince true hkept, rfl, rfl, rfl, ?_⟩
      exact iff_of_true rfl (Or.inr (hlater.mp hover))
    · next hunder =>
      refine ⟨hmarked gate.staleSince gate.sessionDead hkept, rfl, rfl, rfl, ?_⟩
      exact (or_iff_left fun hover => hunder (hlater.mpr hover)).symm

/-- A fresh pass ends the stretch, and may measure a window. -/
theorem freshPass_spec (h : Inv dac gate) (htick : gate.tick = reading.tick)
    (hpump : gate.pump = reading.pump) :
    Inv dac (gate.freshPass dac reading) ∧ (gate.freshPass dac reading).stale = [] ∧
      ((gate.freshPass dac reading).sessionDead = true ↔ gate.sessionDead = true ∨
        (gate.freshPass dac reading).windows ≠ gate.windows ∧
          Convicted dac (gate.freshPass dac reading).windows) ∧
      ((gate.freshPass dac reading).paceOk = true ↔ gate.paceOk = true ∨
        (gate.freshPass dac reading).windows ≠ gate.windows ∧
          (Acquitted dac (gate.freshPass dac reading).windows ∨
            Convicted dac (gate.freshPass dac reading).windows)) := by
  have hcleared : Inv dac { gate with staleSince := 0#64, stale := [] } :=
    ⟨h.beat, h.now_lt, fun _ => rfl, nofun, h.armed, h.counted, h.lasted⟩
  unfold Gate.freshPass
  dsimp only
  split
  · next hundecided =>
    have hmeasured : Measured dac { gate with staleSince := 0#64, stale := [] } reading
        (Gate.paceCheck dac { gate with staleSince := 0#64, stale := [] } reading) :=
      paceCheck_measured hundecided.1 (h.counted hundecided.1)
        fun first hfirst => htick ▸ hpump ▸ h.armed first hfirst
    generalize Gate.paceCheck dac { gate with staleSince := 0#64, stale := [] } reading = after
      at hmeasured ⊢
    have hstale : after.stale = [] := by rw [hmeasured.frame]
    have hinv : Inv dac after := by
      refine ⟨?_, ?_, ?_, ?_, ?_, hmeasured.counted, ?_⟩
      · rw [hmeasured.frame]
        exact h.beat
      · rw [hmeasured.frame]
        exact h.now_lt
      · intro _
        rw [hmeasured.frame]
      · rw [hstale]
        nofun
      · intro first hfirst
        rw [show after.tick = gate.tick by rw [hmeasured.frame],
          show after.pump = gate.pump by rw [hmeasured.frame]]
        rcases hmeasured.armed first hfirst with hold | rfl
        · exact h.armed first hold
        · exact ⟨htick.ge, hpump.ge⟩
      · intro window hwindow
        rcases hmeasured.lasted window hwindow with hold | hlasted
        · exact h.lasted window hold
        · exact hlasted
    refine ⟨hinv, hstale, hmeasured.dead, hmeasured.ok.trans ?_⟩
    rw [hundecided.1]
    simp
  · refine ⟨hcleared, rfl, (or_iff_left fun hnew => hnew.1 rfl).symm,
      (or_iff_left fun hnew => hnew.1 rfl).symm⟩

/-- A pass keeps the words, and judges by what has been seen. -/
theorem pass_spec (h : Inv dac gate) (hnext : Gate.next clock dac gate (.pass reading) =
    some following) : Inv dac following ∧ Judged clock dac gate (.pass reading) following := by
  obtain ⟨⟨htime, hpos, hlt, htick, hpump⟩, rfl⟩ := of_guard hnext
  have hlooked : Inv dac { (gate.statusFresh clock reading).1 with
      now := reading.time, tick := reading.tick, pump := reading.pump } :=
    h.looked htime hlt htick hpump
  have hframe := statusFresh_frame clock gate reading
  have hstatus : (gate.statusFresh clock reading).2 = true ↔ ¬Stale clock gate reading :=
    statusFresh_iff h hlt
  unfold Gate.pass
  dsimp only
  generalize hseen : ({ (gate.statusFresh clock reading).1 with
      now := reading.time, tick := reading.tick, pump := reading.pump } : Gate) = seen at hlooked ⊢
  have hdead : seen.sessionDead = gate.sessionDead := by rw [← hseen, hframe]
  have hok : seen.paceOk = gate.paceOk := by rw [← hseen, hframe]
  have hwindows : seen.windows = gate.windows := by rw [← hseen, hframe]
  have hstretch : seen.stale = gate.stale := by rw [← hseen, hframe]
  by_cases hstale : Stale clock gate reading
  · have hnot : ¬(gate.statusFresh clock reading).2 = true := fun hfresh => hstatus.mp hfresh hstale
    rw [if_neg hnot]
    obtain ⟨hinv, hpassed, hsame, hsameOk, hends⟩ :=
      stalePass_spec clock hlooked (by rw [← hseen]) hpos
    refine ⟨hinv, ?_, ?_, ?_, hinv.lasted⟩
    · rw [if_pos hstale, hpassed, hstretch]
    · rw [hends, hdead, hpassed]
      have hno : ¬((seen.stalePass clock reading).windows ≠ gate.windows) :=
        fun hne => hne (hsame.trans hwindows)
      exact or_congr_right (or_iff_left fun hnew => hno hnew.1).symm
    · rw [hsameOk, hok]
      exact (or_iff_left fun hnew => hnew.1 (hsame.trans hwindows)).symm
  · rw [if_pos (hstatus.mpr hstale)]
    obtain ⟨hinv, hempty, hends, hdecides⟩ :=
      freshPass_spec hlooked (by rw [← hseen]) (by rw [← hseen])
    refine ⟨hinv, ?_, ?_, ?_, hinv.lasted⟩
    · rw [if_neg hstale, hempty]
    · rw [hends, hdead, hwindows, hempty]
      have hnone : ¬Stranded clock [] := by
        rintro ⟨latest, first, hlatest, -⟩
        cases hlatest
      exact or_congr_right (or_iff_right hnone).symm
    · rw [hdecides, hok, hwindows]

end Passes

/-! ## Runs -/

theorem loaded_inv (dac : DacRing) : Inv dac Gate.loaded :=
  ⟨⟨rfl, Nat.le_refl _⟩, by decide, fun _ => rfl, nofun, nofun, fun _ => rfl, nofun⟩

/-- In every run of passes, flushes and reopened sessions, whatever the status block says, a session
is ended by the feed for exactly two reasons: the heartbeat has stood still in every pass for more
than a second, or the windows of the episode convict the pump. -/
theorem judged_by_windows (clock : Clock) (dac : DacRing) (events : List Event) :
    EveryStep (Gate.next clock dac) (Judged clock dac) Gate.loaded events := by
  have hkeep : ∀ gate event following, Inv dac gate →
      Gate.next clock dac gate event = some following → Inv dac following := by
    intro gate event following h hnext
    cases event with
    | pass reading => exact (pass_spec h hnext).1
    | flush =>
        obtain rfl := Option.some.inj hnext
        exact ⟨h.beat, h.now_lt, fun _ => rfl, nofun, nofun, fun _ => rfl, nofun⟩
    | reopen =>
        obtain rfl := Option.some.inj hnext
        exact ⟨h.beat, h.now_lt, h.idle, h.since, h.armed, h.counted, h.lasted⟩
  refine everyStep_of_inductive hkeep (fun gate event following h hnext => ?_) (loaded_inv dac)
  cases event with
  | pass reading => exact (pass_spec h hnext).2
  | flush | reopen => trivial

/-- A thousand jiffies a second. -/
def thousand : Clock :=
  ⟨1000, 100, by decide, by decide⟩

/-- A ring of 8192 slots. -/
def wideRing : DacRing :=
  ⟨13, 1, 1, by decide, by decide, by decide, by decide⟩

/-- The passes at the two ends of windows of two milliseconds, one window after the other, in each
of which the pump takes so many slots of the 480 that it should take. -/
def paced (slots count : Nat) : List Event :=
  (List.range (2 * count)).map fun k =>
    .pass ⟨1 + 2 * k, 122880 * k, slots * ((k + 1) / 2), BitVec.ofNat 32 (1 + k), 0#32,
      ⟨0#32, 1, by decide⟩, true⟩

/-- A quarter more than the 480 acquits the pump and one slot more convicts it; at rest it is
convicted by the forty-eighth window. -/
theorem judged_by_windows_thousand :
    (∀ slots count, EveryStep (Gate.next thousand wideRing) (Judged thousand wideRing) Gate.loaded
      (paced slots count)) ∧
      (run (Gate.next thousand wideRing) Gate.loaded (paced 600 1)).map
        (fun gate => (gate.sessionDead, gate.paceOk)) = some (false, true) ∧
      (run (Gate.next thousand wideRing) Gate.loaded (paced 601 1)).map
        (fun gate => (gate.sessionDead, gate.paceOk)) = some (true, true) ∧
      (run (Gate.next thousand wideRing) Gate.loaded (paced 0 47)).map
        (fun gate => (gate.sessionDead, gate.paceOk)) = some (false, false) ∧
      (run (Gate.next thousand wideRing) Gate.loaded (paced 0 48)).map
        (fun gate => (gate.sessionDead, gate.paceOk)) = some (true, true) :=
  ⟨fun slots count => judged_by_windows thousand wideRing (paced slots count),
    by decide +kernel, by decide +kernel, by decide +kernel, by decide +kernel⟩

end RfnmDriver.Tx.PumpPace
