import RfnmDriver.Library.StepSystem
import RfnmDriver.Library.Streak
import RfnmDriver.Library.WrapClock

/-!
# Quiet arm death

`rfnm_la9310_arm_death_check` of `rfnm_lalib.c` and the worker of `la9310_rfnm.c` that asks it about
twenty times a second. A channel is stuck in a poll that finds commands queued for it and nothing
executing; forty such polls of a channel in a row end the session. `judged_by_streaks` says when
exactly that happens, and how long it has lasted by then.
-/

namespace RfnmDriver.Session.ArmDeath

open StepSystem Streak

/-- `RFNM_ARM_DEATH_POLLS`. -/
def armDeathPolls : Nat := 40

/-- What a poll reads: the stream word of the session, and the two status registers. -/
structure Reading where
  /-- When it was made. -/
  time : Nat
  word : BitVec 32
  fifo : BitVec 32
  xrun : BitVec 32
  deriving DecidableEq, Repr

namespace Reading

/-- `watch`: the channels of the lanes that the session streams. -/
def watch (reading : Reading) : BitVec 32 :=
  let lanes := (List.range 4).foldl (fun watch n =>
    if reading.word.getLsbD (1 + n) then watch ||| 1#32 <<< (n + 1) else watch) 0#32
  if reading.word.getLsbD 0 then lanes ||| 1#32 <<< 11 else lanes

/-- `stuck`. -/
def stuck (reading : Reading) : BitVec 32 :=
  ~~~reading.fifo &&& ~~~reading.xrun &&& reading.watch

/-- A channel is stuck in the reading. -/
def stuckAt (channel : Nat) (reading : Reading) : Bool := reading.stuck.getLsbD channel

/-- The channel belongs to a lane that is streamed, has commands queued and executes nothing. -/
def Queued (channel : Nat) (reading : Reading) : Prop :=
  (channel = 11 ∧ reading.word.getLsbD 0 = true ∨
    1 ≤ channel ∧ channel ≤ 4 ∧ reading.word.getLsbD channel = true) ∧
  reading.fifo.getLsbD channel = false ∧ reading.xrun.getLsbD channel = false

end Reading

/-- A step of the loop over the channels, with `hits` and `dead`. -/
def pollChannel (stuck : BitVec 32) (st : (Nat → Nat) × BitVec 32) (n : Nat) :
    (Nat → Nat) × BitVec 32 :=
  let counted := tally armDeathPolls (st.1 n) (stuck.getLsbD n)
  (Function.update st.1 n counted.1, if counted.2 then st.2 ||| 1#32 <<< n else st.2)

/-- The loop of `rfnm_la9310_arm_death_check` over its first channels. -/
def poll (channels : Nat) (hits : Nat → Nat) (stuck : BitVec 32) : (Nat → Nat) × BitVec 32 :=
  (List.range channels).foldl (pollChannel stuck) (hits, 0#32)

/-- The detector, and what it is told. -/
structure Detector where
  /-- `hits`. -/
  hits : Nat → Nat
  /-- `arm_death_jiffies`. -/
  armDeathJiffies : BitVec 64
  /-- `rfnm_session_dead`. -/
  sessionDead : Bool
  now : Nat
  /-- The polls that have read the registers, the newest first. -/
  readings : List Reading

/-- What happens to the session. -/
inductive Event
  /-- A pass of the worker: whether `rfnm_arm_death_en` and the callback are there, whether the
  registers are out of reach, and what is in them. -/
  | pass (enabled fenced : Bool) (time : Nat) (word fifo xrun : BitVec 32)
  /-- The session begins, or another fault ends it. -/
  | session (dead : Bool)

namespace Detector

variable (hz : Nat) (st : Detector)

/-- A poll that reads the registers. -/
def check (reading : Reading) : Detector :=
  let polled := poll 16 st.hits reading.stuck
  { st with
    hits := polled.1
    sessionDead := st.sessionDead || decide (polled.2 ≠ 0#32)
    readings := reading :: st.readings }

/-- One event; time does not run back. -/
def next : Event → Option Detector
  | .session dead => some { st with sessionDead := dead }
  | .pass enabled fenced time word fifo xrun =>
      if st.now ≤ time then
        let jiffies := BitVec.ofNat 64 time
        let due := enabled &&
          WrapClock.later jiffies (st.armDeathJiffies + BitVec.ofNat 64 (hz / 20))
        let polled := { st with now := time }
        some (if due then
          let asked := if fenced then polled else polled.check ⟨time, word, fifo, xrun⟩
          { asked with armDeathJiffies := jiffies }
        else polled)
      else none

/-- The detector as it is loaded. -/
def loaded (dead : Bool) (now : Nat) : Detector := ⟨fun _ => 0, 0#64, dead, now, []⟩

/-- The newest polls have found the channel stuck, in a number that is a multiple of forty. -/
def Dead (readings : List Reading) (channel : Nat) : Prop :=
  0 < streak (Reading.stuckAt channel) readings ∧
    armDeathPolls ∣ streak (Reading.stuckAt channel) readings

instance (readings : List Reading) (channel : Nat) : Decidable (Dead readings channel) :=
  inferInstanceAs (Decidable (_ ∧ _))

/-- Forty polls have found the channel queued and executing nothing, over about two seconds. -/
def Lasted (readings : List Reading) (channel : Nat) : Prop :=
  ∃ latest first, readings.head? = some latest ∧ readings[armDeathPolls - 1]? = some first ∧
    (∀ reading ∈ readings.take armDeathPolls, reading.Queued channel) ∧
    first.time + (armDeathPolls - 1) * (hz / 20 + 1) ≤ latest.time

/-- The session is ended by a poll that completes the forty of a channel, and by no other. -/
def Judged (st : Detector) (event : Event) (following : Detector) : Prop :=
  match event with
  | .session _ => True
  | .pass .. =>
      (following.sessionDead = true ↔ st.sessionDead = true ∨
        following.readings ≠ st.readings ∧ ∃ channel, Dead following.readings channel) ∧
      ∀ channel, Dead following.readings channel → Lasted hz following.readings channel

/-- The counters follow the streaks, and the polls are apart. -/
structure Inv (st : Detector) : Prop where
  hits : ∀ channel < 16,
    st.hits channel = streak (Reading.stuckAt channel) st.readings % armDeathPolls
  spaced : Spaced (hz / 20 + 1) Reading.time st.readings
  past : ∀ reading, st.readings.head? = some reading → reading.time ≤ st.now ∧
    ∃ asked, st.armDeathJiffies = BitVec.ofNat 64 asked ∧ reading.time ≤ asked ∧ asked ≤ st.now

end Detector

/-! ## A poll -/

theorem getLsbD_bit {n : Nat} (hn : n < 32) (channel : Nat) :
    (1#32 <<< n).getLsbD channel = decide (channel = n) := by
  rw [BitVec.getLsbD_shiftLeft, BitVec.getLsbD_one]
  rw [Bool.eq_iff_iff]
  simp only [Bool.and_eq_true, decide_eq_true_eq, Bool.not_eq_true', decide_eq_false_iff_not]
  omega

theorem getLsbD_or_bit {n : Nat} (hn : n < 32) (mask : BitVec 32) (channel : Nat) :
    (mask ||| 1#32 <<< n).getLsbD channel = true ↔
      mask.getLsbD channel = true ∨ channel = n := by
  rw [BitVec.getLsbD_or, getLsbD_bit hn, Bool.or_eq_true, decide_eq_true_eq]

/-- The lanes that are watched. -/
theorem watch_iff (reading : Reading) (channel : Nat) :
    reading.watch.getLsbD channel = true ↔
      channel = 11 ∧ reading.word.getLsbD 0 = true ∨
        1 ≤ channel ∧ channel ≤ 4 ∧ reading.word.getLsbD channel = true := by
  -- a bit of the word adds the channel
  have hadd : ∀ {wanted : Bool} {n : Nat} (mask : BitVec 32), n < 32 →
      ((if wanted then mask ||| 1#32 <<< n else mask).getLsbD channel = true ↔
        mask.getLsbD channel = true ∨ channel = n ∧ wanted = true) := by
    intro wanted n mask hn
    cases wanted with
    | false => simp only [Bool.false_eq_true, if_false, and_false, or_false]
    | true => simp only [if_true, and_true, getLsbD_or_bit hn]
  have hrange : List.range 4 = [0, 1, 2, 3] := rfl
  unfold Reading.watch
  simp only [hrange, List.foldl_cons, List.foldl_nil]
  rw [hadd _ (by omega), hadd _ (by omega), hadd _ (by omega), hadd _ (by omega),
    hadd _ (by omega), BitVec.getLsbD_zero]
  constructor
  · rintro (((((hnone | ⟨rfl, h⟩) | ⟨rfl, h⟩) | ⟨rfl, h⟩) | ⟨rfl, h⟩) | ⟨rfl, h⟩)
    · cases hnone
    all_goals first
      | exact .inl ⟨rfl, h⟩
      | exact .inr ⟨by omega, by omega, h⟩
  · rintro (⟨rfl, h⟩ | ⟨hlow, hhigh, h⟩)
    · exact .inr ⟨rfl, h⟩
    · obtain rfl | rfl | rfl | rfl : channel = 1 ∨ channel = 2 ∨ channel = 3 ∨ channel = 4 := by
        omega
      · exact .inl (.inl (.inl (.inl (.inr ⟨rfl, h⟩))))
      · exact .inl (.inl (.inl (.inr ⟨rfl, h⟩)))
      · exact .inl (.inl (.inr ⟨rfl, h⟩))
      · exact .inl (.inr ⟨rfl, h⟩)

/-- A stuck channel is one of a streamed lane, with commands queued and nothing executing. -/
theorem queued_of_stuck {reading : Reading} {channel : Nat}
    (h : reading.stuckAt channel = true) : reading.Queued channel := by
  unfold Reading.stuckAt Reading.stuck at h
  simp only [BitVec.getLsbD_and, BitVec.getLsbD_not, Bool.and_eq_true, Bool.not_eq_true',
    decide_eq_true_eq] at h
  exact ⟨(watch_iff reading channel).mp h.2, h.1.1.2, h.1.2.2⟩

/-- No channel from the sixteenth on is ever stuck. -/
theorem lt_of_stuck {reading : Reading} {channel : Nat}
    (h : reading.stuckAt channel = true) : channel < 16 := by
  obtain ⟨⟨rfl, -⟩ | ⟨-, hhigh, -⟩, -⟩ := queued_of_stuck h
  · omega
  · omega

/-- The loop counts every channel once. -/
theorem poll_spec (hits : Nat → Nat) (stuck : BitVec 32) (channels : Nat) (hle : channels ≤ 32) :
    (∀ n, (poll channels hits stuck).1 n =
      if n < channels then (tally armDeathPolls (hits n) (stuck.getLsbD n)).1 else hits n) ∧
    ∀ n, (poll channels hits stuck).2.getLsbD n = true ↔
      n < channels ∧ (tally armDeathPolls (hits n) (stuck.getLsbD n)).2 = true := by
  induction channels with
  | zero =>
      refine ⟨fun n => (if_neg (Nat.not_lt_zero n)).symm, fun n => iff_of_false ?_ ?_⟩
      · rw [show (poll 0 hits stuck).2 = 0#32 from rfl, BitVec.getLsbD_zero]
        exact Bool.false_ne_true
      · exact fun h => Nat.not_lt_zero n h.1
  | succ channels ih =>
      obtain ⟨hhits, hdead⟩ := ih (by omega)
      have hstep : poll (channels + 1) hits stuck =
          pollChannel stuck (poll channels hits stuck) channels := by
        unfold poll
        rw [List.range_succ, List.foldl_append]
        rfl
      have hcount : (poll channels hits stuck).1 channels = hits channels :=
        (hhits channels).trans (if_neg (Nat.lt_irrefl _))
      rw [hstep, pollChannel, hcount]
      refine ⟨fun n => ?_, fun n => ?_⟩
      all_goals dsimp only
      · by_cases hn : n = channels
        · rw [hn, Function.update_self, if_pos (Nat.lt_succ_self _)]
        · rw [Function.update_of_ne hn, hhits]
          exact if_congr (by omega) rfl rfl
      · split
        · next hreached =>
          rw [getLsbD_or_bit (by omega), hdead]
          constructor
          · rintro (⟨hlt, h⟩ | rfl)
            · exact ⟨by omega, h⟩
            · exact ⟨by omega, hreached⟩
          · rintro ⟨hlt, h⟩
            by_cases hn : n = channels
            · exact .inr hn
            · exact .inl ⟨by omega, h⟩
        · next hshort =>
          rw [hdead]
          constructor
          · rintro ⟨hlt, h⟩
            exact ⟨by omega, h⟩
          · rintro ⟨hlt, h⟩
            refine ⟨?_, h⟩
            have hne : n ≠ channels := fun hn => hshort (hn ▸ h)
            omega

/-- A mask that is not zero has a bit. -/
theorem ne_zero_iff_bit (mask : BitVec 32) :
    mask ≠ 0#32 ↔ ∃ n, mask.getLsbD n = true := by
  constructor
  · intro hne
    by_contra hnone
    refine hne (BitVec.eq_of_getLsbD_eq fun n _ => ?_)
    rw [BitVec.getLsbD_zero]
    exact Bool.eq_false_iff.mpr fun h => hnone ⟨n, h⟩
  · rintro ⟨n, h⟩ rfl
    rw [BitVec.getLsbD_zero] at h
    exact Bool.false_ne_true h

/-- Only the first sixteen channels can be dead. -/
theorem lt_of_dead {readings : List Reading} {channel : Nat}
    (h : Detector.Dead readings channel) : channel < 16 := by
  obtain ⟨hpositive, -⟩ := h
  cases readings with
  | nil => exact absurd hpositive (Nat.lt_irrefl 0)
  | cons reading rest =>
      rw [streak_cons] at hpositive
      split at hpositive
      · next hstuck => exact lt_of_stuck hstuck
      · exact absurd hpositive (Nat.lt_irrefl 0)

namespace Detector

variable {hz : Nat} {st following : Detector} {event : Event}

/-- A poll that reads the registers brings the counters on, and ends the session for a channel whose
forty are complete. -/
theorem Inv.check (h : st.Inv hz) (reading : Reading)
    (hlater : ∀ former, st.readings.head? = some former →
      former.time + (hz / 20 + 1) ≤ reading.time) :
    (∀ channel < 16, (st.check reading).hits channel =
      streak (Reading.stuckAt channel) (reading :: st.readings) % armDeathPolls) ∧
    Spaced (hz / 20 + 1) Reading.time (reading :: st.readings) ∧
    ((st.check reading).sessionDead = true ↔
      st.sessionDead = true ∨ ∃ channel, Dead (reading :: st.readings) channel) := by
  obtain ⟨hhits, hdead⟩ := poll_spec st.hits reading.stuck 16 (by omega)
  have htally : ∀ channel < 16, tally armDeathPolls (st.hits channel)
      (reading.stuck.getLsbD channel) =
      (streak (Reading.stuckAt channel) (reading :: st.readings) % armDeathPolls,
        decide (Dead (reading :: st.readings) channel)) := by
    intro channel hchannel
    rw [h.hits channel hchannel]
    exact tally_streak (by decide) reading st.readings
  refine ⟨fun channel hchannel => ?_, ?_, ?_⟩
  · have hcounted := (hhits channel).trans (if_pos hchannel)
    rw [htally channel hchannel] at hcounted
    exact hcounted
  · cases hreadings : st.readings with
    | nil => exact List.isChain_singleton _
    | cons former rest =>
        have hspaced := h.spaced
        rw [hreadings] at hspaced
        exact List.isChain_cons_cons.mpr ⟨hlater former (by rw [hreadings]; rfl), hspaced⟩
  · have hany : (poll 16 st.hits reading.stuck).2 ≠ 0#32 ↔
        ∃ channel, Dead (reading :: st.readings) channel := by
      rw [ne_zero_iff_bit]
      refine exists_congr fun channel => (hdead channel).trans ⟨?_, fun hchannel => ?_⟩
      · rintro ⟨hlt, hreached⟩
        rw [htally channel hlt] at hreached
        exact of_decide_eq_true hreached
      · have hlt := lt_of_dead hchannel
        rw [htally channel hlt]
        exact ⟨hlt, decide_eq_true hchannel⟩
    show (st.sessionDead || decide (_ ≠ _)) = true ↔ _
    rw [Bool.or_eq_true, decide_eq_true_eq, hany]

/-- A channel that is dead has been so for forty polls. -/
theorem Inv.lasted (h : st.Inv hz) {channel : Nat} (hdead : Dead st.readings channel) :
    Lasted hz st.readings channel := by
  have hforty : armDeathPolls ≤ streak (Reading.stuckAt channel) st.readings :=
    Nat.le_of_dvd hdead.1 hdead.2
  have hlength := Nat.le_trans hforty streak_le_length
  have hspaced := h.spaced
  cases hreadings : st.readings with
  | nil =>
      rw [hreadings] at hlength
      exact absurd hlength (by decide)
  | cons latest rest =>
      rw [hreadings] at hforty hlength hspaced
      have hlast : armDeathPolls - 1 < (latest :: rest).length := by
        unfold armDeathPolls at hlength ⊢
        omega
      refine ⟨latest, (latest :: rest)[armDeathPolls - 1], rfl, List.getElem?_eq_getElem hlast,
        fun reading hreading => queued_of_stuck (of_mem_take hforty reading hreading), ?_⟩
      exact hspaced.lasted (List.getElem?_eq_getElem hlast)

/-- A poll that is due comes more than a twentieth of a second behind the last one. -/
theorem lt_of_later {time asked slack : Nat} (hle : asked ≤ time) (hslack : slack < 2 ^ 63)
    (hlater : WrapClock.later (BitVec.ofNat 64 time)
      (BitVec.ofNat 64 asked + BitVec.ofNat 64 slack) = true) : asked + slack < time := by
  by_contra hearly
  obtain ⟨left, hleft⟩ : ∃ left, asked + slack = left + time := ⟨asked + slack - time, by omega⟩
  have hdifference : BitVec.ofNat 64 asked + BitVec.ofNat 64 slack - BitVec.ofNat 64 time =
      BitVec.ofNat 64 left := by
    rw [← BitVec.ofNat_add, hleft, BitVec.ofNat_add, BitVec.add_sub_cancel]
  have hmsb : (BitVec.ofNat 64 left).msb = false := by
    rw [BitVec.msb_eq_decide, BitVec.toNat_ofNat]
    simp only [Nat.reducePow, Nat.reduceSub, decide_eq_false_iff_not]
    omega
  have hslt : (BitVec.ofNat 64 left).slt 0#64 = false := BitVec.slt_zero_eq_msb.trans hmsb
  rw [WrapClock.later, hdifference] at hlater
  exact Bool.false_ne_true (hslt.symm.trans hlater)

/-! ## Runs -/

/-- One pass of the worker keeps the invariant, and ends the session only as the streaks say. -/
theorem pass_spec (hhz : hz < 2 ^ 63) (h : st.Inv hz) {enabled fenced : Bool} {time : Nat}
    {word fifo xrun : BitVec 32}
    (hnext : next hz st (.pass enabled fenced time word fifo xrun) = some following) :
    following.Inv hz ∧ (following.sessionDead = true ↔ st.sessionDead = true ∨
      following.readings ≠ st.readings ∧ ∃ channel, Dead following.readings channel) := by
  obtain ⟨htime, rfl⟩ := of_guard hnext
  have hpolled : Inv hz { st with now := time } := by
    refine ⟨h.hits, h.spaced, fun former hformer => ?_⟩
    obtain ⟨hle, asked, hasked, hbefore, hafter⟩ := h.past former hformer
    exact ⟨Nat.le_trans hle htime, asked, hasked, hbefore, Nat.le_trans hafter htime⟩
  dsimp only
  split
  · next hdue =>
    simp only [Bool.and_eq_true] at hdue
    split
    · refine ⟨⟨hpolled.hits, hpolled.spaced, fun former hformer => ?_⟩,
        (or_iff_left fun hnew => hnew.1 rfl).symm⟩
      have hle := (hpolled.past former hformer).1
      exact ⟨hle, time, rfl, hle, Nat.le_refl _⟩
    · have hlater : ∀ former, st.readings.head? = some former →
          former.time + (hz / 20 + 1) ≤ time := by
        intro former hformer
        obtain ⟨-, asked, hasked, hbefore, hafter⟩ := hpolled.past former hformer
        have hdueLater := hdue.2
        rw [show st.armDeathJiffies = BitVec.ofNat 64 asked from hasked] at hdueLater
        have hlt := lt_of_later hafter (by omega) hdueLater
        dsimp only at hlt
        omega
      obtain ⟨hhits, hspaced, hdead⟩ := hpolled.check ⟨time, word, fifo, xrun⟩ hlater
      refine ⟨⟨hhits, hspaced, fun former hformer => ?_⟩, hdead.trans (or_congr_right ?_)⟩
      · obtain rfl := Option.some.inj hformer
        exact ⟨Nat.le_refl _, time, rfl, Nat.le_refl _, Nat.le_refl _⟩
      · exact ⟨fun hany => ⟨List.cons_ne_self _ _, hany⟩, And.right⟩
  · exact ⟨hpolled, (or_iff_left fun hnew => hnew.1 rfl).symm⟩

/-- In every run of sessions and polls, whatever the registers say and however the jiffies wrap, the
session is ended by the poll that completes forty in a row for one channel, each of which has found
the channel of a streamed lane with commands queued and nothing executing, and which together have
lasted for thirty-nine twentieths of a second. -/
theorem judged_by_streaks (hz : Nat) (hhz : hz < 2 ^ 63) (dead : Bool) (now : Nat)
    (events : List Event) : EveryStep (next hz) (Judged hz) (loaded dead now) events := by
  have hstart : (loaded dead now).Inv hz :=
    ⟨fun _ _ => rfl, List.isChain_nil, nofun⟩
  have hkeep : ∀ st event following, Inv hz st → next hz st event = some following →
      Inv hz following := by
    intro st event following h hnext
    cases event with
    | session dead =>
        obtain rfl := Option.some.inj hnext
        exact ⟨h.hits, h.spaced, h.past⟩
    | pass enabled fenced time word fifo xrun => exact (pass_spec hhz h hnext).1
  refine everyStep_of_inductive hkeep (fun st event following h hnext => ?_) hstart
  cases event with
  | session dead => trivial
  | pass enabled fenced time word fifo xrun =>
      obtain ⟨hinv, hended⟩ := pass_spec hhz h hnext
      exact ⟨hended, fun channel hdead => hinv.lasted hdead⟩

/-- So many polls, each at the first jiffy that is late enough, of lane 0 with commands queued and
nothing executing. -/
def stuckPolls (count : Nat) : List Event :=
  (List.range count).map fun k => .pass true false (51 + 51 * k) 2#32 0#32 0#32

/-- At a thousand jiffies a second, forty polls end the session, and thirty-nine do not. -/
theorem judged_by_streaks_thousand :
    EveryStep (next 1000) (Judged 1000) (loaded false 0) (.session false :: stuckPolls 40) ∧
      (run (next 1000) (loaded false 0) (.session false :: stuckPolls 40)).map
        Detector.sessionDead = some true ∧
      (run (next 1000) (loaded false 0) (.session false :: stuckPolls 39)).map
        Detector.sessionDead = some false :=
  ⟨judged_by_streaks 1000 (by decide) false 0 _, by decide +kernel, by decide +kernel⟩

end Detector

end RfnmDriver.Session.ArmDeath
