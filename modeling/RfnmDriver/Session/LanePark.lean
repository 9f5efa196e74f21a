import RfnmDriver.Daughterboard.ChannelTypes
import RfnmDriver.Library.StepSystem
import RfnmDriver.Library.WrapClock

/-!
# Parked lanes

The firmware counts the lanes it parks since the stream started, and `rfnm_handler_in` compares the
count with the one of its last pass. That one outlives the stream: a new stream that has come to the
same count looks like a pass in which nothing happened. And which of its two rules a pass goes by is
decided by the pattern armed at the pass, not at the park. `parkFaults_iff_heard` says at which
passes the detector does its work.
-/

namespace RfnmDriver.Session.LanePark

open StepSystem WrapClock

/-- The enables of a registered daughterboard's channels. -/
structure Dgb where
  rxCh : List ChEnable
  txCh : List ChEnable
  deriving DecidableEq, Repr

/-- `rfnm_dgb_tdd_ch_present`, over the two slots. -/
def tddChPresent (dgb : List (Option Dgb)) : Bool :=
  dgb.any fun dgb? => dgb?.any fun dgb =>
    dgb.rxCh.any (· = .rfOnTdd) || dgb.txCh.any (· = .rfOnTdd)

/-- The reason given to `rfnm_session_fault`. -/
inductive ParkFault
  /-- "rx lane park". -/
  | lanePark
  /-- "rx lane quiet-parked under pattern". -/
  | quietParked
  deriving DecidableEq, Repr

/-- What the code does not keep, but statements about its runs speak of. -/
structure History where
  /-- The parks since the stream started. -/
  parks : Nat
  /-- One of them came with no pattern armed and after the last pass. -/
  bare : Bool
  /-- When the last of them came, and whether a pattern was armed. -/
  last : Option (Nat × Bool)
  /-- A pass has raised a fault since. -/
  answered : Bool
  /-- The parks the last pass found, of the stream of that time. -/
  found : Nat
  deriving DecidableEq, Repr

/-- The detector and what it reads. -/
structure Watch where
  /-- `rx_regate_cnt` of the firmware's status. -/
  rxRegateCnt : BitVec 32
  parkSeen : BitVec 32
  parkLastChange : BitVec 64
  jiffies : Nat
  /-- The boards behind `rfnm_tdd_ch_present_cb`, if it is set. -/
  dgb : Option (List (Option Dgb))
  /-- `rfnm_session_dead`. -/
  sessionDead : Bool
  /-- `rfnm_stat_session_faults`. -/
  statSessionFaults : BitVec 32
  history : History
  deriving DecidableEq, Repr

/-- One step. -/
inductive Event
  /-- A stream starts. -/
  | streamStart
  /-- The firmware parks a lane. -/
  | park
  /-- The channels get other enables, which arms or disarms a pattern; or the callback is set or
  cleared. -/
  | channels (dgb : Option (List (Option Dgb)))
  /-- Time passes. -/
  | wait (jiffies : Nat)
  /-- A pass of `rfnm_handler_in`. -/
  | pass
  /-- `rfnm_restart_sm` clears `rfnm_session_dead`. -/
  | reopen
  deriving DecidableEq, Repr

/-- Nothing parked, nothing seen. -/
def Watch.init (jiffies : Nat) (dgb : Option (List (Option Dgb))) : Watch where
  rxRegateCnt := 0
  parkSeen := 0
  parkLastChange := 0
  jiffies := jiffies
  dgb := dgb
  sessionDead := false
  statSessionFaults := 0
  history := ⟨0, false, none, false, 0⟩

namespace Watch

variable (hz : Nat) (watch : Watch)

/-- `pattern`. -/
def pattern : Bool :=
  watch.dgb.any tddChPresent

/-- `jiffies`. -/
def now : BitVec 64 :=
  BitVec.ofNat 64 watch.jiffies

/-! ## A pass -/

/-- `rfnm_session_fault`. -/
def sessionFault : Watch :=
  if watch.sessionDead then watch
  else { watch with
    sessionDead := true
    statSessionFaults := watch.statSessionFaults + 1 }

/-- `time_after(jiffies, park_last_change + HZ)`. -/
def quiet : Bool :=
  later watch.now (watch.parkLastChange + BitVec.ofNat 64 hz)

/-- The park block of `rfnm_handler_in`, and the fault it raises. -/
def pass : Watch × Option ParkFault :=
  let rc := watch.rxRegateCnt
  if rc ≠ 0 ∧ rc ≠ watch.parkSeen then
    let seen := { watch with parkSeen := rc, parkLastChange := watch.now }
    if watch.pattern then (seen, none) else (seen.sessionFault, some .lanePark)
  else if rc ≠ 0 ∧ watch.pattern ∧ watch.quiet hz then
    ({ watch with parkLastChange := watch.now }.sessionFault, some .quietParked)
  else if rc = 0 then ({ watch with parkSeen := 0 }, none)
  else (watch, none)

/-- The pass, written down. -/
def recordPass : Watch :=
  let (passed, fault) := watch.pass hz
  { passed with
    history := { watch.history with
      bare := false
      answered := watch.history.answered || fault.isSome
      found := watch.history.parks } }

/-! ## Steps -/

/-- A stream start zeroes the firmware's counter. -/
def streamStart : Watch :=
  { watch with
    rxRegateCnt := 0
    history := { watch.history with parks := 0, bare := false, last := none, answered := false } }

/-- A park increments it. -/
def park : Watch :=
  { watch with
    rxRegateCnt := watch.rxRegateCnt + 1
    history := { watch.history with
      parks := watch.history.parks + 1
      bare := watch.history.bare || !watch.pattern
      last := some (watch.jiffies, watch.pattern)
      answered := false } }

/-- One step. -/
def next : Event → Option Watch
  | .streamStart => some watch.streamStart
  | .park => some watch.park
  | .channels dgb => some { watch with dgb := dgb }
  | .wait jiffies => some { watch with jiffies := watch.jiffies + jiffies }
  | .pass => some (watch.recordPass hz)
  | .reopen => some { watch with sessionDead := false }

/-! ## The property and the condition -/

/-- A park of this stream came with no pattern armed and no pass since. -/
def BareDue : Prop :=
  watch.history.bare = true

/-- The last park of this stream came under an armed pattern more than a second ago, and has raised
nothing. -/
def QuietDue : Prop :=
  ∃ last ∈ watch.history.last, last.2 = true ∧ last.1 + hz < watch.jiffies ∧
    watch.history.answered = false

instance : Decidable watch.BareDue :=
  inferInstanceAs (Decidable (_ = _))

instance : Decidable (watch.QuietDue hz) :=
  inferInstanceAs (Decidable (∃ _ ∈ watch.history.last, _))

/-- A pass at which a park is due raises a session fault, and the session is dead behind it; one in
a stream without a park raises none. -/
def ParkFaults (watch : Watch) (event : Event) (following : Watch) : Prop :=
  match event with
  | .pass =>
      (watch.BareDue ∨ watch.QuietDue hz →
        (watch.pass hz).2.isSome = true ∧ following.sessionDead = true) ∧
      (watch.history.parks = 0 → (watch.pass hz).2 = none)
  | _ => True

/-- When a park is due, the parks of the stream, counted in 32 bits, are not back at zero; and either
they are not as many as the last pass found and no pattern is armed now, or they are, under a pattern
armed now and more than a second after they last changed. -/
def Heard (watch : Watch) (event : Event) : Prop :=
  match event with
  | .pass =>
      watch.BareDue ∨ watch.QuietDue hz →
        watch.history.parks % 2 ^ 32 ≠ 0 ∧
          if watch.history.parks % 2 ^ 32 = watch.history.found % 2 ^ 32 then
            watch.pattern = true ∧ watch.quiet hz = true
          else watch.pattern = false
  | _ => True

/-! ## What a pass does -/

variable {hz watch} {following : Watch} {event : Event}

/-- A raised fault leaves the session dead, and the detector's words as they were. -/
theorem sessionFault_spec (watch : Watch) :
    watch.sessionFault.sessionDead = true ∧ watch.sessionFault.parkSeen = watch.parkSeen ∧
      watch.sessionFault.rxRegateCnt = watch.rxRegateCnt := by
  unfold sessionFault
  split
  · next hdead => exact ⟨hdead, rfl, rfl⟩
  · exact ⟨rfl, rfl, rfl⟩

/-- The pass by the count: at zero it forgets; a count it has not seen it remembers, and takes for a
fault if no pattern is armed; the one it has seen is a fault under a pattern, after a second. -/
theorem pass_cases (hz : Nat) (watch : Watch) :
    (watch.rxRegateCnt = 0 ∧ watch.pass hz = ({ watch with parkSeen := 0 }, none)) ∨
    (watch.rxRegateCnt ≠ 0 ∧ watch.rxRegateCnt ≠ watch.parkSeen ∧
      ((watch.pattern = true ∧ watch.pass hz =
          ({ watch with parkSeen := watch.rxRegateCnt, parkLastChange := watch.now }, none)) ∨
        (watch.pattern = false ∧ watch.pass hz =
          ({ watch with
              parkSeen := watch.rxRegateCnt
              parkLastChange := watch.now }.sessionFault, some .lanePark)))) ∨
    (watch.rxRegateCnt ≠ 0 ∧ watch.rxRegateCnt = watch.parkSeen ∧
      (((watch.pattern = true ∧ watch.quiet hz = true) ∧ watch.pass hz =
          ({ watch with parkLastChange := watch.now }.sessionFault, some .quietParked)) ∨
        (¬(watch.pattern = true ∧ watch.quiet hz = true) ∧ watch.pass hz = (watch, none)))) := by
  unfold pass
  simp only
  by_cases hzero : watch.rxRegateCnt = 0
  · rw [if_neg (fun h => h.1 hzero), if_neg (fun h => h.1 hzero), if_pos hzero]
    exact .inl ⟨hzero, rfl⟩
  · by_cases hseen : watch.rxRegateCnt = watch.parkSeen
    · rw [if_neg (fun h => h.2 hseen)]
      by_cases hquiet : watch.pattern = true ∧ watch.quiet hz = true
      · rw [if_pos ⟨hzero, hquiet⟩]
        exact .inr (.inr ⟨hzero, hseen, .inl ⟨hquiet, rfl⟩⟩)
      · rw [if_neg (fun h => hquiet h.2), if_neg hzero]
        exact .inr (.inr ⟨hzero, hseen, .inr ⟨hquiet, rfl⟩⟩)
    · rw [if_pos ⟨hzero, hseen⟩]
      cases hpattern : watch.pattern
      · exact .inr (.inl ⟨hzero, hseen, .inr ⟨rfl, rfl⟩⟩)
      · exact .inr (.inl ⟨hzero, hseen, .inl ⟨rfl, rfl⟩⟩)

/-- When a pass raises a fault. -/
theorem pass_isSome (hz : Nat) (watch : Watch) :
    (watch.pass hz).2.isSome = true ↔ watch.rxRegateCnt ≠ 0 ∧
      if watch.rxRegateCnt = watch.parkSeen then watch.pattern = true ∧ watch.quiet hz = true
      else watch.pattern = false := by
  obtain ⟨hzero, hpass⟩ | ⟨hzero, hseen, ⟨hpattern, hpass⟩ | ⟨hpattern, hpass⟩⟩ |
    ⟨hzero, hseen, ⟨hquiet, hpass⟩ | ⟨hquiet, hpass⟩⟩ := pass_cases hz watch
  · rw [hpass]
    exact iff_of_false Bool.false_ne_true fun h => h.1 hzero
  · rw [hpass, if_neg hseen, hpattern]
    exact iff_of_false Bool.false_ne_true fun h => Bool.noConfusion h.2
  · rw [hpass, if_neg hseen]
    exact iff_of_true rfl ⟨hzero, hpattern⟩
  · rw [hpass, if_pos hseen]
    exact iff_of_true rfl ⟨hzero, hquiet⟩
  · rw [hpass, if_pos hseen]
    exact iff_of_false Bool.false_ne_true fun h => hquiet h.2

/-- A pass leaves the count in `park_seen`, whichever way it goes, and the session dead if it
raises a fault. -/
theorem pass_spec (hz : Nat) (watch : Watch) :
    (watch.pass hz).1.rxRegateCnt = watch.rxRegateCnt ∧
      (watch.pass hz).1.parkSeen = watch.rxRegateCnt ∧
      ((watch.pass hz).2.isSome = true → (watch.pass hz).1.sessionDead = true) := by
  obtain ⟨hzero, hpass⟩ | ⟨-, -, ⟨-, hpass⟩ | ⟨-, hpass⟩⟩ |
    ⟨-, hseen, ⟨-, hpass⟩ | ⟨-, hpass⟩⟩ := pass_cases hz watch
  · rw [hpass]
    exact ⟨rfl, hzero.symm, fun h => Bool.noConfusion h⟩
  · rw [hpass]
    exact ⟨rfl, rfl, fun h => Bool.noConfusion h⟩
  · obtain ⟨hdead, hparkSeen, hcount⟩ := sessionFault_spec
      { watch with parkSeen := watch.rxRegateCnt, parkLastChange := watch.now }
    rw [hpass]
    exact ⟨hcount, hparkSeen, fun _ => hdead⟩
  · obtain ⟨hdead, hparkSeen, hcount⟩ := sessionFault_spec
      { watch with parkLastChange := watch.now }
    rw [hpass]
    exact ⟨hcount, hparkSeen.trans hseen.symm, fun _ => hdead⟩
  · rw [hpass]
    exact ⟨rfl, hseen.symm, fun h => Bool.noConfusion h⟩

/-! ## The counts -/

/-- The firmware's counter has the parks of the stream, and `park_seen` those the last pass found,
in 32 bits each. -/
structure Inv (watch : Watch) : Prop where
  count : watch.rxRegateCnt = BitVec.ofNat 32 watch.history.parks
  seen : watch.parkSeen = BitVec.ofNat 32 watch.history.found

theorem init_inv (jiffies : Nat) (dgb : Option (List (Option Dgb))) :
    (init jiffies dgb).Inv :=
  ⟨rfl, rfl⟩

/-- Every step keeps the counts. -/
theorem Inv.next (h : watch.Inv) (hnext : watch.next hz event = some following) :
    following.Inv := by
  obtain ⟨hcount, hseen⟩ := h
  cases event with
  | streamStart =>
      obtain rfl := Option.some.inj hnext
      exact ⟨rfl, hseen⟩
  | park =>
      obtain rfl := Option.some.inj hnext
      refine ⟨?_, hseen⟩
      show watch.rxRegateCnt + 1 = BitVec.ofNat 32 (watch.history.parks + 1)
      rw [hcount, BitVec.ofNat_add]
      rfl
  | pass =>
      obtain rfl := Option.some.inj hnext
      obtain ⟨hsame, hlatched, -⟩ := pass_spec hz watch
      exact ⟨hsame.trans hcount, hlatched.trans hcount⟩
  | channels dgb | wait jiffies | reopen =>
      obtain rfl := Option.some.inj hnext
      exact ⟨hcount, hseen⟩

/-- The counts, compared in 32 bits. -/
theorem ofNat_eq_iff (first second : Nat) :
    BitVec.ofNat 32 first = BitVec.ofNat 32 second ↔ first % 2 ^ 32 = second % 2 ^ 32 := by
  rw [← BitVec.toNat_inj, BitVec.toNat_ofNat, BitVec.toNat_ofNat]

/-- By the counts, a pass raises a fault exactly when it hears. -/
theorem Inv.isSome_iff (h : watch.Inv) (hz : Nat) :
    (watch.pass hz).2.isSome = true ↔ watch.history.parks % 2 ^ 32 ≠ 0 ∧
      if watch.history.parks % 2 ^ 32 = watch.history.found % 2 ^ 32 then
        watch.pattern = true ∧ watch.quiet hz = true
      else watch.pattern = false := by
  have hzero : watch.rxRegateCnt ≠ 0 ↔ watch.history.parks % 2 ^ 32 ≠ 0 := by
    rw [h.count]
    exact not_congr (ofNat_eq_iff _ 0)
  have hseen : watch.rxRegateCnt = watch.parkSeen ↔
      watch.history.parks % 2 ^ 32 = watch.history.found % 2 ^ 32 := by
    rw [h.count, h.seen]
    exact ofNat_eq_iff _ _
  rw [pass_isSome]
  exact and_congr hzero (if_congr hseen rfl rfl ▸ Iff.rfl)

/-- Where the counts are kept, a pass does its work exactly when it hears what is due. -/
theorem Inv.parkFaults_iff (h : watch.Inv) (hnext : watch.next hz event = some following) :
    ParkFaults hz watch event following ↔ Heard hz watch event := by
  cases event with
  | pass =>
      obtain rfl := Option.some.inj hnext
      have hdead := (pass_spec hz watch).2.2
      have hheard := h.isSome_iff hz
      have hnone : watch.history.parks = 0 → (watch.pass hz).2 = none := by
        intro hparks
        rw [← Option.not_isSome_iff_eq_none, hheard, hparks]
        exact fun hcount => hcount.1 rfl
      constructor
      · rintro ⟨hdue, -⟩ hpark
        exact hheard.mp (hdue hpark).1
      · intro hdue
        refine ⟨fun hpark => ?_, hnone⟩
        have hraised := hheard.mpr (hdue hpark)
        exact ⟨hraised, hdead hraised⟩
  | _ => exact Iff.rfl

/-- In every run of stream starts, parks, changes of the channels, waits, reopens and passes, every
pass at which a park is due raises a session fault, and none does in a stream without a park, exactly
when every pass hears what is due. -/
theorem parkFaults_iff_heard (hz jiffies : Nat) (dgb : Option (List (Option Dgb)))
    (events : List Event) :
    EveryStep (next hz) (ParkFaults hz) (init jiffies dgb) events ↔
      Guarded (next hz) (Heard hz) (init jiffies dgb) events :=
  everyStep_iff_guarded (fun _ _ _ h hnext => h.parkFaults_iff hnext)
    (fun _ _ _ h _ hnext => h.next hnext) (init_inv jiffies dgb)

/-- A board whose receive channel runs a pattern. -/
def armed : Option (List (Option Dgb)) :=
  some [some ⟨[.rfOnTdd], [.rfOff]⟩]

/-- Two streams with a park each, the second restarted and parked between two passes; and a park
under a pattern that is disarmed behind it. Neither second pass raises a fault. -/
theorem parks_missed :
    ¬ EveryStep (next 250) (ParkFaults 250) (init 0 none)
        [.streamStart, .park, .pass, .reopen, .streamStart, .park, .pass] ∧
      ¬ EveryStep (next 250) (ParkFaults 250) (init 0 armed)
        [.streamStart, .park, .pass, .channels none, .wait 1000, .pass] := by
  constructor
  · intro h
    obtain ⟨-, hstarted⟩ := h _ rfl
    obtain ⟨-, hparked⟩ := hstarted _ rfl
    obtain ⟨-, hpassed⟩ := hparked _ rfl
    obtain ⟨-, hreopened⟩ := hpassed _ rfl
    obtain ⟨-, hrestarted⟩ := hreopened _ rfl
    obtain ⟨-, hagain⟩ := hrestarted _ rfl
    obtain ⟨⟨hdue, -⟩, -⟩ := hagain _ rfl
    exact absurd (hdue (.inl rfl)).1 (by decide)
  · intro h
    obtain ⟨-, hstarted⟩ := h _ rfl
    obtain ⟨-, hparked⟩ := hstarted _ rfl
    obtain ⟨-, hpassed⟩ := hparked _ rfl
    obtain ⟨-, hdisarmed⟩ := hpassed _ rfl
    obtain ⟨-, hwaited⟩ := hdisarmed _ rfl
    obtain ⟨⟨hdue, -⟩, -⟩ := hwaited _ rfl
    exact absurd (hdue (.inr ⟨_, rfl, rfl, by decide, rfl⟩)).1 (by decide)

end Watch

end RfnmDriver.Session.LanePark
