import RfnmDriver.Daughterboard.Registration
import RfnmDriver.Library.StepSystem

/-!
# What an applied list may change

The live channels of one direction from their registration on, written by channel lists, by the
other writers of `Side`, and read by `rfnm_dgb_tx_set` or `rfnm_dgb_rx_set`. A list carries the
limits it is checked against, and is copied over the live channels whatever its apply mask says;
`honest_iff_faithful` says which lists leave alone what they should.
-/

namespace RfnmDriver.Daughterboard

open StepSystem

variable {Ch Edit : Type}

/-- The live channels of one direction, with what the works have made of them. -/
structure Live (Ch : Type) where
  data : Data Ch
  /-- `rfnm_tx_dac_s`, or `rfnm_rx_adc_s` by index. -/
  flags : Nat → Nat

/-- One writer of the live channels at a time. -/
inductive LiveEvent (Ch Edit : Type)
  /-- The work function applies the list in the buffer. -/
  | apply (list : ChList Ch) (outcome : Outcome)
  | write (edit : Edit)
  /-- `rfnm_dgb_tx_set`, `rfnm_dgb_rx_set` on a live channel, for which the board driver returns
  this code. -/
  | set (d : Nat) (ret : Int)

/-- `rfnm_dgb_tx_set`, `rfnm_dgb_rx_set`: the stream flag follows the channel. -/
def setFlag (side : Side Ch Edit) (flags : Nat → Nat) (ch : Ch) (ret : Int) : Nat → Nat :=
  let codes := side.dir.codes
  let flag := side.flag (side.identity ch)
  if ret ≠ 0 then flags
  else if side.stream ch = codes.streamAuto then
    Function.update flags flag (if side.enable ch ≠ codes.rfOff then 1 else 0)
  else if side.stream ch = codes.streamOn then Function.update flags flag 1
  else if side.stream ch = codes.streamOff then Function.update flags flag 0
  else flags

/-- The list asks for the channel. -/
def Requested (dir : Direction Ch) (list : ChList Ch) (live : Ch) : Prop :=
  list.apply &&& 1#8 <<< dir.absId live ≠ 0#8

/-- The list asks for the channel, and its entry passes the checks. -/
def Applied (dir : Direction Ch) (data : Data Ch) (d : Nat) : Prop :=
  Requested dir data.list (data.channels d) ∧ (dir.validate (data.list.ch d)).1 = 0

instance (dir : Direction Ch) (list : ChList Ch) (live : Ch) :
    Decidable (Requested dir list live) :=
  inferInstanceAs (Decidable (_ ≠ _))

instance (dir : Direction Ch) (data : Data Ch) (d : Nat) : Decidable (Applied dir data d) :=
  inferInstanceAs (Decidable (_ ∧ _))

/-- The stream flags after the first channels of the walk. -/
def visitFlags (side : Side Ch Edit) (start : Data Ch) (devices : Nat → Int) (flags : Nat → Nat) :
    Nat → Nat → Nat
  | 0 => flags
  | d + 1 =>
      let before := visitFlags side start devices flags d
      if Applied side.dir (visitAll side.dir start devices d).1 d then
        setFlag side before ((visitAll side.dir start devices (d + 1)).1.channels d) (devices d)
      else before

/-- The work function over a board with `count` channels. -/
def applyList (side : Side Ch Edit) (count : Nat) (live : Live Ch) (list : ChList Ch)
    (outcome : Outcome) : Live Ch :=
  let start := { live.data with list := list }
  { data := application side.dir count start outcome
    flags := match outcome with
      | .gaveUp _ => live.flags
      | .walked devices _ =>
          visitFlags side (clearEcodes (clearRej start)) devices live.flags count }

/-- One step over a board with `count` channels. -/
def Live.next (side : Side Ch Edit) (count : Nat) (live : Live Ch) :
    LiveEvent Ch Edit → Option (Live Ch)
  | .apply list outcome => some (applyList side count live list outcome)
  | .write edit =>
      some { live with data :=
        { live.data with channels := side.write live.data.channels edit } }
  | .set d ret =>
      if d < count then
        some { live with flags := setFlag side live.flags (live.data.channels d) ret }
      else none

/-- The channels as the board drivers registered them, before the first list. -/
def Live.registered (boards : Boards Ch) (blank : Ch) (list : ChList Ch) : Live Ch where
  data := ⟨list, fun d => boards.walk[d]?.getD blank, fun _ => 0, fun _ => .none, 0⟩
  flags := fun _ => 0

/-! ## What a step owes the registration -/

/-- The frequency and the power or gain are within these limits. -/
def InLimits (side : Side Ch Edit) (fixed : Identity) (ch : Ch) : Prop :=
  fixed.freqMin ≤ side.freq ch ∧ side.freq ch ≤ fixed.freqMax ∧
    fixed.levelMin ≤ side.level ch ∧ side.level ch ≤ fixed.levelMax

/-- Every channel carries what registration fixed of it. -/
def Intact (side : Side Ch Edit) (registered : Nat → Identity) (live : Live Ch) : Prop :=
  ∀ d, side.identity (live.data.channels d) = registered d

/-- The indices of every channel on the boards are in range: the slot and the index of the
channel there, and the stream flag. -/
def Bounded (side : Side Ch Edit) (boards : Boards Ch) (fixed : Nat → Identity) : Prop :=
  ∀ d < boards.walk.length,
    (∃ slot : Fin 2, (fixed d).dgbId = slot ∧ (fixed d).dgbChId < (boards.on slot).length) ∧
      side.flag (fixed d) < side.flagCount

/-- An applied list leaves alone the channels it does not ask for, and what it applies is within
the limits registered for the channel. -/
def ListHonest (side : Side Ch Edit) (count : Nat) (registered : Nat → Identity)
    (live : Live Ch) (event : LiveEvent Ch Edit) (following : Live Ch) : Prop :=
  match event with
  | .apply list (.walked _ _) => ∀ d < count,
      (¬ Requested side.dir list (live.data.channels d) →
        following.data.channels d = live.data.channels d) ∧
      (Applied side.dir { live.data with list := list } d →
        InLimits side (registered d) (following.data.channels d))
  | _ => True

/-- What registration fixed stays, the indices are in range, and no stream flag beyond the last
one is written; and the applied lists are honest. -/
structure Honest (side : Side Ch Edit) (boards : Boards Ch) (registered : Nat → Identity)
    (live : Live Ch) (event : LiveEvent Ch Edit) (following : Live Ch) : Prop where
  intact : Intact side registered following
  bounded : Bounded side boards fun d => side.identity (following.data.channels d)
  flags : ∀ i, side.flagCount ≤ i → following.flags i = live.flags i
  list : ListHonest side boards.walk.length registered live event following

/-- The list repeats the live entry of every channel it does not ask for. In an entry it has
applied, it repeats what registration fixed; and where the live power or gain is taken instead of
the entry's, that one is within the limits. -/
def Faithful (side : Side Ch Edit) (count : Nat) (live : Live Ch) : LiveEvent Ch Edit → Prop
  | .apply list (.walked _ _) => ∀ d < count,
      let channel := live.data.channels d
      (¬ Requested side.dir list channel → side.dir.receive channel (list.ch d) = channel) ∧
      (Applied side.dir { live.data with list := list } d →
        side.identity (list.ch d) = side.identity channel ∧
          (side.level (side.dir.receive channel (list.ch d)) ≠ side.level (list.ch d) →
            (side.identity channel).levelMin ≤ side.level channel ∧
              side.level channel ≤ (side.identity channel).levelMax))
  | .write edit => side.KeepsLimits live.data.channels edit
  | _ => True

/-- The channels as the board drivers registered them. -/
def Side.start (side : Side Ch Edit) (enrolments : List (Enrolment side)) (blank : Ch)
    (list : ChList Ch) : Live Ch :=
  Live.registered (Boards.ofEnrolments side enrolments) blank list

/-- Every step from the registration on is honest. -/
def Side.HonestRun (side : Side Ch Edit) (enrolments : List (Enrolment side)) (blank : Ch)
    (list : ChList Ch) (events : List (LiveEvent Ch Edit)) : Prop :=
  let boards := Boards.ofEnrolments side enrolments
  EveryStep (Live.next side boards.walk.length)
    (Honest side boards fun d =>
      side.identity ((side.start enrolments blank list).data.channels d))
    (side.start enrolments blank list) events

/-- Every list and every write from the registration on is faithful. -/
def Side.FaithfulRun (side : Side Ch Edit) (enrolments : List (Enrolment side)) (blank : Ch)
    (list : ChList Ch) (events : List (LiveEvent Ch Edit)) : Prop :=
  let boards := Boards.ofEnrolments side enrolments
  Guarded (Live.next side boards.walk.length) (Faithful side boards.walk.length)
    (side.start enrolments blank list) events

instance [DecidableEq Ch] (side : Side Ch Edit)
    [∀ channels edit, Decidable (side.KeepsLimits channels edit)] (count : Nat) (live : Live Ch)
    (event : LiveEvent Ch Edit) : Decidable (Faithful side count live event) := by
  rcases event with ⟨list, ret | ⟨devices, ret⟩⟩ | edit | ⟨d, ret⟩ <;>
    unfold Faithful <;> infer_instance

instance [DecidableEq Ch] (side : Side Ch Edit)
    [∀ channels edit, Decidable (side.KeepsLimits channels edit)]
    (enrolments : List (Enrolment side)) (blank : Ch) (list : ChList Ch)
    (events : List (LiveEvent Ch Edit)) :
    Decidable (side.FaithfulRun enrolments blank list events) :=
  inferInstanceAs (Decidable (EveryStep _ _ _ _))

/-! ## What the walk leaves -/

variable {dir : Direction Ch} {side : Side Ch Edit} {start data : Data Ch}
  {live following : Live Ch} {boards : Boards Ch} {registered : Nat → Identity}

/-- What the visit of a channel leaves in its place. -/
def visited (dir : Direction Ch) (start : Data Ch) (d : Nat) : Ch :=
  if Requested dir start.list (start.channels d) ∧ ¬ Applied dir start d then start.channels d
  else dir.receive (start.channels d) (start.list.ch d)

/-- A visit writes the channel it is at, in the table and in the list, and nothing else of them. -/
theorem visit_data (dir : Direction Ch) (walk : Walk Ch) (d : Nat) (device : Int) :
    (visit dir walk d device).1.channels =
        Function.update walk.1.channels d (visited dir walk.1 d) ∧
      (∀ i, i ≠ d → (visit dir walk d device).1.list.ch i = walk.1.list.ch i) ∧
      (visit dir walk d device).1.list.apply = walk.1.list.apply := by
  obtain ⟨data, present⟩ := walk
  by_cases hrequested : Requested dir data.list (data.channels d)
  · by_cases hvalid : (dir.validate (data.list.ch d)).1 = 0
    · have happlied : Applied dir data d := ⟨hrequested, hvalid⟩
      refine ⟨?_, fun i hi => ?_, ?_⟩ <;>
        simp_all [visit, visited, Requested, Function.update_of_ne]
    · have hrejected : ¬ Applied dir data d := fun h => hvalid h.2
      refine ⟨?_, fun i hi => ?_, ?_⟩ <;> simp_all [visit, visited, Requested]
  · refine ⟨?_, fun i hi => ?_, ?_⟩ <;>
      simp_all [visit, visited, Requested, Function.update_of_ne]

/-- The walk visits each channel once, as the start of the walk has it. -/
theorem visitAll_data (dir : Direction Ch) (start : Data Ch) (devices : Nat → Int) (n : Nat) :
    (∀ d, (visitAll dir start devices n).1.channels d =
        if d < n then visited dir start d else start.channels d) ∧
      (∀ d, n ≤ d → (visitAll dir start devices n).1.list.ch d = start.list.ch d) ∧
      (visitAll dir start devices n).1.list.apply = start.list.apply := by
  induction n with
  | zero => exact ⟨fun d => by simp [visitAll], fun d _ => rfl, rfl⟩
  | succ n ih =>
      obtain ⟨hchannels, hlist, happly⟩ := ih
      obtain ⟨hwritten, hkept, hmask⟩ := visit_data dir
        (visitAll dir start devices n) n (devices n)
      -- the visits so far have neither reached this device nor touched its request
      have hlive := hchannels n
      rw [if_neg (by omega)] at hlive
      have hrequested : Requested dir (visitAll dir start devices n).1.list (start.channels n) ↔
          Requested dir start.list (start.channels n) := by
        rw [Requested, Requested, happly]
      have happlied : Applied dir (visitAll dir start devices n).1 n ↔ Applied dir start n := by
        rw [Applied, Applied, hlive, hrequested, hlist n (by omega)]
      have hsame : visited dir (visitAll dir start devices n).1 n = visited dir start n := by
        simp only [visited, hrequested, happlied, hlive, hlist n (by omega)]
      refine ⟨fun d => ?_, fun d hd => ?_, hmask.trans happly⟩
      · show (visit dir (visitAll dir start devices n) n (devices n)).1.channels d = _
        rw [hwritten, hsame]
        by_cases hd : d = n
        · subst hd
          simp
        · rw [Function.update_of_ne hd, hchannels d]
          by_cases hlt : d < n
          · rw [if_pos hlt, if_pos (by omega)]
          · rw [if_neg hlt, if_neg (by omega)]
      · show (visit dir (visitAll dir start devices n) n (devices n)).1.list.ch d = _
        rw [hkept d (by omega), hlist d (by omega)]

/-- The channels after an application. -/
theorem application_channels (dir : Direction Ch) (start : Data Ch) (count : Nat)
    (devices : Nat → Int) (ret : Int) (d : Nat) :
    (application dir count start (.walked devices ret)).channels d =
      if d < count then visited dir start d else start.channels d := by
  rw [application_walked_channels]
  exact (visitAll_data dir (clearEcodes (clearRej start)) devices count).1 d

/-- Channels fixed alike are bounded alike. -/
theorem Bounded.congr {boards : Boards Ch} {fixed other : Nat → Identity}
    (h : Bounded side boards fixed) (hsame : ∀ d, other d = fixed d) :
    Bounded side boards other := by
  rw [funext hsame]
  exact h

/-- An entry that repeats what registration fixed is copied within the limits, if the live level
that may be taken instead is. -/
theorem inLimits_visited {d : Nat} (hintact : side.identity (start.channels d) = registered d)
    (happlied : Applied side.dir start d)
    (hidentity : side.identity (start.list.ch d) = side.identity (start.channels d))
    (hlevel : side.level (side.dir.receive (start.channels d) (start.list.ch d)) ≠
        side.level (start.list.ch d) →
      (side.identity (start.channels d)).levelMin ≤ side.level (start.channels d) ∧
        side.level (start.channels d) ≤ (side.identity (start.channels d)).levelMax) :
    InLimits side (registered d) (visited side.dir start d) := by
  obtain ⟨hfreqMin, hfreqMax, hlevelMin, hlevelMax⟩ :=
    side.inLimits_of_valid (start.list.ch d) happlied.2
  rw [hidentity, hintact] at hfreqMin hfreqMax hlevelMin hlevelMax
  rw [hintact] at hlevel
  rw [visited, if_neg fun h => h.2 happlied]
  refine ⟨by rwa [side.freq_receive], by rwa [side.freq_receive], ?_⟩
  by_cases hsame : side.level (side.dir.receive (start.channels d) (start.list.ch d)) =
      side.level (start.list.ch d)
  · rw [hsame]
    exact ⟨hlevelMin, hlevelMax⟩
  · have htaken := (side.level_receive (start.channels d) (start.list.ch d)).resolve_left hsame
    rw [htaken]
    exact hlevel hsame

/-! ## The stream flags -/

/-- A channel with a stream flag writes no other. -/
theorem setFlag_beyond {flags : Nat → Nat} {ch : Ch} {i : Nat} (ret : Int)
    (hflag : side.flag (side.identity ch) < side.flagCount) (hi : side.flagCount ≤ i) :
    setFlag side flags ch ret i = flags i := by
  have hne : i ≠ side.flag (side.identity ch) := by omega
  unfold setFlag
  repeat' split
  all_goals first
    | rfl
    | exact Function.update_of_ne hne _ _

/-- If what the walk leaves has stream flags, it writes no other. -/
theorem visitFlags_beyond {flags : Nat → Nat} {i : Nat} (devices : Nat → Int) (n : Nat)
    (hflag : ∀ d < n, side.flag (side.identity (visited side.dir start d)) < side.flagCount)
    (hi : side.flagCount ≤ i) : visitFlags side start devices flags n i = flags i := by
  induction n with
  | zero => rfl
  | succ n ih =>
      have hearlier := ih fun d hd => hflag d (by omega)
      simp only [visitFlags]
      split
      · have hch := (visitAll_data side.dir start devices (n + 1)).1 n
        rw [if_pos (by omega)] at hch
        rw [hch, setFlag_beyond _ (hflag n (by omega)) hi, hearlier]
      · exact hearlier

/-! ## Faithful lists -/

/-- A faithful list keeps what registration fixed. -/
theorem identity_visited {d : Nat}
    (hkept : ¬ Requested side.dir start.list (start.channels d) →
      side.dir.receive (start.channels d) (start.list.ch d) = start.channels d)
    (hidentity : Applied side.dir start d →
      side.identity (start.list.ch d) = side.identity (start.channels d)) :
    side.identity (visited side.dir start d) = side.identity (start.channels d) := by
  unfold visited
  split
  · rfl
  case isFalse hcopied =>
    by_cases hrequested : Requested side.dir start.list (start.channels d)
    · have happlied : Applied side.dir start d := by
        by_contra hrejected
        exact hcopied ⟨hrequested, hrejected⟩
      rw [side.identity_receive, hidentity happlied]
    · rw [hkept hrequested]

/-- An application is honest exactly when its list is faithful. -/
theorem apply_honest_iff (hintact : Intact side registered live)
    (hbounded : Bounded side boards registered) (list : ChList Ch) (devices : Nat → Int)
    (ret : Int) :
    Honest side boards registered live (.apply list (.walked devices ret))
        (applyList side boards.walk.length live list (.walked devices ret)) ↔
      Faithful side boards.walk.length live (.apply list (.walked devices ret)) := by
  have hchannels := application_channels side.dir { live.data with list := list }
    boards.walk.length devices ret
  constructor
  · -- what the host sees of a device after the walk says what the walk did to it
    intro h d hd
    obtain ⟨hframe, hlimits⟩ := h.list d hd
    have hafter := hchannels d
    rw [if_pos hd] at hafter
    refine ⟨fun hrequested => ?_, fun happlied => ?_⟩
    · have hsame := hframe hrequested
      rw [applyList, hafter, visited, if_neg fun h => hrequested h.1] at hsame
      exact hsame
    · have hfollowing := h.intact d
      have hin := hlimits happlied
      rw [applyList, hafter, visited, if_neg fun h => h.2 happlied] at hfollowing hin
      rw [side.identity_receive] at hfollowing
      refine ⟨hfollowing.trans (hintact d).symm, fun htaken => ?_⟩
      have hlevel := (side.level_receive (live.data.channels d) (list.ch d)).resolve_left htaken
      obtain ⟨-, -, hmin, hmax⟩ := hin
      rw [hintact d, ← hlevel]
      exact ⟨hmin, hmax⟩
  · intro h
    have hfixed : ∀ d, side.identity ((applyList side boards.walk.length live list
        (.walked devices ret)).data.channels d) = registered d := by
      intro d
      rw [applyList, hchannels d, ← hintact d]
      by_cases hd : d < boards.walk.length
      · rw [if_pos hd]
        obtain ⟨hkept, happlied⟩ := h d hd
        exact identity_visited hkept fun hvalid => (happlied hvalid).1
      · rw [if_neg hd]
    refine ⟨hfixed, hbounded.congr hfixed, fun i hi => ?_, fun d hd => ⟨fun hrequested => ?_,
      fun happlied => ?_⟩⟩
    · refine visitFlags_beyond devices _ (fun d hd => ?_) hi
      have hafter := hfixed d
      rw [applyList, hchannels d, if_pos hd] at hafter
      exact hafter ▸ (hbounded d hd).2
    · rw [applyList, hchannels d, if_pos hd, visited, if_neg fun h => hrequested h.1]
      exact (h d hd).1 hrequested
    · rw [applyList, hchannels d, if_pos hd]
      obtain ⟨hidentity, hlevel⟩ := (h d hd).2 happlied
      exact inLimits_visited (hintact d) happlied hidentity hlevel

/-- A step from intact channels is honest exactly when its list or its write is faithful. -/
theorem next_honest_iff (hbounded : Bounded side boards registered) (live : Live Ch)
    (event : LiveEvent Ch Edit) (following : Live Ch) (hintact : Intact side registered live)
    (hnext : live.next side boards.walk.length event = some following) :
    Honest side boards registered live event following ↔
      Faithful side boards.walk.length live event := by
  have hkept : Bounded side boards fun d => side.identity (live.data.channels d) :=
    hbounded.congr hintact
  cases event with
  | apply list outcome =>
      obtain rfl := Option.some.inj hnext
      cases outcome with
      | gaveUp ret => exact ⟨fun _ => trivial, fun _ => ⟨hintact, hkept, fun _ _ => rfl, trivial⟩⟩
      | walked devices ret => exact apply_honest_iff hintact hbounded list devices ret
  | write edit =>
      obtain rfl := Option.some.inj hnext
      show _ ↔ side.KeepsLimits live.data.channels edit
      rw [← side.identity_write]
      constructor
      · intro h d
        exact (h.intact d).trans (hintact d).symm
      · intro h
        exact ⟨fun d => (h d).trans (hintact d), hkept.congr h, fun _ _ => rfl, trivial⟩
  | set d ret =>
      obtain ⟨hd, rfl⟩ := of_guard hnext
      refine ⟨fun _ => trivial, fun _ => ⟨hintact, hkept, fun i hi => ?_, trivial⟩⟩
      exact setFlag_beyond ret (hkept d hd).2 hi

/-- What the boards registered is in range. -/
theorem bounded_registered {blank : Ch} {list : ChList Ch} (hplaced : boards.Placed side) :
    Bounded side boards fun d =>
      side.identity ((Live.registered boards blank list).data.channels d) := by
  intro d hd
  have hch : (Live.registered boards blank list).data.channels d = boards.walk[d] := by
    simp [Live.registered, List.getElem?_eq_getElem hd]
  dsimp only
  rw [hch]
  exact hplaced.bounded (List.getElem_mem hd)

/-- From the registration on, every step is honest exactly when every list and every write is
faithful. -/
theorem run_honest_iff (side : Side Ch Edit) (enrolments : List (Enrolment side)) (blank : Ch)
    (list : ChList Ch) (events : List (LiveEvent Ch Edit)) :
    side.HonestRun enrolments blank list events ↔
      side.FaithfulRun enrolments blank list events :=
  everyStep_iff_guarded
    (next_honest_iff (bounded_registered (Boards.placed_ofEnrolments enrolments)))
    (fun _ _ _ _ hhonest _ => hhonest.intact) fun _ => rfl

/-- On either side, whatever the board drivers registered, channel lists and the other writers
respect it exactly as long as every list is faithful and every attribute store leaves the limits
as they are. -/
theorem honest_iff_faithful (Other : Type) (codes : Codes) (hcodes : codes.apiNotSupported ≠ 0) :
    (∀ enrolments blank list events,
      (txSide Other codes hcodes).HonestRun enrolments blank list events ↔
        (txSide Other codes hcodes).FaithfulRun enrolments blank list events) ∧
    (∀ enrolments blank list events,
      (rxSide Other codes hcodes).HonestRun enrolments blank list events ↔
        (rxSide Other codes hcodes).FaithfulRun enrolments blank list events) :=
  ⟨run_honest_iff (txSide Other codes hcodes), run_honest_iff (rxSide Other codes hcodes)⟩

/-- An RX channel as a board driver registers it, on this converter of its board. -/
def boardRx (adcId : Nat) : RxEntry Unit where
  absId := 0
  freq := 0
  freqMin := 600
  freqMax := 6300
  rficLpfBw := 0
  gain := 0
  gainMin := -40
  gainMax := 60
  rficDcQ := 0
  rficDcI := 0
  enable := 0
  stream := 1
  agc := 0
  biasTee := 0
  fmNotch := 0
  dgbId := 0
  dgbChId := 0
  adcId := adcId
  other := ()

/-- The RX side with sample codes. -/
abbrev sampleRx : Side (RxEntry Unit) (RxEdit Unit) :=
  rxSide Unit sampleCodes (by decide)

/-- One board with two RX channels. -/
def sampleEnrolments : List (Enrolment sampleRx) :=
  [⟨⟨0, Nat.two_pos⟩, boardRx 0, by decide⟩, ⟨⟨0, Nat.two_pos⟩, boardRx 1, by decide⟩]

/-- A list that repeats the two registered channels but for what it asks of the first one. -/
def tuneRx (freq freqMax : Int) (agc : Int) (adcId : Nat) : ChList (RxEntry Unit) where
  cc := 1
  apply := 0x1#8
  ch d := if d = 0 then
      { boardRx adcId with freq := freq, freqMax := freqMax, agc := agc, enable := 1, stream := 2 }
    else { boardRx 0 with absId := 1, dgbChId := 1 }

/-- Two faithful lists, with the gain loop and an attribute store between them. -/
theorem honest_iff_faithful_run :
    sampleRx.HonestRun sampleEnrolments (boardRx 0) (tuneRx 0 0 0 0)
      [.apply (tuneRx 900 6300 1 1) (.walked (fun _ => 0) 0), .write (.gain 0 75), .set 0 0,
        .write (.store 0 (.freq 800)), .apply (tuneRx 5000 6300 1 1) (.walked (fun _ => 0) 0)] :=
  ((honest_iff_faithful Unit sampleCodes (by decide)).2 sampleEnrolments (boardRx 0)
    (tuneRx 0 0 0 0) _).mpr (by decide)

/-- A list raises the upper limit of the first channel in the same entry that tunes it beyond the
registered one, and with it comes a converter that no stream flag belongs to. The second channel
keeps what it had only because the list happens to repeat it. -/
theorem list_overrides_registration :
    ¬ sampleRx.HonestRun sampleEnrolments (boardRx 0) (tuneRx 0 0 0 0)
      [.apply (tuneRx 7000 9000 0 200) (.walked (fun _ => 0) 0)] := by
  intro h
  have hidentity := (h _ rfl).1.intact 0
  revert hidentity
  decide

end RfnmDriver.Daughterboard
