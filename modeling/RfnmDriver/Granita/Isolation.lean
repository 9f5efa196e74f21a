import RfnmDriver.Granita.FrontEnd
import RfnmDriver.Library.StepSystem

/-!
# Two receivers on the Granita board

RX applies of both receivers, each on the antenna of its own port and switched on. `LaneRight` says
that a receiver still has what its own apply asked for: its latch bits, its gain in the chip, and
the down-converter out of reset if it is below 600 MHz. The receivers share the chip, the reset of
the down-converter and, by a slip, two of its latch functions; `always_isolated_iff` says which
applies keep both right.
-/

namespace RfnmDriver.Granita

open RegisterFile RefusableCalls StepSystem

/-! ## Gains in the chip -/

/-- The bit of a receiver in the path masks of the chip. -/
def Lane.mask (lane : Lane) : Nat := if lane = .a then siapiPathA else siapiPathB

/-- The gain a call sets for a receiver: `SiAPIRXGAIN` sets the named paths and no others. -/
def SiCall.gainFor (lane : Lane) : SiCall → Option Int
  | .rxGain mask gain => if mask &&& lane.mask = 0 then none else some gain
  | _ => none

/-- The gain of a receiver, which is `unset` until a call sets it. -/
def SiCore.gain (unset : Lane → Int) (core : SiCore) (lane : Lane) : Int :=
  (core.calls.findSome? (SiCall.gainFor lane)).getD (unset lane)

/-! ## Applies -/

/-- What a receiver asks of the latches. -/
def demands (lane : Lane) (ch : RxCh) : List Srb :=
  antWrites lane ch.gain ++ (onLane lane (filters (mhz ch.freq)) ++
    if ch.freq < rffcFreq then
      (if lane = .a then granita0RffcRxA else granita0RffcRxB) ++ onLane lane
        (if ch.rficLpfBw ≠ 0 ∧ ch.rficLpfBw ≤ 2 then rffc_1574_1576
        else if ch.rficLpfBw ≠ 0 ∧ ch.rficLpfBw ≤ 30 then rffc_1574_1605
        else rffc_1166_1229)
    else [])

/-- The board with its latches and the reset pin of the down-converter. -/
structure Receivers where
  board : Board
  fe : Fe
  /-- `RFNM_RFFC_RST` is high. -/
  rffcRunning : Bool

/-- An RX apply with the chip's answers. -/
structure RxApply where
  lane : Lane
  ch : RxCh
  answers : List Bool

/-- The apply is on the antenna of its port and switches the receiver on. -/
def RxApply.Own (apply : RxApply) : Prop :=
  apply.ch.path = (if apply.lane = .a then .smaA else .smaB) ∧ apply.ch.enable = .rfOn

instance (apply : RxApply) : Decidable apply.Own := inferInstanceAs (Decidable (_ ∧ _))

namespace Receivers

variable (unset : Lane → Int) (state : Receivers)

/-- `rfnm_rx_ch_set`, where it succeeds. -/
def next (apply : RxApply) : Option Receivers :=
  if apply.Own ∧ (state.board.rxSet apply.lane apply.ch apply.answers).2 = true then
    some
      { board := (state.board.rxSet apply.lane apply.ch apply.answers).1
        fe := store state.fe (rxWrites apply.lane apply.ch)
        rffcRunning := decide (apply.ch.freq < rffcFreq) }
  else none

/-- After the probe, with the pin as it is. -/
def probed (hasTx rffcRunning : Bool) : Receivers := ⟨.probed hasTx, fun _ => false, rffcRunning⟩

/-- The receiver is on. -/
def On (lane : Lane) : Prop := (state.board.rxS lane).enable = .rfOn

instance (lane : Lane) : Decidable (state.On lane) := inferInstanceAs (Decidable (_ = _))

/-- The receiver has what its last apply asked for. -/
structure LaneRight (lane : Lane) : Prop where
  bits : Settled state.fe (demands lane (state.board.rxS lane))
  gain : state.board.core.gain unset lane = Board.stagedDbm lane (state.board.rxS lane)
  running : (state.board.rxS lane).freq < rffcFreq → state.rffcRunning = true

/-- Both receivers are right, as far as they are on. -/
def Isolated : Prop := ∀ lane, state.On lane → state.LaneRight unset lane

/-- The applies that keep both receivers right. -/
structure Keeps (apply : RxApply) : Prop where
  /-- Not the function that writes the bits of the other receiver. -/
  bits : ¬ (apply.lane = .b ∧ apply.ch.freq < rffcFreq ∧ WideNavBand apply.ch.rficLpfBw)
  /-- A gain that is written is within the cap, and right for the other receiver as well. -/
  gain : 0 < Board.stagedDbm apply.lane apply.ch → Board.stagedDbm apply.lane apply.ch ≤ 64 ∧
    (state.On apply.lane.rev →
      Board.stagedDbm apply.lane.rev (state.board.rxS apply.lane.rev) =
        Board.stagedDbm apply.lane apply.ch)
  /-- A gain that is not written is there already. -/
  unwritten : Board.stagedDbm apply.lane apply.ch ≤ 0 →
    state.board.core.gain unset apply.lane = Board.stagedDbm apply.lane apply.ch
  /-- The down-converter is not taken from the other receiver. -/
  running : rffcFreq ≤ apply.ch.freq → state.On apply.lane.rev →
    rffcFreq ≤ (state.board.rxS apply.lane.rev).freq

/-- What else a run keeps: no write of the source gives the second receiver both of these bits. -/
def Unreached : Prop := ¬ (state.fe (.b, .fcFo1) = true ∧ state.fe (.b, .fcFo2) = true)

end Receivers

/-! ## Latch bits -/

variable {lane : Lane} {ch : RxCh} {fe : Fe}

theorem driven_onLane {bit : LatchBit} {bits : List (LaneBit × Bool)}
    (h : bit ∈ driven (onLane lane bits)) : bit.1 = lane := by
  simp only [driven, onLane, List.map_map, List.mem_map] at h
  obtain ⟨named, -, rfl⟩ := h
  rfl

/-- What the attenuator of a port takes, of its own receiver. -/
theorem exists_antWrites (lane : Lane) (gain : Int) :
    ∃ bits, antWrites lane gain = onLane lane bits := by
  unfold antWrites
  obtain rfl | rfl := lane.eq_a_or_b
  all_goals split
  all_goals first
    | exact ⟨_, rfl⟩
    | split <;> exact ⟨_, rfl⟩

/-- What a receiver asks for is its own bits. -/
theorem driven_demands {bit : LatchBit} (h : bit ∈ driven (demands lane ch)) : bit.1 = lane := by
  obtain ⟨bits, hant⟩ := exists_antWrites lane ch.gain
  unfold demands at h
  rw [hant, driven_append, driven_append] at h
  obtain h | h | h := List.mem_append.mp h |>.imp_right List.mem_append.mp
  · exact driven_onLane h
  · exact driven_onLane h
  · split at h
    · rw [driven_append] at h
      obtain h | h := List.mem_append.mp h
      · obtain rfl | rfl := lane.eq_a_or_b
        · exact driven_onLane h
        · exact driven_onLane h
      · exact driven_onLane h
    · cases h

/-- But for one function the writes are what the receiver asks for. -/
theorem rxWrites_eq (h : ¬ (lane = .b ∧ ch.freq < rffcFreq ∧ WideNavBand ch.rficLpfBw)) :
    rxWrites lane ch = demands lane ch := by
  have hfilters : (if lane = .a then granita0Fa (mhz ch.freq) else granita0Fb (mhz ch.freq)) =
      onLane lane (filters (mhz ch.freq)) := by
    obtain rfl | rfl := lane.eq_a_or_b <;> rfl
  unfold rxWrites demands
  rw [hfilters]
  congr 2
  split
  case isTrue hlow =>
    unfold rffcWrites
    obtain rfl | rfl := lane.eq_a_or_b
    · rw [if_pos rfl, if_pos rfl]
      split
      · rfl
      · split <;> rfl
    · have hnarrow : ¬ WideNavBand ch.rficLpfBw := fun hwide => h ⟨rfl, hlow, hwide⟩
      have hother : Lane.b ≠ Lane.a := by decide
      rw [if_neg hother, if_neg hother]
      split
      · rfl
      case isFalse hwide =>
        have hrest : ¬ (ch.rficLpfBw ≠ 0 ∧ ch.rficLpfBw ≤ 30) := fun hmiddle =>
          hnarrow ⟨hmiddle.1, not_le.mp fun hle => hwide ⟨hmiddle.1, hle⟩, hmiddle.2⟩
        rw [if_neg hrest, if_neg hrest]
        rfl
  case isFalse => rfl

/-- The outputs of the filters around the down-converter. -/
def outerFilters : List LaneBit := [.fcFo1, .fcFo2]

theorem eq_of_mem_outerFilters {name : LaneBit} (h : name ∈ outerFilters) :
    name = .fcFo1 ∨ name = .fcFo2 := by
  simpa [outerFilters] using h

theorem not_driven_filters {name : LaneBit} (hname : name ∈ outerFilters) (freq : Nat) :
    name ∉ driven (filters freq) := by
  obtain rfl | rfl := eq_of_mem_outerFilters hname
  all_goals
    unfold filters
    split_ifs <;> decide

theorem not_driven_onLane {name : LaneBit} {bits : List (LaneBit × Bool)}
    (h : name ∉ driven bits) (other : Lane) : (other, name) ∉ driven (onLane lane bits) := by
  intro hdriven
  simp only [driven, onLane, List.map_map, List.mem_map] at hdriven
  obtain ⟨bit, hmem, heq⟩ := hdriven
  exact h (List.mem_map.mpr ⟨bit, hmem, (Prod.mk.inj heq).2⟩)

theorem not_driven_antWrites {name : LaneBit} (hname : name ∈ outerFilters) (other : Lane)
    (gain : Int) : (other, name) ∉ driven (antWrites lane gain) := by
  unfold antWrites
  obtain rfl | rfl := eq_of_mem_outerFilters hname
  all_goals split_ifs <;> exact not_driven_onLane (by decide) other

/-- Above 600 MHz an apply leaves the outer filters. -/
theorem store_outer_high {name : LaneBit} (hname : name ∈ outerFilters) (hfreq : rffcFreq ≤ ch.freq)
    (other : Lane) : store fe (demands lane ch) (other, name) = fe (other, name) := by
  refine store_of_not_driven ?_
  unfold demands
  rw [if_neg (not_lt.mpr hfreq), driven_append, driven_append]
  simp only [List.mem_append, not_or]
  exact ⟨not_driven_antWrites hname other _, not_driven_onLane (not_driven_filters hname _) other,
    List.not_mem_nil⟩

/-- Below, the filter of the bandwidth decides them. -/
theorem store_outer_low {name : LaneBit} (hname : name ∈ outerFilters)
    (hfreq : ch.freq < rffcFreq) :
    store fe (demands lane ch) (lane, name) =
      store fe (onLane lane
        (if ch.rficLpfBw ≠ 0 ∧ ch.rficLpfBw ≤ 2 then rffc_1574_1576
        else if ch.rficLpfBw ≠ 0 ∧ ch.rficLpfBw ≤ 30 then rffc_1574_1605
        else rffc_1166_1229)) (lane, name) := by
  have hdriven : ∀ bits ∈ [rffc_1574_1576, rffc_1574_1605, rffc_1166_1229],
      (lane, name) ∈ driven (onLane lane bits) := by
    obtain rfl | rfl := eq_of_mem_outerFilters hname
    all_goals obtain rfl | rfl := lane.eq_a_or_b <;> decide
  unfold demands
  rw [if_pos hfreq, ← List.append_assoc, ← List.append_assoc, store_append_of_driven]
  split_ifs <;> exact hdriven _ (by simp)

/-- The widest of these filters, which the slip takes from the second receiver. -/
theorem wide_reached {name : LaneBit} (hname : name ∈ outerFilters) (hlow : ch.freq < rffcFreq)
    (hwide : WideNavBand ch.rficLpfBw)
    (hbits : Settled (store fe (rxWrites .b ch)) (demands .b ch)) : fe (.b, name) = true := by
  have hnarrow : ¬ (ch.rficLpfBw ≠ 0 ∧ ch.rficLpfBw ≤ 2) := fun h =>
    absurd h.2 (not_le.mpr hwide.2.1)
  have hleft : store fe (rxWrites .b ch) (.b, name) = fe (.b, name) := by
    have hother : Lane.b ≠ Lane.a := by decide
    refine store_of_not_driven ?_
    unfold rxWrites rffcWrites
    rw [if_pos hlow, if_neg hother, if_neg hother, if_neg hnarrow, if_pos ⟨hwide.1, hwide.2.2⟩]
    simp only [driven_append, List.mem_append, not_or]
    refine ⟨not_driven_antWrites hname _ _, not_driven_onLane (not_driven_filters hname _) _, ?_⟩
    obtain rfl | rfl := eq_of_mem_outerFilters hname
    all_goals decide
  have hvalue (file : Fe) : store file (demands .b ch) (.b, name) = true := by
    rw [store_outer_low hname hlow, if_neg hnarrow, if_pos ⟨hwide.1, hwide.2.2⟩]
    obtain rfl | rfl := eq_of_mem_outerFilters hname
    all_goals simp [store, rffc_1574_1605, onLane]
  by_cases hdriven : (Lane.b, name) ∈ driven (demands .b ch)
  · rw [← hleft, ← hbits _ hdriven, hvalue]
  · exact (store_of_not_driven hdriven).symm.trans (hvalue fe)

/-! ## The chip -/

section Chip

variable {unset : Lane → Int} {core : SiCore} {board : Board} {answers : List Bool}

theorem gain_cons_rxGain (mask : Nat) (gain : Int) :
    SiCore.gain unset ⟨.rxGain mask gain :: core.calls⟩ lane =
      if mask &&& lane.mask = 0 then core.gain unset lane else gain := by
  unfold SiCore.gain
  rw [List.findSome?_cons]
  by_cases h : mask &&& lane.mask = 0 <;> simp [SiCall.gainFor, h]

theorem gain_cons_powerUpRx (mask khz lpf : Nat) :
    SiCore.gain unset ⟨.powerUpRx mask khz lpf :: core.calls⟩ lane = core.gain unset lane := rfl

/-- The chip after an apply that succeeded. -/
def tuned (board : Board) (lane : Lane) (ch : RxCh) : SiCore :=
  let powered : SiCore :=
    ⟨.powerUpRx (board.apiId lane) (khz (Board.chipFreq ch)) (iqLpf ch.rficLpfBw) ::
      board.core.calls⟩
  if 0 < Board.stagedDbm lane ch then
    ⟨.rxGain (board.apiId lane) (min (Board.stagedDbm lane ch) 64) :: powered.calls⟩
  else powered

theorem meets_si {made : SiCall} {post : Unit → SiCore → Prop}
    (h : post () ⟨made :: core.calls⟩) : Meets (si made) post (fun _ => True) core :=
  meets_call (fun _ hreached => by obtain rfl := Option.some.inj hreached; exact h) trivial

/-- The calls of an apply on the antenna of its port. -/
theorem meets_rxCalls (hloopback : ch.path ≠ .loopback) (hon : ch.enable = .rfOn) :
    Meets (board.rxCalls lane ch) (fun _ core => core = tuned board lane ch) (fun _ => True)
      board.core := by
  have hcalls : (ch.path ≠ .loopback && ch.enable ≠ .rfOnTdd) = true := by
    simp [hloopback, hon]
  unfold Board.rxCalls
  refine meets_bind (meets_onlyIf (fun _ => ?_) fun hnot =>
    Bool.noConfusion (hcalls.symm.trans hnot))
  refine meets_bind (meets_si (meets_onlyIf (fun hgain => meets_si ?_) fun hgain => ?_))
  · refine meets_onlyIf (fun htdd => absurd htdd (by simp [hon])) fun _ => ?_
    unfold tuned
    rw [if_pos (of_decide_eq_true hgain)]
  · refine meets_onlyIf (fun htdd => absurd htdd (by simp [hon])) fun _ => ?_
    unfold tuned
    rw [if_neg (of_decide_eq_false hgain)]

/-- An apply that succeeded: the chip, and the applied channels. -/
theorem rxSet_of_success (hloopback : ch.path ≠ .loopback) (hon : ch.enable = .rfOn)
    (hsuccess : (board.rxSet lane ch answers).2 = true) :
    (board.rxSet lane ch answers).1.core = tuned board lane ch ∧
      (board.rxSet lane ch answers).1.rxS = Function.update board.rxS lane ch := by
  have hended : Ended (fun _ core => core = tuned board lane ch) (fun _ => True)
      (board.rxCalls lane ch board.core answers) := meets_rxCalls hloopback hon answers
  unfold Board.rxSet at hsuccess ⊢
  rcases hrun : board.rxCalls lane ch board.core answers with ⟨_ | value, core, left⟩ <;>
    rw [hrun] at hended hsuccess
  · cases hsuccess
  · refine ⟨hended, funext fun other => ?_⟩
    by_cases heq : other = lane <;> simp [heq]

/-- The masks of an apply: its own receiver, and the other one if it is on. -/
theorem apiId_own (board : Board) (lane : Lane) : board.apiId lane &&& lane.mask ≠ 0 := by
  unfold Board.apiId
  dsimp only
  split
  · obtain rfl | rfl := lane.eq_a_or_b <;> decide
  · obtain rfl | rfl := lane.eq_a_or_b <;> decide

theorem apiId_rev (board : Board) (lane : Lane) :
    board.apiId lane &&& Lane.mask lane.rev = 0 ↔ ¬ (board.rxS lane.rev).enable = .rfOn := by
  unfold Board.apiId
  dsimp only
  split
  case isTrue hon =>
    refine iff_of_false ?_ (not_not.mpr hon)
    obtain rfl | rfl := lane.eq_a_or_b <;> decide
  case isFalse hoff =>
    refine iff_of_true ?_ hoff
    obtain rfl | rfl := lane.eq_a_or_b <;> decide

/-- The gain of the receiver after its apply. -/
theorem gain_tuned_own :
    (tuned board lane ch).gain unset lane =
      if 0 < Board.stagedDbm lane ch then min (Board.stagedDbm lane ch) 64
      else board.core.gain unset lane := by
  unfold tuned
  dsimp only
  split
  · rw [gain_cons_rxGain, if_neg (apiId_own board lane)]
  · rw [gain_cons_powerUpRx]

/-- The gain of the other receiver. -/
theorem gain_tuned_rev :
    (tuned board lane ch).gain unset lane.rev =
      if 0 < Board.stagedDbm lane ch ∧ (board.rxS lane.rev).enable = .rfOn then
        min (Board.stagedDbm lane ch) 64
      else board.core.gain unset lane.rev := by
  unfold tuned
  dsimp only
  by_cases hgain : 0 < Board.stagedDbm lane ch
  · rw [if_pos hgain, gain_cons_rxGain, gain_cons_powerUpRx]
    by_cases hon : (board.rxS lane.rev).enable = .rfOn
    · rw [if_neg fun hzero => (apiId_rev board lane).mp hzero hon, if_pos ⟨hgain, hon⟩]
    · rw [if_pos ((apiId_rev board lane).mpr hon), if_neg fun hboth => hon hboth.2]
  · rw [if_neg hgain, gain_cons_powerUpRx, if_neg fun hboth => hgain hboth.1]

end Chip

/-! ## Runs -/

theorem Lane.rev_ne (lane : Lane) : lane.rev ≠ lane := by
  revert lane
  decide

theorem Lane.eq_or_eq_rev (lane other : Lane) : other = lane ∨ other = lane.rev := by
  revert lane other
  decide

namespace Receivers

variable {unset : Lane → Int} {state following : Receivers} {apply : RxApply}

/-- What an apply that succeeds does. -/
structure Applied (state : Receivers) (apply : RxApply) (following : Receivers) : Prop where
  on : apply.ch.enable = .rfOn
  core : following.board.core = tuned state.board apply.lane apply.ch
  rxS : following.board.rxS = Function.update state.board.rxS apply.lane apply.ch
  fe : following.fe = store state.fe (rxWrites apply.lane apply.ch)
  rffcRunning : following.rffcRunning = decide (apply.ch.freq < rffcFreq)

theorem applied_of_next (h : state.next apply = some following) :
    Applied state apply following := by
  obtain ⟨⟨⟨hpath, hon⟩, hsuccess⟩, rfl⟩ := of_guard h
  have hloopback : apply.ch.path ≠ .loopback := by
    rw [hpath]
    split <;> decide
  obtain ⟨hcore, hrxS⟩ := rxSet_of_success hloopback hon hsuccess
  exact ⟨hon, hcore, hrxS, rfl, rfl⟩

theorem LaneRight.of_rxS {lane : Lane} {ch : RxCh} (hrxS : state.board.rxS lane = ch)
    (hbits : Settled state.fe (demands lane ch))
    (hgain : state.board.core.gain unset lane = Board.stagedDbm lane ch)
    (hrunning : ch.freq < rffcFreq → state.rffcRunning = true) : state.LaneRight unset lane := by
  subst hrxS
  exact ⟨hbits, hgain, hrunning⟩

namespace Applied

variable (happlied : Applied state apply following)
include happlied

theorem rxS_own : following.board.rxS apply.lane = apply.ch := by
  rw [happlied.rxS, Function.update_self]

theorem rxS_rev : following.board.rxS apply.lane.rev = state.board.rxS apply.lane.rev := by
  rw [happlied.rxS, Function.update_of_ne apply.lane.rev_ne]

/-- The receiver of the apply gets what it asked for. -/
theorem own_right (hkeeps : state.Keeps unset apply) : following.LaneRight unset apply.lane := by
  refine .of_rxS happlied.rxS_own ?_ ?_ fun hlow => ?_
  · rw [happlied.fe, rxWrites_eq hkeeps.bits]
    exact settled_store
  · rw [happlied.core, gain_tuned_own]
    by_cases hgain : 0 < Board.stagedDbm apply.lane apply.ch
    · rw [if_pos hgain, min_eq_left (hkeeps.gain hgain).1]
    · rw [if_neg hgain, hkeeps.unwritten (not_lt.mp hgain)]
  · rw [happlied.rffcRunning]
    exact decide_eq_true hlow

/-- The other receiver keeps what it has. -/
theorem rev_right (hkeeps : state.Keeps unset apply) (hon : state.On apply.lane.rev)
    (hright : state.LaneRight unset apply.lane.rev) :
    following.LaneRight unset apply.lane.rev := by
  refine .of_rxS happlied.rxS_rev ?_ ?_ fun hlow => ?_
  · rw [happlied.fe, rxWrites_eq hkeeps.bits]
    -- The writes are of the one receiver, and what has to stay is of the other.
    refine hright.bits.congr fun bit hbit => store_of_not_driven fun hdriven => ?_
    exact apply.lane.rev_ne ((driven_demands hbit).symm.trans (driven_demands hdriven))
  · rw [happlied.core, gain_tuned_rev]
    by_cases hgain : 0 < Board.stagedDbm apply.lane apply.ch
    · obtain ⟨hcap, hsame⟩ := hkeeps.gain hgain
      rw [if_pos ⟨hgain, hon⟩, min_eq_left hcap, hsame hon]
    · rw [if_neg fun hboth => hgain hboth.1, hright.gain]
  · rw [happlied.rffcRunning]
    exact decide_eq_true (not_le.mp fun hhigh => absurd (hkeeps.running hhigh hon) (not_le.mpr hlow))

theorem isolated (hkeeps : state.Keeps unset apply) (h : state.Isolated unset) :
    following.Isolated unset := by
  intro lane hon
  obtain rfl | rfl := apply.lane.eq_or_eq_rev lane
  · exact happlied.own_right hkeeps
  · have hbefore : state.On apply.lane.rev := by
      unfold On
      rw [← happlied.rxS_rev]
      exact hon
    exact happlied.rev_right hkeeps hbefore (h _ hbefore)

/-- The bits of the second receiver that its widest band would need. -/
theorem unreached (hkeeps : state.Keeps unset apply) (h : state.Unreached) :
    following.Unreached := by
  have hmem : LaneBit.fcFo1 ∈ outerFilters ∧ LaneBit.fcFo2 ∈ outerFilters := by decide
  unfold Unreached
  rw [happlied.fe, rxWrites_eq hkeeps.bits]
  by_cases hhigh : rffcFreq ≤ apply.ch.freq
  · rw [store_outer_high hmem.1 hhigh, store_outer_high hmem.2 hhigh]
    exact h
  · have hlow := not_le.mp hhigh
    obtain hlane | hlane := apply.lane.eq_a_or_b
    · -- The other receiver's apply leaves them.
      have hleft : ∀ name, store state.fe (demands apply.lane apply.ch) (.b, name) =
          state.fe (.b, name) := fun name => store_of_not_driven fun hdriven => by
        have hsame : Lane.b = apply.lane := driven_demands hdriven
        rw [hlane] at hsame
        exact absurd hsame (by decide)
      rw [hleft, hleft]
      exact h
    · have hnarrow := hkeeps.bits
      rw [← hlane, store_outer_low hmem.1 hlow, store_outer_low hmem.2 hlow]
      split_ifs with hnarrowest hmiddle
      · exact fun hboth => absurd hboth.2 (by simp [store, rffc_1574_1576, onLane])
      · exact absurd ⟨hlane, hlow, hmiddle.1, not_le.mp fun hle => hnarrowest ⟨hmiddle.1, hle⟩,
          hmiddle.2⟩ hnarrow
      · exact fun hboth => absurd hboth.1 (by simp [store, rffc_1166_1229, onLane])

/-- An apply after which both receivers are right. -/
theorem keeps (h : state.Unreached) (hafter : following.Isolated unset) :
    state.Keeps unset apply := by
  have hown : following.LaneRight unset apply.lane := by
    refine hafter _ ?_
    unfold On
    rw [happlied.rxS_own]
    exact happlied.on
  have hrev (hon : state.On apply.lane.rev) : following.LaneRight unset apply.lane.rev := by
    refine hafter _ ?_
    unfold On
    rw [happlied.rxS_rev]
    exact hon
  have hgain := hown.gain
  rw [happlied.rxS_own, happlied.core, gain_tuned_own] at hgain
  refine ⟨fun hwide => h ?_, fun hpos => ?_, fun hneg => ?_, fun hhigh hon => ?_⟩
  · obtain ⟨hlane, hlow, hwide⟩ := hwide
    have hmem : LaneBit.fcFo1 ∈ outerFilters ∧ LaneBit.fcFo2 ∈ outerFilters := by decide
    have hbits := hown.bits
    rw [happlied.rxS_own, happlied.fe, hlane] at hbits
    exact ⟨wide_reached hmem.1 hlow hwide hbits, wide_reached hmem.2 hlow hwide hbits⟩
  · rw [if_pos hpos] at hgain
    refine ⟨min_eq_left_iff.mp hgain, fun hon => ?_⟩
    have hother := (hrev hon).gain
    rw [happlied.rxS_rev, happlied.core, gain_tuned_rev, if_pos ⟨hpos, hon⟩, hgain] at hother
    exact hother.symm
  · rwa [if_neg (not_lt.mpr hneg)] at hgain
  · refine not_lt.mp fun hlow => ?_
    have hrunning := (hrev hon).running (by rwa [happlied.rxS_rev])
    rw [happlied.rffcRunning] at hrunning
    exact absurd (of_decide_eq_true hrunning) (not_lt.mpr hhigh)

end Applied

/-- In every run from the probe both receivers are right after each apply exactly if each apply
keeps them so. -/
theorem always_isolated_iff (hasTx rffcRunning : Bool) (unset : Lane → Int)
    (applies : List RxApply) :
    Always next (Isolated unset) (probed hasTx rffcRunning) applies ↔
      Guarded next (Keeps unset) (probed hasTx rffcRunning) applies := by
  have hkeep (state apply following) (h : state.Isolated unset ∧ Unreached state)
      (hkeeps : Keeps unset state apply) (hnext : next state apply = some following) :
      following.Isolated unset ∧ following.Unreached :=
    have happlied := applied_of_next hnext
    ⟨happlied.isolated hkeeps h.1, happlied.unreached hkeeps h.2⟩
  have hbreak (state apply following) (h : state.Isolated unset ∧ Unreached state)
      (hnext : next state apply = some following) (hafter : following.Isolated unset) :
      Keeps unset state apply :=
    (applied_of_next hnext).keeps h.2 hafter
  have hoff : (probed hasTx rffcRunning).Isolated unset := fun lane hon => by cases hon
  have hstart : Unreached (probed hasTx rffcRunning) := fun hboth => by cases hboth.1
  exact always_iff_everyStep hkeep (fun _ h => h.1) hbreak ⟨hoff, hstart⟩

/-- The second receiver, with 10 MHz of bandwidth, moves the filters of the first one. -/
theorem not_isolated_wide :
    ¬ Always next (Isolated fun _ => 0) (probed true false)
      [⟨.a, ⟨500000000, 20, 0, .smaA, .rfOn⟩, []⟩, ⟨.b, ⟨500000000, 20, 10, .smaB, .rfOn⟩, []⟩] := by
  intro h
  have hright := ((h.2 _ rfl).2 _ rfl).here .a rfl
  exact absurd (hright.bits (.a, .fcFo1) (by decide)) (by decide)

end Receivers

end RfnmDriver.Granita
