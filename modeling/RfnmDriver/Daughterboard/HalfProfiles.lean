import RfnmDriver.Library.RegisterFile
import RfnmDriver.Library.StepSystem

/-!
# The half-profiles of a TDD board

An apply in RF_ON_TDD ends with a snapshot of the latch image, the half-profile of its direction,
and hands both to the M7 if the other direction is applied in RF_ON_TDD as well. The image is one
for both directions and for all channels. `Duplex` is what the board drivers have in common: the
profiles, and what the channels that are applied in TDD demand of them.
-/

namespace RfnmDriver.Daughterboard

open RegisterFile

variable {Bit : Type}

/-- The two half-profiles. -/
structure Profiles (Bit : Type) where
  /-- `fe_tdd[RFNM_TX]` of the board. -/
  tx : Bit → Bool
  /-- `fe_tdd[RFNM_RX]` of the board. -/
  rx : Bit → Bool
  /-- What the M7 was handed last, the transmit profile first. -/
  handed : Option ((Bit → Bool) × (Bit → Bool))

/-- `rfnm_dgb_en_tdd`. -/
def Profiles.enTdd (profiles : Profiles Bit) : Profiles Bit :=
  { profiles with handed := some (profiles.tx, profiles.rx) }

/-- The end of a TX apply in TDD; whether an RX channel is applied in TDD. -/
def Profiles.snapTx (profiles : Profiles Bit) (fe : Bit → Bool) (rxTdd : Bool) : Profiles Bit :=
  let taken := { profiles with tx := fe }
  if rxTdd then taken.enTdd else taken

/-- The end of an RX apply in TDD; whether the TX channel is applied in TDD. -/
def Profiles.snapRx (profiles : Profiles Bit) (fe : Bit → Bool) (txTdd : Bool) : Profiles Bit :=
  let taken := { profiles with rx := fe }
  if txTdd then taken.enTdd else taken

/-- Nothing was handed yet. -/
def Profiles.blank : Profiles Bit := ⟨fun _ => false, fun _ => false, none⟩

/-- The bits that something demands, with their values. -/
abbrev Demand (Bit : Type) := List (Bit × Bool)

/-- The profiles of a board, and the demands of the channels that are applied in TDD. -/
@[ext]
structure Duplex (Bit : Type) where
  profiles : Profiles Bit
  tx : Option (Demand Bit)
  rx : Option (Demand Bit)

/-- An apply, as far as the profiles go. -/
inductive DuplexEvent (Bit : Type)
  /-- A TX apply in TDD leaves this image, and its channel makes this demand. -/
  | tx (fe : Bit → Bool) (demand : Demand Bit)
  /-- An RX apply in TDD leaves this image, and the channels in TDD make this demand. -/
  | rx (fe : Bit → Bool) (demand : Demand Bit)
  /-- Any other apply. -/
  | rest (tx rx : Option (Demand Bit))

/-- The profiles and the demands after an apply. -/
def Duplex.step (duplex : Duplex Bit) : DuplexEvent Bit → Duplex Bit
  | .tx fe demand =>
      { duplex with
        profiles := duplex.profiles.snapTx fe duplex.rx.isSome, tx := some demand }
  | .rx fe demand =>
      { duplex with
        profiles := duplex.profiles.snapRx fe duplex.tx.isSome, rx := some demand }
  | .rest tx rx => ⟨duplex.profiles, tx, rx⟩

/-- A TX apply leaves in the image what its channel demands. An apply that is not in TDD adds to no
demand. -/
def Duplex.Allows (duplex : Duplex Bit) : DuplexEvent Bit → Prop
  | .tx fe demand => Meets fe demand
  | .rx _ _ => True
  | .rest tx rx => (tx = duplex.tx ∨ tx = none) ∧
      ∀ demand, rx = some demand → ∃ whole, duplex.rx = some whole ∧ demand ⊆ whole

/-- While both directions are applied in TDD, the pair that was handed last meets the demands. -/
def Duplex.Right (duplex : Duplex Bit) : Prop :=
  ∀ tx rx, duplex.tx = some tx → duplex.rx = some rx →
    ∃ pair, duplex.profiles.handed = some pair ∧ Meets pair.1 tx ∧ Meets pair.2 rx

instance Duplex.decidableRight (duplex : Duplex Bit) : Decidable duplex.Right :=
  decidable_of_iff
    (∀ tx ∈ duplex.tx, ∀ rx ∈ duplex.rx, ∃ pair ∈ duplex.profiles.handed,
      Meets pair.1 tx ∧ Meets pair.2 rx)
    ⟨fun h tx rx htx hrx => h tx htx rx hrx, fun h tx htx rx hrx => h tx rx htx hrx⟩

/-- Where the other direction is applied in TDD, the image of an RX apply meets the demands, and
the RX profile that a TX apply finds does. -/
def Duplex.Spared (duplex : Duplex Bit) : DuplexEvent Bit → Prop
  | .tx _ _ => ∀ rx, duplex.rx = some rx → Meets duplex.profiles.rx rx
  | .rx fe demand => duplex.tx.isSome = true → Meets fe demand
  | .rest _ _ => True

/-- The image of an RX apply meets the demands. -/
def DuplexEvent.Clean : DuplexEvent Bit → Prop
  | .rx fe demand => Meets fe demand
  | _ => True

/-- The TX profile meets its demand, and the pair that was handed last is the one the board has. -/
structure Duplex.Kept (duplex : Duplex Bit) : Prop where
  tx : ∀ demand, duplex.tx = some demand → Meets duplex.profiles.tx demand
  handed : duplex.tx.isSome = true → duplex.rx.isSome = true →
    duplex.profiles.handed = some (duplex.profiles.tx, duplex.profiles.rx)

variable {duplex following : Duplex Bit} {event : DuplexEvent Bit}

/-- An apply that takes no profile. -/
theorem Duplex.step_rest (h : following.profiles = duplex.profiles) :
    following = duplex.step (.rest following.tx following.rx) := by
  rw [step, ← h]

theorem snapTx_tx (profiles : Profiles Bit) (fe : Bit → Bool) (rxTdd : Bool) :
    (profiles.snapTx fe rxTdd).tx = fe := by
  cases rxTdd <;> rfl

theorem snapTx_rx (profiles : Profiles Bit) (fe : Bit → Bool) (rxTdd : Bool) :
    (profiles.snapTx fe rxTdd).rx = profiles.rx := by
  cases rxTdd <;> rfl

theorem snapRx_tx (profiles : Profiles Bit) (fe : Bit → Bool) (txTdd : Bool) :
    (profiles.snapRx fe txTdd).tx = profiles.tx := by
  cases txTdd <;> rfl

theorem snapRx_rx (profiles : Profiles Bit) (fe : Bit → Bool) (txTdd : Bool) :
    (profiles.snapRx fe txTdd).rx = fe := by
  cases txTdd <;> rfl

/-- What is handed by a TX apply. -/
theorem snapTx_handed (profiles : Profiles Bit) (fe : Bit → Bool) :
    (profiles.snapTx fe true).handed = some (fe, profiles.rx) := rfl

/-- What is handed by an RX apply. -/
theorem snapRx_handed (profiles : Profiles Bit) (fe : Bit → Bool) :
    (profiles.snapRx fe true).handed = some (profiles.tx, fe) := rfl

/-- Every apply keeps what is kept. -/
theorem Duplex.Kept.step (h : duplex.Kept) (hallows : duplex.Allows event) :
    (duplex.step event).Kept := by
  cases event with
  | tx fe demand =>
      refine ⟨fun other hother => ?_, fun _ hrx => ?_⟩
      · obtain rfl := Option.some.inj hother
        show Meets (duplex.profiles.snapTx fe duplex.rx.isSome).tx _
        rw [snapTx_tx]
        exact hallows
      · have hrx : duplex.rx.isSome = true := hrx
        simp only [Duplex.step, hrx, snapTx_handed, snapTx_tx, snapTx_rx]
  | rx fe demand =>
      refine ⟨fun other hother => ?_, fun htx _ => ?_⟩
      · show Meets (duplex.profiles.snapRx fe duplex.tx.isSome).tx _
        rw [snapRx_tx]
        exact h.tx other hother
      · have htx : duplex.tx.isSome = true := htx
        simp only [Duplex.step, htx, snapRx_handed, snapRx_tx, snapRx_rx]
  | rest tx rx =>
      obtain ⟨htx, hrx⟩ := hallows
      refine ⟨fun demand hdemand => ?_, fun htxSome hrxSome => ?_⟩
      · -- what is handed over was right before, and stays as long as both are on
        rcases htx with hsame | hnone
        · exact h.tx demand (hsame ▸ hdemand)
        · exact absurd (hnone.symm.trans hdemand) nofun
      · obtain ⟨demand, hdemand⟩ := Option.isSome_iff_exists.mp hrxSome
        obtain ⟨whole, hwhole, -⟩ := hrx demand hdemand
        obtain ⟨other, hother⟩ := Option.isSome_iff_exists.mp htxSome
        rcases htx with hsame | hnone
        · refine h.handed ?_ (by rw [hwhole]; rfl)
          rw [← hsame]
          exact htxSome
        · exact absurd (hnone.symm.trans hother) nofun

/-- The pair is right where the RX profile of the board is. -/
theorem Duplex.Kept.right_iff (h : duplex.Kept) :
    duplex.Right ↔ (duplex.tx.isSome = true →
      ∀ demand, duplex.rx = some demand → Meets duplex.profiles.rx demand) := by
  constructor
  · intro hright htx demand hdemand
    obtain ⟨tx, htxDemand⟩ := Option.isSome_iff_exists.mp htx
    obtain ⟨pair, hpair, -, hmeets⟩ := hright tx demand htxDemand hdemand
    have hhanded := h.handed htx (by rw [hdemand]; rfl)
    rw [hpair] at hhanded
    obtain rfl := Option.some.inj hhanded
    exact hmeets
  · intro hmeets tx rx htx hrx
    have htxSome : duplex.tx.isSome = true := by rw [htx]; rfl
    exact ⟨_, h.handed htxSome (by rw [hrx]; rfl), h.tx tx htx, hmeets htxSome rx hrx⟩

/-- An apply leaves the pair right exactly if it is spared. -/
theorem right_step_iff (h : duplex.Kept) (hright : duplex.Right) (hallows : duplex.Allows event) :
    (duplex.step event).Right ↔ duplex.Spared event := by
  rw [(h.step hallows).right_iff]
  cases event with
  | tx fe demand =>
      simp only [Duplex.step, snapTx_rx]
      exact ⟨fun hmeets => hmeets rfl, fun hmeets _ => hmeets⟩
  | rx fe demand =>
      simp only [Duplex.step, snapRx_rx]
      exact ⟨fun hmeets htx => hmeets htx demand rfl, fun hmeets htx other hother =>
        Option.some.inj hother ▸ hmeets htx⟩
  | rest tx rx =>
      refine iff_of_true (fun htx demand hdemand => ?_) trivial
      obtain ⟨hsame | hnone, hrx⟩ := hallows
      · obtain ⟨whole, hwhole, hsub⟩ := hrx demand hdemand
        have hmeets := h.right_iff.mp hright (hsame ▸ htx) whole hwhole
        exact fun want hwant => hmeets want (hsub hwant)
      · have htx : tx.isSome = true := htx
        rw [hnone] at htx
        cases htx

/-- The RX profile of the board meets the demands. -/
def Duplex.Clean (duplex : Duplex Bit) : Prop :=
  ∀ demand, duplex.rx = some demand → Meets duplex.profiles.rx demand

/-- A clean apply keeps the RX profile clean. -/
theorem Duplex.Clean.step (h : duplex.Clean) (hallows : duplex.Allows event)
    (hclean : event.Clean) : (duplex.step event).Clean := by
  cases event with
  | tx fe demand =>
      intro other hother
      show Meets (duplex.profiles.snapTx fe duplex.rx.isSome).rx _
      rw [snapTx_rx]
      exact h other hother
  | rx fe demand =>
      intro other hother
      obtain rfl := Option.some.inj hother
      show Meets (duplex.profiles.snapRx fe duplex.tx.isSome).rx _
      rw [snapRx_rx]
      exact hclean
  | rest tx rx =>
      intro demand hdemand
      obtain ⟨whole, hwhole, hsub⟩ := hallows.2 demand hdemand
      exact fun want hwant => h whole hwhole want (hsub hwant)

/-- Where the RX profile of the board is clean, the pair is right. -/
theorem Duplex.Clean.right (h : duplex.Clean) (hkept : duplex.Kept) : duplex.Right :=
  hkept.right_iff.mpr fun _ => h

/-! ## Boards -/

section Boards

open StepSystem

variable {State Event : Type} {next : State → Event → Option State} {view : State → Duplex Bit}
  {apply : State → Event → DuplexEvent Bit} {start : State} {events : List Event}

/-- What a board's applies do to its profiles and demands is what `Duplex` says. -/
def Refines (next : State → Event → Option State) (view : State → Duplex Bit)
    (apply : State → Event → DuplexEvent Bit) : Prop :=
  ∀ state event following, next state event = some following →
    view following = (view state).step (apply state event) ∧
      (view state).Allows (apply state event)

/-- What is kept along a run. -/
def RightlyKept (view : State → Duplex Bit) (state : State) : Prop :=
  (view state).Kept ∧ (view state).Right

/-- What is kept along a run of clean applies. -/
def CleanlyKept (view : State → Duplex Bit) (state : State) : Prop :=
  (view state).Kept ∧ (view state).Clean

theorem CleanlyKept.rightly {state : State} (h : CleanlyKept view state) :
    RightlyKept view state :=
  ⟨h.1, h.2.right h.1⟩

/-- The pair that was handed last is right all along exactly as long as every apply is spared. -/
theorem always_right_iff (hrefines : Refines next view apply)
    (hstart : RightlyKept view start) :
    Always next (fun state => (view state).Right) start events ↔
      Guarded next (fun state event => (view state).Spared (apply state event)) start events := by
  have hproperty : ∀ state, RightlyKept view state → (view state).Right := fun _ => And.right
  refine always_iff_everyStep (fun state event following h hspared hnext => ?_) hproperty
    (fun state event following h hnext hright => ?_) hstart
  · obtain ⟨hview, hallows⟩ := hrefines state event following hnext
    rw [RightlyKept, hview]
    exact ⟨h.1.step hallows, (right_step_iff h.1 h.2 hallows).mpr hspared⟩
  · obtain ⟨hview, hallows⟩ := hrefines state event following hnext
    rw [hview] at hright
    exact (right_step_iff h.1 h.2 hallows).mp hright

/-- It is if every RX apply leaves an image that meets the demands. -/
theorem always_right_of_clean (hrefines : Refines next view apply)
    (hstart : CleanlyKept view start)
    (h : Guarded next (fun state event => (apply state event).Clean) start events) :
    Always next (fun state => (view state).Right) start events := by
  have hproperty : ∀ state, CleanlyKept view state → (view state).Right :=
    fun _ hkept => hkept.2.right hkept.1
  refine (always_of_guarded (fun state event following hkept hclean hnext => ?_) hstart h).mono
    hproperty
  obtain ⟨hview, hallows⟩ := hrefines state event following hnext
  rw [CleanlyKept, hview]
  exact ⟨hkept.1.step hallows, hkept.2.step hallows hclean⟩

/-- The pair that was handed last is right all along exactly if every apply is spared, and it is if
every RX apply is settled, where these are what the profiles see of an apply. -/
theorem always_right {spared settled : State → Event → Prop} (hrefines : Refines next view apply)
    (hstart : CleanlyKept view start)
    (hspared : ∀ state event, (view state).Spared (apply state event) ↔ spared state event)
    (hsettled : ∀ state event, (apply state event).Clean ↔ settled state event) :
    (Always next (fun state => (view state).Right) start events ↔
        Guarded next spared start events) ∧
      (Guarded next settled start events →
        Always next (fun state => (view state).Right) start events) := by
  obtain rfl : (fun state event => (view state).Spared (apply state event)) = spared :=
    funext₂ fun state event => propext (hspared state event)
  obtain rfl : (fun state event => (apply state event).Clean) = settled :=
    funext₂ fun state event => propext (hsettled state event)
  exact ⟨always_right_iff hrefines hstart.rightly, always_right_of_clean hrefines hstart⟩

end Boards

end RfnmDriver.Daughterboard
