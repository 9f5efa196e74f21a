import RfnmDriver.Lime.TddProfiles
import RfnmDriver.Yucca.TddProfiles

/-!
# The half-profiles of the boards

A half-profile is the latch image as an apply leaves it, so it is right in what the apply writes
and has the rest from whatever wrote it last. The TX applies of both boards write all that their
channel demands. An RX apply does on the Yucca board for its own lane only, and on the Lime boards
where TX leaves it the port and its path is not LOOPBACK.
-/

namespace RfnmDriver.Daughterboard

open RegisterFile StepSystem

/-- In every run of applies the pair handed last is right for the channels in TDD exactly if, while
the TX channel is in TDD, no RX apply in TDD leaves a latch wrong that it does not write, and no TX
apply in TDD finds the RX profile wrong. It is if no RX apply in TDD leaves such a latch wrong. -/
theorem half_profiles_right_iff_spared (hasTx : Bool) (yuccaEvents : List Yucca.TddEvent)
    (params : Lime.Params) (slot : Lime.Slot) (limeEvents : List Lime.TddEvent) :
    ((Always Yucca.TddBoard.next (fun tdd => tdd.duplex.Right) (.probed hasTx) yuccaEvents ↔
          Guarded Yucca.TddBoard.next Yucca.TddBoard.Spared (.probed hasTx) yuccaEvents) ∧
        (Guarded Yucca.TddBoard.next Yucca.TddBoard.Settled (.probed hasTx) yuccaEvents →
          Always Yucca.TddBoard.next (fun tdd => tdd.duplex.Right) (.probed hasTx)
            yuccaEvents)) ∧
      (Always (Lime.TddDriver.next params) (fun tdd => (tdd.duplex params slot).Right) .probed
            limeEvents ↔
          Guarded (Lime.TddDriver.next params) (Lime.TddDriver.Spared params slot) .probed
            limeEvents) ∧
        (Guarded (Lime.TddDriver.next params) (Lime.TddDriver.Settled params slot) .probed
            limeEvents →
          Always (Lime.TddDriver.next params) (fun tdd => (tdd.duplex params slot).Right) .probed
            limeEvents) := by
  constructor
  · exact always_right Yucca.TddBoard.refines (Yucca.TddBoard.probed_kept hasTx)
      Yucca.TddBoard.spared_iff Yucca.TddBoard.clean_iff
  · exact always_right (Lime.TddDriver.refines params slot)
      (Lime.TddDriver.probed_kept params slot) (Lime.TddDriver.spared_iff params slot)
      (Lime.TddDriver.clean_iff params slot)

section Yucca

open Yucca

/-- Two lanes and the transmitter of a Yucca board in TDD, and then a new gain for the first lane:
the RX profile it takes has the second antenna at transmit, where the TX apply switched it. -/
theorem second_antenna_stays_at_transmit :
    let receives (gain : Int) : Yucca.RxCh := ⟨3500000000, gain, 50, .rfOnTdd⟩
    ¬ Always TddBoard.next (fun tdd => tdd.duplex.Right) (.probed true)
      [.rxSet .rx1 (receives 10) [], .rxSet .rx2 (receives 10) [],
        .txSet ⟨3500000000, 10, 50, .rfOnTdd⟩ .smaA [], .rxSet .rx1 (receives 12) []] := by
  decide

end Yucca

section Lime

open Lime

/-- The transmitter of a Lime board in TDD at 30 dBm, and then its receiver in TDD on the path
LOOPBACK: the RX profile has the second power amplifier on. -/
theorem second_amplifier_stays_on :
    ¬ Always (TddDriver.next .standard) (fun tdd => (tdd.duplex .standard .primary).Right) .probed
      [.txSet .primary ⟨2400000000, 30, .smaA, false, .rfOnTdd⟩ .locked,
        .rxSet .primary ⟨2400000000, 10, 20, 0, 0, .loopback, false, .auto, .rfOnTdd⟩ .locked] := by
  decide

end Lime

end RfnmDriver.Daughterboard
