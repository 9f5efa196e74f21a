import RfnmDriver.Library.StepSystem
import RfnmDriver.Library.ListFamily
import RfnmDriver.Tx.PayloadLength
import RfnmDriver.Tx.PoolConservation
import RfnmDriver.Usb.OutConservation
import RfnmDriver.Usb.PoolPopulation
import RfnmDriver.LocalRx.Calls
import RfnmDriver.LocalRx.QueueDepth
import RfnmDriver.Rx.SlotOwnership
import RfnmDriver.Rx.StampContinuity
import RfnmDriver.Rx.PayloadOffset
import RfnmDriver.Rx.PacketParts
import RfnmDriver.Rx.RealPayload
import RfnmDriver.LaLib.MailboxSerial
import RfnmDriver.LaLib.StreamDedup
import RfnmDriver.LaLib.RestartOrder
import RfnmDriver.Daughterboard.ApplyConfirmation
import RfnmDriver.Daughterboard.CapabilityFrame
import RfnmDriver.Daughterboard.TimingReport
import RfnmDriver.Daughterboard.Numbering
import RfnmDriver.Eth.SocketRetirement
import RfnmDriver.Eth.IngestExactness
import RfnmDriver.Eth.SendFraming
import RfnmDriver.Tx.WindowContents
import RfnmDriver.Tx.Judge
import RfnmDriver.Tx.SinglePlacement
import RfnmDriver.Tx.OutcomeCounters
import RfnmDriver.LaLib.WindowPacing
import RfnmDriver.Rx.UsbSeam
import RfnmDriver.Rx.LocalSeam
import RfnmDriver.Rx.LocalCustody
import RfnmDriver.Session.FaultLatch
import RfnmDriver.Session.TickClock
import RfnmDriver.LaLib.DcsPlan
import RfnmDriver.Control.CompletePayload
import RfnmDriver.Lime.SessionBoundary
import RfnmDriver.Lime.SkipCaches
import RfnmDriver.Yucca.Convergence
import RfnmDriver.Daughterboard.RfOff
import RfnmDriver.Daughterboard.ParkHazards
import RfnmDriver.Vspa.RunningImage
import RfnmDriver.Daughterboard.TddProfiles
import RfnmDriver.Rx.RingLayout
import RfnmDriver.Rx.Cs16Fill
import RfnmDriver.Rx.AgcPeak
import RfnmDriver.Rx.QecSums
import RfnmDriver.Rx.QecFloat
import RfnmDriver.Tx.SortedStaging
import RfnmDriver.Rx.PayloadBounds
import RfnmDriver.Session.LanePark
import RfnmDriver.Rx.AgcGain
import RfnmDriver.Lime.AmplifierHistory
import RfnmDriver.Lime.DuplexOrder
import RfnmDriver.Lime.Latches
import RfnmDriver.Lime.DcGuard
import RfnmDriver.Library.CheckedInt
import RfnmDriver.Rx.QecFold
import RfnmDriver.Rx.QecSolve
import RfnmDriver.Rx.QecRanges
import RfnmDriver.Rx.DcNull
import RfnmDriver.Rx.DcNullRuns
import RfnmDriver.Rx.QecPollRuns
import RfnmDriver.Library.TolerantChoice
import RfnmDriver.Lime.DbmMap
import RfnmDriver.Lime.DbmFile
import RfnmDriver.Library.BitField
import RfnmDriver.Lime.Synthesizer
import RfnmDriver.Lime.FastTune
import RfnmDriver.Lime.TuningRange
import RfnmDriver.Daughterboard.LatchPins
import RfnmDriver.Daughterboard.LatchShadow
import RfnmDriver.Lime.PinLatches
import RfnmDriver.Granita.FrontEnd
import RfnmDriver.Granita.Isolation
import RfnmDriver.Yucca.MountedLanes
import RfnmDriver.Yucca.GainRestep
import RfnmDriver.Vspa.IdentWalk
import RfnmDriver.Vspa.Selection
import RfnmDriver.LaLib.WindowStall
import RfnmDriver.Lime.AnchorMemory
import RfnmDriver.Rx.Corrector
import RfnmDriver.Granita.ThreeWire
import RfnmDriver.Granita.DownConverter
import RfnmDriver.Shiva.EpLog
import RfnmDriver.Session.ArmDeath
import RfnmDriver.Session.HardReset
import RfnmDriver.Lime.McuCalibration
import RfnmDriver.Rx.ShipChain
import RfnmDriver.Tx.PumpPace
import RfnmDriver.Rx.PackRoundTrip
import RfnmDriver.Session.DataEndpoint
import RfnmDriver.Vspa.SectionLoad
