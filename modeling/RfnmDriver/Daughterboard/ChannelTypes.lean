/-!
# Enumerations of the channel structs

The enumerations of `linux/rfnm-shared.h` that the board drivers look at in a channel.
-/

namespace RfnmDriver

/-- `enum rfnm_ch_enable`. -/
inductive ChEnable
  | rfOff
  | rfOn
  | rfOnTdd
  deriving DecidableEq, Repr

/-- `enum rfnm_rf_path`. -/
inductive RfPath
  | null
  | smaA
  | smaB
  | smaC
  | smaD
  | smaE
  | smaF
  | smaG
  | smaH
  | embedAnt
  | terminated
  | loopback
  deriving DecidableEq, Repr

/-- `enum rfnm_fm_notch`. -/
inductive FmNotch
  | auto
  | on
  | off
  deriving DecidableEq, Repr

end RfnmDriver
