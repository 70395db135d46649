/-
  Why a schedule cannot be made.
-/
import PulseTimeline.Device

namespace PulseTimeline

/-- Why a schedule cannot be made. -/
inductive ScheduleError
  /-- The length of a schedule must be set before it is placed. -/
  | unresolvedLength (schedule : String) (start : Int)
  /-- A frequency schedule needs one value per oscillator. -/
  | valueCount (values oscillators : Nat)
  | unknownDevice (device : DeviceUid)
  /-- Only instruments with a waveform sequencer have a sampling rate. -/
  | noSamplingRate (kind : DeviceKind)
  | unknownSignal (signal : SignalUid)
  /-- A pulse without a handle is no acquisition. -/
  | notAnAcquisition (signal : SignalUid)
deriving DecidableEq

/-- The text of the failure. -/
def ScheduleError.message : ScheduleError → String
  | .unresolvedLength schedule start =>
      "Internal error: Length of '" ++ schedule ++ "' starting at " ++ toString start ++
        " must be set by a parameter"
  | .valueCount values oscillators =>
      "Internal error: Got " ++ toString values ++ " frequencies for " ++ toString oscillators ++
        " oscillators"
  | .unknownDevice device => "Unknown device " ++ device.describe
  | .noSamplingRate kind => "Device of type '" ++ kind.name ++ "' has no sampling rate"
  | .unknownSignal signal => "Unknown signal " ++ signal.describe
  | .notAnAcquisition signal =>
      "Internal error: Pulse on signal " ++ signal.describe ++ " is not an acquisition"

end PulseTimeline
