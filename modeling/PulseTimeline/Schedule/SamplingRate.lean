/-
  The sampling rate of each device of a setup.

  Some instruments run at another rate when the setup also holds an instrument of the SHF line, so
  a rate depends on the whole set of devices.  Of several declarations of a device the last counts.
-/
import PulseTimeline.Schedule.Error
import PulseTimeline.Table

namespace PulseTimeline

/-- The devices of a setup, and whether one of them belongs to the SHF line. -/
structure SamplingRates where
  devices : Table DeviceUid DeviceKind
  hasShf : Bool

namespace SamplingRates

/-- The sampling rates of a set of devices. -/
def ofDevices (devices : List Device) : SamplingRates where
  devices := .collect Device.uid Device.kind devices
  hasShf := devices.any fun d => d.kind.isShf

/-- The sampling rate of a device. -/
def ofDevice (r : SamplingRates) (uid : DeviceUid) : Except ScheduleError Float := do
  let some kind := r.devices.get? uid | throw (.unknownDevice uid)
  let some traits := kind.traits | throw (.noSamplingRate kind)
  pure (if r.hasShf then traits.samplingRateWithShf.getD traits.samplingRate
    else traits.samplingRate)

end SamplingRates

end PulseTimeline
