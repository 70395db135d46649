/-
  The instrument families and what the timeline needs to know of them.

  Families with a waveform sequencer have `DeviceTraits`: a sampling rate, whether they keep a
  running phase for software oscillators, and whether and how fast they reset the phase of their
  hardware oscillators.  Control units and peripherals have none.
-/
import PulseTimeline.Name

namespace PulseTimeline

/-- The instrument families. -/
inductive DeviceKind
  | hdawg
  | shfqa
  | shfsg
  | uhfqa
  | shfppc
  | pqsc
deriving DecidableEq

/-- What the timeline needs to know of a family with a waveform sequencer. -/
structure DeviceTraits where
  /-- Nominal sampling rate in samples per second. -/
  samplingRate : Float
  /-- The rate in a setup that also holds an instrument of the SHF line, where it differs. -/
  samplingRateWithShf : Option Float
  /-- Readout instruments keep no running phase for software oscillators. -/
  isReadout : Bool
  /-- Whether the phase of the hardware oscillators can be reset. -/
  resetsPhase : Bool
  /-- How long such a reset takes, in seconds. -/
  resetDuration : Float

namespace DeviceKind

/-- The traits of a family; control units and peripherals have none. -/
def traits : DeviceKind → Option DeviceTraits
  | .hdawg => some ⟨2.4e9, some 2.0e9, false, true, 80e-9⟩
  | .uhfqa => some ⟨1.8e9, none, true, true, 40e-9⟩
  | .shfsg => some ⟨2.0e9, none, false, true, 56e-9⟩
  | .shfqa => some ⟨2.0e9, none, true, true, 56e-9⟩
  | .shfppc => none
  | .pqsc => none

/-- Whether the family belongs to the SHF line. -/
def isShf : DeviceKind → Bool
  | .shfqa | .shfsg | .shfppc => true
  | .hdawg | .uhfqa | .pqsc => false

/-- Whether instruments of the family are readout instruments. -/
def isReadout (kind : DeviceKind) : Bool := kind.traits.any (·.isReadout)

/-- The name of a family. -/
def name : DeviceKind → String
  | .hdawg => "hdawg"
  | .shfqa => "shfqa"
  | .shfsg => "shfsg"
  | .uhfqa => "uhfqa"
  | .shfppc => "shfppc"
  | .pqsc => "pqsc"

/-- All families. -/
def all : List DeviceKind := [.hdawg, .shfqa, .shfsg, .uhfqa, .shfppc, .pqsc]

/-- The family of exactly this name. -/
def ofName? (name : String) : Option DeviceKind := all.find? (·.name == name)

/-- A name that no family has. -/
structure UnknownName where
  name : String
deriving DecidableEq

/-- The text of the failure. -/
def UnknownName.message (e : UnknownName) : String := "Unknown device type: '" ++ e.name ++ "'"

/-- The family of this name, where the case of the letters A to Z does not matter. -/
def parse (name : String) : Except UnknownName DeviceKind :=
  match ofName? (name.map Char.toLower) with
  | some kind => .ok kind
  | none => .error ⟨name⟩

theorem ofName?_name (kind : DeviceKind) : ofName? kind.name = some kind := by
  cases kind <;> decide

end DeviceKind

/-- An instrument of an experiment. -/
structure Device where
  uid : DeviceUid
  kind : DeviceKind
deriving DecidableEq

end PulseTimeline
